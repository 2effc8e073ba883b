import TemplLayout.Proofs.Markup.Layout

/-!
# TemplLayout.Proofs.Markup.Joined

Texts that meet, made into one.

* `Node.joined ns` — the siblings `ns` with every run of texts joined.

It is written like `ns` (`spellAll_joined`). When blank texts are all that a text meets, it is
well-formed and cut into the same lines (`joined_spec`).
-/

namespace TemplLayout

open Text

variable {Q : Text → Prop}

namespace Node

/-- Puts a node in front, joined with what it meets when both are texts. -/
def join (n : Node Unit) (ns : List (Node Unit)) : List (Node Unit) :=
  match n, ns with
  | .text s, .text t :: ns => .text (s ++ t) :: ns
  | n, ns => n :: ns

def joined (ns : List (Node Unit)) : List (Node Unit) :=
  ns.foldr join []

theorem joined_cons (n : Node Unit) (ns : List (Node Unit)) :
    joined (n :: ns) = join n (joined ns) := rfl

/-- Joining either puts two texts together or nothing. -/
theorem join_cases (n : Node Unit) (ns : List (Node Unit)) :
    (∃ s t rest, n = .text s ∧ ns = .text t :: rest ∧ join n ns = .text (s ++ t) :: rest) ∨
      join n ns = n :: ns ∧ ∀ m ∈ ns.head?, Apart n m := by
  rcases n with s | ⟨tag, place, children⟩
  · rcases ns with _ | ⟨t | ⟨tag, place, children⟩, rest⟩
    · exact .inr ⟨rfl, by simp⟩
    · exact .inl ⟨s, t, rest, rfl, rfl, rfl⟩
    · exact .inr ⟨rfl, by simp [Apart, isElement]⟩
  · exact .inr ⟨rfl, fun _ _ => .inl rfl⟩

theorem spellAll_join (n : Node Unit) (ns : List (Node Unit)) :
    spellAll (join n ns) = n.spell ++ spellAll ns := by
  rcases join_cases n ns with ⟨s, t, rest, rfl, rfl, h⟩ | ⟨h, -⟩
  · rw [h, spellAll, spellAll, spell, spell, spell, List.append_assoc]
  · rw [h, spellAll]

theorem spellAll_joined (ns : List (Node Unit)) : spellAll (joined ns) = spellAll ns := by
  induction ns with
  | nil => rfl
  | cons n ns ih => rw [joined_cons, spellAll_join, ih, spellAll]

theorem any_isElement_joined (ns : List (Node Unit)) :
    (joined ns).any (·.isElement) = ns.any (·.isElement) := by
  induction ns with
  | nil => rfl
  | cons n ns ih =>
    rw [List.any_cons, ← ih, joined_cons]
    rcases join_cases n (joined ns) with ⟨s, t, rest, rfl, hns, h⟩ | ⟨h, -⟩
    · rw [h, hns]
      rfl
    · rw [h, List.any_cons]

theorem sealedAll_joined {ns : List (Node Unit)} (h : ∀ n ∈ ns, n.sealed = n) :
    sealedAll (joined ns) = joined ns := by
  induction ns with
  | nil => rfl
  | cons n ns ih =>
    rw [List.forall_mem_cons] at h
    have hns := ih h.2
    rw [joined_cons]
    rcases join_cases n (joined ns) with ⟨s, t, rest, rfl, hjoined, heq⟩ | ⟨heq, -⟩
    · rw [hjoined, sealedAll, List.cons.injEq] at hns
      rw [heq, sealedAll, hns.2]
      rfl
    · rw [heq, sealedAll, hns, h.1]

theorem blankAtStart_join {s : Text} (h : s.startsBlank = true) (ns : List (Node Unit)) :
    blankAtStart (join (.text s) ns) = true := by
  have hne : s ≠ [] := by
    rintro rfl
    cases h
  rcases join_cases (.text s) ns with ⟨_, t, rest, hs, rfl, heq⟩ | ⟨heq, -⟩
  · cases hs
    rw [heq, blankAtStart, startsBlank_append hne, h]
  · rw [heq, blankAtStart, h]

theorem blankAtEnd_join {ns : List (Node Unit)} (h : blankAtEnd ns = true) (n : Node Unit) :
    blankAtEnd (join n ns) = true := by
  rcases join_cases n ns with ⟨s, t, rest, rfl, rfl, heq⟩ | ⟨heq, -⟩
  · rw [heq]
    cases rest with
    | nil =>
      have hends : t.endsBlank = true := h
      have hne : t ≠ [] := by
        rintro rfl
        cases hends
      rw [blankAtEnd, List.getLast?_singleton]
      exact (endsBlank_append hne).trans hends
    | cons m rest =>
      rw [blankAtEnd, List.getLast?_cons_cons] at h ⊢
      exact h
  · rw [heq]
    cases ns with
    | nil => cases h
    | cons m ns =>
      rw [blankAtEnd, List.getLast?_cons_cons]
      exact h

theorem blankAtEnd_joined_concat {s : Text} (h : s.endsBlank = true) (ns : List (Node Unit)) :
    blankAtEnd (joined (ns ++ [.text s])) = true := by
  induction ns with
  | nil => exact h
  | cons n ns ih => exact blankAtEnd_join ih n

/-! ## Joining at blank text -/

theorem item_text_congr {s t : Text} (h : s.trim = t.trim) :
    (Node.text s).item = (Node.text t).item := by
  rw [item, item, h]

/-- A text is cut like two, when one of the two is blank. -/
theorem sameCut_text {s t : Text} (hs : s ≠ []) (ht : t ≠ [])
    (h : s.isBlank = true ∨ t.isBlank = true) (xs : List (Option LineItem)) :
    SameCut ((Node.text (s ++ t)).items ++ xs)
      ((Node.text s).items ++ ((Node.text t).items ++ xs)) := by
  cases hsb : s.isBlank with
  | true =>
    rw [items_of_isBlank (n := .text s) hsb]
    cases htb : t.isBlank with
    | true =>
      rw [items_of_isBlank (n := .text t) htb,
        items_of_isBlank (n := .text (s ++ t)) (by simp [isBlank, hsb, htb])]
      exact (SameCut.none_none xs).symm
    | false =>
      rw [items_text htb, items_text (by simp [htb]), startsBlank_append hs, endsBlank_append ht,
        startsBlank_of_isBlank hsb hs, item_text_congr (trim_blank_append hsb t)]
      cases t.startsBlank with
      | true => exact (SameCut.none_none _).symm
      | false => exact SameCut.refl _
  | false =>
    have htb : t.isBlank = true := by simpa [hsb] using h
    rw [items_of_isBlank (n := .text t) htb, items_text hsb, items_text (by simp [hsb]),
      startsBlank_append hs, endsBlank_append ht, endsBlank_of_isBlank htb ht,
      item_text_congr (trim_append_blank s htb)]
    cases s.endsBlank with
    | true =>
      simp only [List.append_assoc, List.cons_append]
      exact ((SameCut.none_none xs).symm.append [some (Node.text s).item]).append _
    | false =>
      simp only [List.append_assoc, List.cons_append]
      exact SameCut.refl _

theorem wellFormed_text_append (hq : Loose Q) {s t : Text}
    (hs : (Node.text (π := Unit) s).WellFormed Q) (ht : (Node.text (π := Unit) t).WellFormed Q)
    (h : s.isBlank = true ∨ t.isBlank = true) :
    (Node.text (π := Unit) (s ++ t)).WellFormed Q := by
  have hstart := pattern_startsTag.loose
  cases hs with
  | text hne hstag hsq =>
    cases ht with
    | text _ httag htq =>
      rcases h with hb | hb
      · exact .text (by simp [hne]) ((hstart.blank_append hb).2 httag) ((hq.blank_append hb).2 htq)
      · exact .text (by simp [hne]) ((hstart.append_blank hb).2 hstag) ((hq.append_blank hb).2 hsq)

/-- When a joined forest begins with a text that shows, so do the texts it was made of. -/
theorem head_joined {ns : List (Node Unit)} {t : Text} {rest : List (Node Unit)}
    (h : joined ns = .text t :: rest) (ht : t.isBlank = false) :
    ((ns.filter (!·.isBlank)).map (·.isElement)).head? = some false := by
  induction ns generalizing t rest with
  | nil => cases h
  | cons n ns ih =>
    rw [joined_cons] at h
    rw [List.filter_cons]
    rcases join_cases n (joined ns) with ⟨s, u, rest', rfl, hns, heq⟩ | ⟨heq, -⟩
    · rw [heq] at h
      cases h
      cases hs : s.isBlank with
      | true =>
        rw [isBlank, hs]
        exact ih hns (by simpa [hs] using ht)
      | false =>
        rw [isBlank, hs]
        rfl
    · rw [heq] at h
      cases h
      rw [isBlank, ht]
      rfl

theorem isChain_kinds_tail {n : Node Unit} {ns : List (Node Unit)}
    (h : (((n :: ns).filter (!·.isBlank)).map (·.isElement)).IsChain
      fun a b => a = true ∨ b = true) :
    ((ns.filter (!·.isBlank)).map (·.isElement)).IsChain fun a b => a = true ∨ b = true := by
  rw [List.filter_cons] at h
  split at h
  · exact (List.isChain_cons.1 h).2
  · exact h

/-- Of a text and the joined text behind it one is blank. -/
theorem isBlank_of_joined {s t : Text} {ns rest : List (Node Unit)}
    (h : (((Node.text s :: ns).filter (!·.isBlank)).map (·.isElement)).IsChain
      fun a b => a = true ∨ b = true)
    (hns : joined ns = .text t :: rest) : s.isBlank = true ∨ t.isBlank = true := by
  by_contra hno
  rw [not_or, Bool.not_eq_true, Bool.not_eq_true] at hno
  have hfirst := head_joined hns hno.2
  rw [List.filter_cons, isBlank, hno.1, Bool.not_false, if_pos rfl, List.map_cons,
    List.isChain_cons] at h
  exact absurd (h.1 false hfirst) (by simp [isElement])

/-- Texts can be joined where no two texts that show would come together. -/
theorem joined_spec (hq : Loose Q) {ns : List (Node Unit)} (h : ∀ n ∈ ns, n.WellFormed Q)
    (hchain : ((ns.filter (!·.isBlank)).map (·.isElement)).IsChain
      fun a b => a = true ∨ b = true) :
    WellFormedAll Q (joined ns) ∧ SameCut (itemsAll (joined ns)) (itemsAll ns) := by
  induction ns with
  | nil => exact ⟨wellFormedAll_nil, SameCut.refl _⟩
  | cons n ns ih =>
    rw [List.forall_mem_cons] at h
    obtain ⟨hwf, hcut⟩ := ih h.2 (isChain_kinds_tail hchain)
    rw [joined_cons]
    rcases join_cases n (joined ns) with ⟨s, t, rest, rfl, hns, heq⟩ | ⟨heq, hapart⟩
    · rw [heq]
      rw [hns] at hwf hcut
      obtain ⟨ht, hhead, hrest⟩ := wellFormedAll_cons.1 hwf
      have hblank := isBlank_of_joined hchain hns
      refine ⟨wellFormedAll_cons.2 ⟨wellFormed_text_append hq h.1 ht hblank, hhead, hrest⟩, ?_⟩
      exact (sameCut_text h.1.ne_nil ht.ne_nil hblank _).trans (hcut.append _)
    · rw [heq]
      exact ⟨wellFormedAll_cons.2 ⟨h.1, hapart, hwf⟩, hcut.append _⟩

end Node

end TemplLayout
