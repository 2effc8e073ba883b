import TemplLayout.Proofs.Text.Trim

/-!
# TemplLayout.Proofs.Text.Collapse

Texts up to the size of their blank runs.

* `Text.collapse t`  — every run of blank characters in `t` made into one space.
* `Text.collapsed t` — the same with the ends trimmed.
* `Text.Alike s t`   — `s` and `t` differ in the size and the kind of their blank runs only.

Alike texts can be put for each other in a longer text (`Alike.append`), and a collapsed text has the
characters of the text that are not blank (`shown_collapsed`).
-/

namespace TemplLayout

namespace Text

variable {s s' t t' : Text}

/-- A space in front, unless there is one. -/
def spaced (t : Text) : Text :=
  if t.head? = some ' ' then t else ' ' :: t

def collapse : Text → Text
  | [] => []
  | c :: t => if isBlankChar c then spaced (collapse t) else c :: collapse t

def collapsed (t : Text) : Text :=
  (collapse t).trim

def Alike (s t : Text) : Prop :=
  collapse s = collapse t

theorem spaced_eq_cons (t : Text) : ∃ u, spaced t = ' ' :: u := by
  rw [spaced]
  split
  · cases t with
    | nil => simp at *
    | cons c t =>
      rename_i h
      cases h
      exact ⟨t, rfl⟩
  · exact ⟨t, rfl⟩

theorem spaced_cons_space (t : Text) : spaced (' ' :: t) = ' ' :: t := rfl

theorem spaced_spaced (t : Text) : spaced (spaced t) = spaced t := by
  obtain ⟨u, h⟩ := spaced_eq_cons t
  rw [h, spaced_cons_space]

theorem collapse_cons_blank {c : Char} (h : isBlankChar c = true) (t : Text) :
    collapse (c :: t) = spaced (collapse t) := by
  rw [collapse, if_pos h]

theorem collapse_cons_shown {c : Char} (h : isBlankChar c = false) (t : Text) :
    collapse (c :: t) = c :: collapse t := by
  rw [collapse, if_neg (by simp [h])]

theorem collapse_space (t : Text) : collapse (' ' :: t) = spaced (collapse t) :=
  collapse_cons_blank (by decide) t

/-- What stands behind is collapsed on its own, up to one space at the seam. -/
theorem collapse_append_congr (s : Text) (h : collapse t = collapse t') :
    collapse (s ++ t) = collapse (s ++ t') := by
  induction s with
  | nil => exact h
  | cons c s ih =>
    rw [List.cons_append, List.cons_append, collapse, collapse, ih]

theorem collapse_append (s t : Text) : collapse (s ++ t) = collapse (collapse s ++ t) := by
  induction s with
  | nil => rfl
  | cons c s ih =>
    cases hc : isBlankChar c with
    | false =>
      rw [List.cons_append, collapse_cons_shown hc, collapse_cons_shown hc, List.cons_append,
        collapse_cons_shown hc, ih]
    | true =>
      rw [List.cons_append, collapse_cons_blank hc, collapse_cons_blank hc, ih]
      by_cases h : (collapse s).head? = some ' '
      · obtain ⟨u, hu⟩ := List.head?_eq_some_iff.1 h
        rw [hu, spaced_cons_space, List.cons_append, collapse_space, spaced_spaced]
      · have hspaced : spaced (collapse s) = ' ' :: collapse s := if_neg h
        rw [hspaced, List.cons_append, collapse_space]

namespace Alike

theorem refl (t : Text) : Alike t t := rfl

theorem symm (h : Alike s t) : Alike t s := Eq.symm h

theorem trans {u : Text} (h : Alike s t) (h' : Alike t u) : Alike s u := Eq.trans h h'

theorem append (hs : Alike s s') (ht : Alike t t') : Alike (s ++ t) (s' ++ t') := by
  have h : collapse (s ++ t) = collapse (s' ++ t) := by
    rw [collapse_append, show collapse s = collapse s' from hs, ← collapse_append]
  exact h.trans (collapse_append_congr s' ht)

theorem append_left (s : Text) (ht : Alike t t') : Alike (s ++ t) (s ++ t') :=
  (refl s).append ht

theorem append_right (hs : Alike s s') (t : Text) : Alike (s ++ t) (s' ++ t) :=
  hs.append (refl t)

/-- A blank run is like a space. -/
theorem of_isBlank (h : t.isBlank = true) (hne : t ≠ []) : Alike t [' '] := by
  induction t with
  | nil => exact absurd rfl hne
  | cons c t ih =>
    rw [isBlank_cons, Bool.and_eq_true] at h
    rw [Alike, collapse_cons_blank h.1]
    cases t with
    | nil => rfl
    | cons d t =>
      rw [show collapse (d :: t) = collapse [' '] from ih h.2 (List.cons_ne_nil d t)]
      rfl

/-- A text that begins with a blank run has room for another space there. -/
theorem space_append (h : t.startsBlank = true) : Alike (' ' :: t) t := by
  cases t with
  | nil => cases h
  | cons c t =>
    rw [Alike, collapse_space, collapse_cons_blank h, spaced_spaced]

theorem append_space (h : t.endsBlank = true) : Alike (t ++ [' ']) t := by
  cases ht : t.getLast? with
  | none => rw [endsBlank, ht] at h; cases h
  | some c =>
    obtain ⟨u, rfl⟩ := List.getLast?_eq_some_iff.1 ht
    have hc : isBlankChar c = true := by simpa [endsBlank] using h
    have hrun : Alike ([c] ++ [' ']) [c] :=
      (of_isBlank (by simp [hc]; decide) (by simp)).trans
        (of_isBlank (by simp [hc]) (by simp)).symm
    rw [List.append_assoc]
    exact append_left u hrun

theorem collapsed_eq (h : Alike s t) : collapsed s = collapsed t :=
  congrArg trim h

end Alike

/-- A text that shows is like what is left when it is trimmed, with a space for each blank end. -/
theorem alike_trim (h : t.isBlank = false) :
    Alike t ((if t.startsBlank then [' '] else []) ++ t.trim ++
      (if t.endsBlank then [' '] else [])) := by
  have hrun : ∀ {u : Text} {b : Bool}, u.isBlank = true → (u = [] ↔ b = false) →
      Alike u (if b = true then [' '] else []) := by
    intro u b hu hub
    cases b with
    | true => exact Alike.of_isBlank hu (by simpa using hub)
    | false =>
      rw [hub.2 rfl]
      exact Alike.refl _
  have hne : t.trimStart ≠ [] := by
    intro hnil
    have htrim : t.trim = [] := by rw [trim, hnil]; rfl
    exact trim_ne_nil h htrim
  have hends : t.trimStart.endsBlank = t.endsBlank := by
    have hsplit := leadingBlanks_append t
    rw [← endsBlank_append (s := t.leadingBlanks) hne, hsplit]
  have hlead := hrun (isBlank_leadingBlanks t) leadingBlanks_eq_nil_iff
  have htrail := hrun (isBlank_trailingBlanks t.trimStart) trailingBlanks_eq_nil_iff
  have hall := (hlead.append (Alike.refl t.trim)).append htrail
  rwa [leadingBlanks_append_trim_append, hends] at hall

/-! ## The ends -/

theorem trim_spaced (t : Text) : (spaced t).trim = t.trim := by
  rw [spaced]
  split
  · rfl
  · exact trim_blank_append (s := [' ']) rfl t

theorem collapsed_space_append (t : Text) : collapsed (' ' :: t) = collapsed t := by
  rw [collapsed, collapse_space, trim_spaced, collapsed]

theorem collapse_ne_nil (hne : t ≠ []) : collapse t ≠ [] := by
  cases t with
  | nil => exact absurd rfl hne
  | cons c t =>
    cases hc : isBlankChar c with
    | false => rw [collapse_cons_shown hc]; exact List.cons_ne_nil _ _
    | true =>
      obtain ⟨u, h⟩ := spaced_eq_cons (collapse t)
      rw [collapse_cons_blank hc, h]
      exact List.cons_ne_nil _ _

theorem spaced_append (hne : s ≠ []) (t : Text) : spaced (s ++ t) = spaced s ++ t := by
  cases s with
  | nil => exact absurd rfl hne
  | cons c s =>
    rw [spaced, spaced, List.cons_append, List.head?_cons, List.head?_cons]
    split <;> rfl

theorem collapse_append_space (t : Text) :
    ∃ u, Text.isBlank u = true ∧ collapse (t ++ [' ']) = collapse t ++ u := by
  induction t with
  | nil => exact ⟨[' '], rfl, rfl⟩
  | cons c t ih =>
    obtain ⟨u, hu, h⟩ := ih
    cases hc : isBlankChar c with
    | false =>
      refine ⟨u, hu, ?_⟩
      rw [List.cons_append, collapse_cons_shown hc, collapse_cons_shown hc, h, List.cons_append]
    | true =>
      rw [List.cons_append, collapse_cons_blank hc, collapse_cons_blank hc]
      by_cases hne : t = []
      · rw [hne]
        exact ⟨[], rfl, rfl⟩
      · refine ⟨u, hu, ?_⟩
        rw [h, spaced_append (collapse_ne_nil hne)]

theorem collapsed_append_space (t : Text) : collapsed (t ++ [' ']) = collapsed t := by
  obtain ⟨u, hu, h⟩ := collapse_append_space t
  rw [collapsed, h, trim_append_blank _ hu, collapsed]

/-! ## Characters that show -/

/-- The characters that are not blank. -/
def shown (t : Text) : Text :=
  t.filter (!isBlankChar ·)

theorem shown_append (s t : Text) : shown (s ++ t) = shown s ++ shown t :=
  List.filter_append ..

theorem shown_of_isBlank (h : t.isBlank = true) : shown t = [] := by
  rw [shown, List.filter_eq_nil_iff]
  intro c hc
  simp [isBlank_iff.1 h c hc]

theorem shown_trim (t : Text) : shown t.trim = shown t := by
  have h := congrArg shown (leadingBlanks_append_trim_append t)
  rw [shown_append, shown_append, shown_of_isBlank (isBlank_leadingBlanks t),
    shown_of_isBlank (isBlank_trailingBlanks _), List.nil_append, List.append_nil] at h
  exact h

theorem shown_collapse (t : Text) : shown (collapse t) = shown t := by
  have hspaced : ∀ u, shown (spaced u) = shown u := by
    intro u
    rw [spaced]
    split <;> rfl
  induction t with
  | nil => rfl
  | cons c t ih =>
    cases hc : isBlankChar c with
    | false => rw [collapse_cons_shown hc, shown, shown, List.filter_cons, List.filter_cons, hc,
        ← shown, ih, shown]
    | true => rw [collapse_cons_blank hc, hspaced, ih, shown, shown, List.filter_cons, hc]; rfl

/-- Collapsing neither takes a character that shows nor adds one. -/
theorem shown_collapsed (t : Text) : shown (collapsed t) = shown t := by
  rw [collapsed, shown_trim, shown_collapse]

end Text

end TemplLayout
