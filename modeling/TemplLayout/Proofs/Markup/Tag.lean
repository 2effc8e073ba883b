import Mathlib.Data.List.TakeWhile
import TemplLayout.Markup.Name
import TemplLayout.Proofs.Text.Cut
import TemplLayout.Proofs.Text.Trim

/-!
# TemplLayout.Proofs.Markup.Tag

What is read between `<` and `>` is what a tag spells there.

* `Shut quote t`        — when `quote` is open before `t`, no `>` of `t` ends a tag, and behind `t` no
  quote is open. Such texts are what `closeTag?` cuts off (`closeTag?_append`, `shut_of_closeTag?`).
* `IsName t`            — an ASCII letter, and name characters behind it, in whatever case the letters
  are (`IsName.of_sameName`).
* `Tag.Legible tag`     — what every tag satisfies that is read from a shut text (`legible_ofInner`),
  whatever its name begins with. A legible tag is read back from what it spells (`ofInner_inner`).
* `Tag.WellFormed tag`  — it has a name as well, as every tag has that begins with a letter
  (`wellFormed_ofInner`).
-/

namespace TemplLayout

open Text

/-! ## Quotes -/

def Shut (quote : Option Char) : Text → Prop
  | [] => quote = none
  | c :: t => ¬ (quote = none ∧ c = '>') ∧ Shut (quoteAfter quote c) t

def decShut : (quote : Option Char) → (t : Text) → Decidable (Shut quote t)
  | quote, [] => inferInstanceAs (Decidable (quote = none))
  | quote, c :: t =>
    have := decShut (quoteAfter quote c) t
    inferInstanceAs (Decidable (¬ (quote = none ∧ c = '>') ∧ Shut (quoteAfter quote c) t))

instance (quote : Option Char) (t : Text) : Decidable (Shut quote t) := decShut quote t

theorem closeTagOnto_append {quote : Option Char} {t : Text} (h : Shut quote t)
    (seen rest : Text) :
    closeTagOnto quote seen (t ++ '>' :: rest) = some (seen.reverse ++ t, rest) := by
  induction t generalizing quote seen with
  | nil =>
    rw [Shut] at h
    rw [List.nil_append, closeTagOnto, if_pos ⟨h, rfl⟩, List.append_nil]
  | cons c t ih =>
    rw [List.cons_append, closeTagOnto, if_neg h.1, ih h.2, List.reverse_cons, List.append_assoc]
    rfl

theorem shut_of_closeTagOnto {quote : Option Char} {seen t inner rest : Text}
    (h : closeTagOnto quote seen t = some (inner, rest)) :
    ∃ s, inner = seen.reverse ++ s ∧ Shut quote s := by
  induction t generalizing quote seen with
  | nil => cases h
  | cons c t ih =>
    rw [closeTagOnto] at h
    split at h
    · rename_i hc
      cases h
      exact ⟨[], by simp, hc.1⟩
    · rename_i hc
      obtain ⟨s, rfl, hs⟩ := ih h
      exact ⟨c :: s, by simp, hc, hs⟩

theorem closeTag?_append {t : Text} (h : Shut none t) (rest : Text) :
    closeTag? (t ++ '>' :: rest) = some (t, rest) :=
  closeTagOnto_append h [] rest

theorem shut_of_closeTag? {t inner rest : Text} (h : closeTag? t = some (inner, rest)) :
    Shut none inner := by
  obtain ⟨s, rfl, hs⟩ := shut_of_closeTagOnto h
  exact hs

/-- The character neither opens a quote nor ends a tag. -/
structure Plain (c : Char) : Prop where
  not_double : c ≠ '\x22'
  not_single : c ≠ '\x27'
  not_end : c ≠ '>'

theorem plain_of_isNameChar {c : Char} (h : isNameChar c = true) : Plain c := by
  constructor <;> (rintro rfl; cases h)

theorem plain_of_isBlankChar {c : Char} (h : isBlankChar c = true) : Plain c := by
  constructor <;> (rintro rfl; cases h)

theorem plain_slash : Plain '/' := by
  constructor <;> decide

theorem Plain.quoteAfter_none {c : Char} (h : Plain c) : quoteAfter none c = none := by
  rw [quoteAfter, if_neg]
  rintro (rfl | rfl)
  · exact h.not_double rfl
  · exact h.not_single rfl

theorem shut_plain_append {s t : Text} (hs : ∀ c ∈ s, Plain c) :
    Shut none (s ++ t) ↔ Shut none t := by
  induction s with
  | nil => rfl
  | cons c s ih =>
    have hc := hs c (List.mem_cons_self ..)
    rw [List.cons_append, Shut, hc.quoteAfter_none, ih fun d hd => hs d (List.mem_cons_of_mem _ hd)]
    exact and_iff_right fun h => hc.not_end h.2

/-- A plain character behind `t` changes nothing, when it is not the quote that is open. -/
theorem shut_append_singleton {quote : Option Char} {t : Text} {c : Char} (hc : Plain c)
    (hq : quote ≠ some c) : Shut quote (t ++ [c]) ↔ Shut quote t := by
  induction t generalizing quote with
  | nil =>
    cases quote with
    | none =>
      rw [List.nil_append, Shut, Shut, Shut, hc.quoteAfter_none]
      exact and_iff_right fun h => hc.not_end h.2
    | some q =>
      have hne : c ≠ q := fun h => hq (by rw [h])
      simp [Shut, quoteAfter, hne]
  | cons d t ih =>
    rw [List.cons_append, Shut, Shut]
    refine and_congr_right fun _ => ih ?_
    cases quote with
    | some q =>
      rw [quoteAfter]
      split
      · simp
      · exact hq
    | none =>
      rw [quoteAfter]
      split
      · rename_i hd
        intro h
        cases h
        rcases hd with rfl | rfl
        · exact hc.not_double rfl
        · exact hc.not_single rfl
      · simp

theorem shut_append_plain {s t : Text} (ht : ∀ c ∈ t, Plain c) :
    Shut none (s ++ t) ↔ Shut none s := by
  induction t generalizing s with
  | nil => rw [List.append_nil]
  | cons c t ih =>
    have hc := ht c (List.mem_cons_self ..)
    rw [show s ++ c :: t = s ++ [c] ++ t by simp, ih fun d hd => ht d (List.mem_cons_of_mem _ hd),
      shut_append_singleton hc (by simp)]

theorem shut_blank_append {s t : Text} (hs : s.isBlank = true) :
    Shut none (s ++ t) ↔ Shut none t :=
  shut_plain_append fun c hc => plain_of_isBlankChar (isBlank_iff.1 hs c hc)

theorem shut_append_blank {s t : Text} (ht : t.isBlank = true) :
    Shut none (s ++ t) ↔ Shut none s :=
  shut_append_plain fun c hc => plain_of_isBlankChar (isBlank_iff.1 ht c hc)

theorem shut_trimEnd {t : Text} : Shut none t.trimEnd ↔ Shut none t := by
  rw [← shut_append_blank (isBlank_trailingBlanks t), trimEnd_append]

theorem shut_trim {t : Text} : Shut none t.trim ↔ Shut none t := by
  rw [trim, shut_trimEnd, ← shut_blank_append (isBlank_leadingBlanks t), leadingBlanks_append]

/-! ## Tags -/

structure IsName (t : Text) : Prop where
  head : ∃ c ∈ t.head?, c.isAlpha = true
  chars : ∀ c ∈ t, isNameChar c = true

/-- Only a capital letter changes, and it becomes a letter again. -/
theorem toLower_cases (c : Char) :
    c.toLower = c ∨ c.isUpper = true ∧ c.toLower.isLower = true := by
  by_cases h : c.val ≥ 'A'.val ∧ c.val ≤ 'Z'.val
  · have hval : c.toLower.val = c.val + ('a'.val - 'A'.val) := congrArg Char.val (dif_pos h)
    refine .inr ⟨decide_eq_true h, ?_⟩
    have hA : 'A'.val.toNat = 65 := rfl
    have hZ : 'Z'.val.toNat = 90 := rfl
    have ha : 'a'.val.toNat = 97 := rfl
    have hz : 'z'.val.toNat = 122 := rfl
    have hshift : ('a'.val - 'A'.val).toNat = 32 := rfl
    show (decide (c.toLower.val ≥ 'a'.val) && decide (c.toLower.val ≤ 'z'.val)) = true
    rw [hval]
    simp only [Bool.and_eq_true, decide_eq_true_eq, ge_iff_le, UInt32.le_iff_toNat_le] at h ⊢
    rw [UInt32.toNat_add, hshift]
    omega
  · exact .inl (dif_neg h)

theorem isAlpha_eq (c : Char) : c.isAlpha = (c.isUpper || c.isLower) := rfl

theorem isAlpha_toLower (c : Char) : c.toLower.isAlpha = c.isAlpha := by
  rcases toLower_cases c with h | ⟨hupper, hlower⟩
  · rw [h]
  · simp [isAlpha_eq, hupper, hlower]

theorem isNameChar_toLower (c : Char) : isNameChar c.toLower = isNameChar c := by
  rcases toLower_cases c with h | ⟨hupper, hlower⟩
  · rw [h]
  · simp [isNameChar, Char.isAlphanum, isAlpha_eq, hupper, hlower]

/-- A name in another case is a name. -/
theorem IsName.of_sameName {a b : Text} (ha : IsName a) (h : sameName a b = true) : IsName b := by
  rw [sameName, beq_iff_eq, folded, folded] at h
  constructor
  · obtain ⟨c, hc, halpha⟩ := ha.head
    have hhead := congrArg List.head? h
    rw [List.head?_map, List.head?_map, hc, Option.map_some, eq_comm,
      Option.map_eq_some_iff] at hhead
    obtain ⟨d, hd, hdc⟩ := hhead
    exact ⟨d, hd, by rw [← isAlpha_toLower, hdc, isAlpha_toLower, halpha]⟩
  · intro d hd
    have hmem : d.toLower ∈ a.map Char.toLower := h ▸ List.mem_map_of_mem hd
    obtain ⟨c, hc, hcd⟩ := List.mem_map.1 hmem
    rw [← isNameChar_toLower, ← hcd, isNameChar_toLower, ha.chars c hc]

structure Tag.Legible (tag : Tag) : Prop where
  chars : ∀ c ∈ tag.name, isNameChar c = true
  attrs_trimmed : tag.attrs.Trimmed
  attrs_shut : Shut none tag.attrs
  /-- A slash at the end is no part of the attributes. -/
  slash : tag.attrs.getLast? = some '/' → tag.selfClosed = true

structure Tag.WellFormed (tag : Tag) : Prop where
  name : IsName tag.name
  attrs_trimmed : tag.attrs.Trimmed
  attrs_shut : Shut none tag.attrs
  /-- A slash at the end is no part of the attributes. -/
  slash : tag.attrs.getLast? = some '/' → tag.selfClosed = true

/-- What the tag spells between `<` and `>`. -/
def Tag.inner (tag : Tag) : Text :=
  tag.name ++ ((if tag.attrs.isEmpty then [] else ' ' :: tag.attrs) ++
    (if tag.selfClosed then ['/'] else []))

theorem Tag.spell_eq (tag : Tag) : tag.spell = '<' :: tag.inner ++ ['>'] := by
  rw [Tag.spell, Tag.lead, Tag.inner]
  cases tag.selfClosed <;> simp

namespace Tag.Legible

variable {tag : Tag}

theorem shut_inner (h : tag.Legible) : Shut none tag.inner := by
  rw [Tag.inner, shut_plain_append fun c hc => plain_of_isNameChar (h.chars c hc)]
  have hslash : ∀ c ∈ (if tag.selfClosed then ['/'] else []), Plain c := by
    intro c hc
    split at hc
    · rw [List.mem_singleton.1 hc]
      exact plain_slash
    · cases hc
  rw [shut_append_plain hslash]
  split
  · rfl
  · exact (shut_blank_append (s := [' ']) rfl).2 h.attrs_shut

theorem takeWhile_inner (h : tag.Legible) :
    tag.inner.takeWhile isNameChar = tag.name ∧
      tag.inner.dropWhile isNameChar =
        (if tag.attrs.isEmpty then [] else ' ' :: tag.attrs) ++
          (if tag.selfClosed then ['/'] else []) := by
  rw [Tag.inner, List.takeWhile_append_of_pos h.chars, List.dropWhile_append_of_pos h.chars]
  cases tag.attrs with
  | nil =>
    cases tag.selfClosed
    · simp
    · simp [isNameChar]
  | cons c attrs => simp [isNameChar]

/-- A legible tag is read back from what it spells. -/
theorem ofInner_inner (h : tag.Legible) : Tag.ofInner tag.inner = tag := by
  obtain ⟨hname, hrest⟩ := h.takeWhile_inner
  obtain ⟨name, attrs, selfClosed⟩ := tag
  have htrim := h.attrs_trimmed
  simp only at htrim hname hrest ⊢
  have hlead : Text.trim (if attrs.isEmpty then [] else ' ' :: attrs) = attrs := by
    cases attrs with
    | nil => rfl
    | cons c attrs => simpa using htrim.trim_append (s := [' ']) (u := []) rfl rfl
  have hends : Text.endsBlank (if attrs.isEmpty then [] else ' ' :: attrs) = false := by
    cases attrs with
    | nil => rfl
    | cons c attrs =>
      have hends := endsBlank_append (s := [' ']) (List.cons_ne_nil c attrs)
      exact hends.trans htrim.ends
  rw [Tag.ofInner, hname, hrest]
  cases selfClosed with
  | true =>
    have hend : Text.trimEnd ((if attrs.isEmpty then [] else ' ' :: attrs) ++ ['/']) =
        (if attrs.isEmpty then [] else ' ' :: attrs) ++ ['/'] :=
      trimEnd_eq (endsBlank_append (List.cons_ne_nil _ _))
    simp only [if_true, hend, List.getLast?_concat, List.dropLast_concat, hlead]
  | false =>
    have hlast : (if attrs.isEmpty then [] else ' ' :: attrs).getLast? ≠ some '/' := by
      intro hs
      cases attrs with
      | nil => cases hs
      | cons c attrs => cases h.slash (by simpa [List.getLast?_cons_cons] using hs)
    simp only [Bool.false_eq_true, if_false, List.append_nil, trimEnd_eq hends, if_neg hlast, hlead]

/-- The slash at the end comes first only if there is nothing before it. -/
theorem head?_inner (h : tag.Legible) (hne : tag.name ≠ [] ∨ tag.attrs ≠ []) :
    tag.inner.head? ≠ some '/' := by
  rw [Tag.inner]
  intro hhead
  cases hname : tag.name with
  | cons c name =>
    rw [hname] at hhead
    cases hhead
    have hslash := h.chars '/' (hname ▸ List.mem_cons_self ..)
    cases hslash
  | nil =>
    rw [hname, List.nil_append, if_neg (by simpa using hne.resolve_left (absurd hname))] at hhead
    cases hhead

end Tag.Legible

namespace Tag.WellFormed

variable {tag : Tag}

theorem legible (h : tag.WellFormed) : tag.Legible :=
  ⟨h.name.chars, h.attrs_trimmed, h.attrs_shut, h.slash⟩

theorem head_inner (h : tag.WellFormed) : ∃ c rest, tag.inner = c :: rest ∧ c.isAlpha = true := by
  obtain ⟨c, hc, ha⟩ := h.name.head
  rw [Tag.inner]
  cases hn : tag.name with
  | nil => rw [hn] at hc; cases hc
  | cons d name =>
    rw [hn] at hc
    cases hc
    exact ⟨c, _, rfl, ha⟩

end Tag.WellFormed

theorem Mark.ofInner_of_head? {t : Text} (h : t.head? ≠ some '/') :
    Mark.ofInner t = .opening (Tag.ofInner t) := by
  unfold Mark.ofInner
  split
  · exact absurd rfl h
  · rfl

theorem Mark.ofInner_alpha {c : Char} {t : Text} (h : c.isAlpha = true) :
    Mark.ofInner (c :: t) = .opening (Tag.ofInner (c :: t)) := by
  refine ofInner_of_head? ?_
  rintro ⟨⟩
  cases h

theorem Mark.ofInner_inner {tag : Tag} (h : tag.WellFormed) :
    Mark.ofInner tag.inner = .opening tag := by
  obtain ⟨c, rest, heq, ha⟩ := h.head_inner
  rw [heq, Mark.ofInner_alpha ha, ← heq, h.legible.ofInner_inner]

theorem Mark.ofInner_closing {name : Text} (h : IsName name) :
    Mark.ofInner ('/' :: name) = .closing name := by
  rw [Mark.ofInner, List.takeWhile_eq_self_iff.2 h.chars]

theorem Tag.legible_ofInner {t : Text} (ht : Shut none t) : (Tag.ofInner t).Legible := by
  have hchars : ∀ c ∈ t.takeWhile isNameChar, isNameChar c = true := fun c hc =>
    List.all_eq_true.1 List.all_takeWhile c hc
  have hbody : Shut none (Text.trimEnd (t.dropWhile isNameChar)) := by
    rw [shut_trimEnd, ← shut_plain_append fun c hc => plain_of_isNameChar (hchars c hc),
      List.takeWhile_append_dropWhile]
    exact ht
  rw [Tag.ofInner]
  split
  · rename_i hslash
    refine ⟨hchars, trimmed_trim _, ?_, fun _ => rfl⟩
    obtain ⟨front, hfront⟩ := List.getLast?_eq_some_iff.1 hslash
    rw [hfront, shut_append_singleton plain_slash (by simp)] at hbody
    rw [hfront, List.dropLast_concat, shut_trim]
    exact hbody
  · rename_i hslash
    refine ⟨hchars, trimmed_trim _, shut_trim.2 hbody, fun h => absurd ?_ hslash⟩
    have hends := endsBlank_trimEnd (t.dropWhile isNameChar)
    generalize Text.trimEnd (t.dropWhile isNameChar) = body at h hends ⊢
    obtain ⟨front, hfront⟩ : ∃ front, body.trim = front ++ ['/'] := List.getLast?_eq_some_iff.1 h
    rw [← leadingBlanks_append_trim hends, hfront, ← List.append_assoc, List.getLast?_concat]

theorem Tag.name_ofInner (t : Text) : (Tag.ofInner t).name = t.takeWhile isNameChar := by
  rw [Tag.ofInner]
  split <;> rfl

/-- Every opening tag that is read is well-formed. -/
theorem Tag.wellFormed_ofInner {c : Char} {t : Text} (hc : c.isAlpha = true)
    (ht : Shut none (c :: t)) : (Tag.ofInner (c :: t)).WellFormed := by
  have hlegible := Tag.legible_ofInner ht
  refine ⟨⟨⟨c, ?_, hc⟩, hlegible.chars⟩, hlegible.attrs_trimmed, hlegible.attrs_shut,
    hlegible.slash⟩
  rw [Tag.name_ofInner, List.takeWhile_cons_of_pos (isNameChar_of_isAlpha hc)]
  rfl

end TemplLayout
