import TemplLayout.Text.Blank

/-!
# TemplLayout.Proofs.Text.Trim

Blank ends of a text.

* `Text.Trimmed t` — `t` neither begins nor ends with a blank character. Trimming gives such a text
  (`trimmed_trim`), leaves one alone (`Trimmed.trim_eq`), and finds it again between blank ends
  (`Trimmed.trim_append`).
* `Text.Loose Q`   — blank ends do not matter to `Q`.
-/

namespace TemplLayout

namespace Text

structure Trimmed (t : Text) : Prop where
  start : t.startsBlank = false
  ends : t.endsBlank = false

variable {s t u : Text}

@[simp] theorem isBlank_nil : isBlank [] = true := rfl

@[simp] theorem isBlank_cons (c : Char) (t : Text) :
    isBlank (c :: t) = (isBlankChar c && t.isBlank) := rfl

@[simp] theorem isBlank_append (s t : Text) : (s ++ t).isBlank = (s.isBlank && t.isBlank) :=
  List.all_append

@[simp] theorem startsBlank_cons (c : Char) (t : Text) : startsBlank (c :: t) = isBlankChar c := rfl

theorem startsBlank_append (hs : s ≠ []) : (s ++ t).startsBlank = s.startsBlank := by
  cases s with
  | nil => exact absurd rfl hs
  | cons c s => rfl

theorem endsBlank_append (ht : t ≠ []) : (s ++ t).endsBlank = t.endsBlank := by
  rw [endsBlank, endsBlank, List.getLast?_append, List.getLast?_eq_some_getLast ht]
  rfl

theorem startsBlank_reverse (t : Text) : Text.startsBlank t.reverse = t.endsBlank := by
  rw [endsBlank, ← List.head?_reverse]
  cases t.reverse <;> rfl

theorem startsBlank_of_isBlank (h : t.isBlank = true) (hne : t ≠ []) : t.startsBlank = true := by
  cases t with
  | nil => exact absurd rfl hne
  | cons c t => exact isBlank_iff.1 h c (List.mem_cons_self ..)

theorem endsBlank_of_isBlank (h : t.isBlank = true) (hne : t ≠ []) : t.endsBlank = true := by
  rw [endsBlank, List.getLast?_eq_some_getLast hne]
  exact isBlank_iff.1 h _ (List.getLast_mem hne)

theorem startsBlank_dropWhile (t : Text) : Text.startsBlank (t.dropWhile isBlankChar) = false := by
  induction t with
  | nil => rfl
  | cons c t ih =>
    rw [List.dropWhile_cons]
    split
    · exact ih
    · simpa using ‹¬ isBlankChar c = true›

theorem dropWhile_of_startsBlank (h : t.startsBlank = false) : t.dropWhile isBlankChar = t := by
  cases t with
  | nil => rfl
  | cons c t => exact List.dropWhile_cons_of_neg (by simpa using h)

theorem trimStart_append (hs : s.isBlank = true) (t : Text) :
    (s ++ t).trimStart = t.trimStart := by
  rw [trimStart, trimStart, List.dropWhile_append_of_pos (isBlank_iff.1 hs)]

theorem trimEnd_append_blank (s : Text) (ht : t.isBlank = true) :
    (s ++ t).trimEnd = s.trimEnd := by
  rw [trimEnd, trimEnd, List.reverse_append, List.dropWhile_append_of_pos]
  exact fun c hc => isBlank_iff.1 ht c (List.mem_reverse.1 hc)

theorem trimStart_eq (h : t.startsBlank = false) : t.trimStart = t :=
  dropWhile_of_startsBlank h

theorem trimEnd_eq (h : t.endsBlank = false) : t.trimEnd = t := by
  rw [trimEnd, dropWhile_of_startsBlank (by rw [startsBlank_reverse, h]), List.reverse_reverse]

theorem Trimmed.trim_eq (h : t.Trimmed) : t.trim = t := by
  rw [trim, trimStart_eq h.start, trimEnd_eq h.ends]

theorem Trimmed.trim_append (ht : t.Trimmed) (hs : s.isBlank = true) (hu : u.isBlank = true) :
    (s ++ t ++ u).trim = t := by
  by_cases hne : t = []
  · rw [hne]
    exact trim_eq_nil_iff.2 (by simp [hs, hu])
  · have hstart : (t ++ u).startsBlank = false := by rw [startsBlank_append hne, ht.start]
    rw [trim, List.append_assoc, trimStart_append hs, trimStart_eq hstart,
      trimEnd_append_blank _ hu, trimEnd_eq ht.ends]

/-- A trimmed text that is not empty is not blank. -/
theorem Trimmed.not_isBlank (ht : t.Trimmed) (hne : t ≠ []) : t.isBlank = false := by
  rw [Bool.eq_false_iff]
  intro h
  have := ht.start
  rw [startsBlank_of_isBlank h hne] at this
  cases this

theorem endsBlank_trimEnd (t : Text) : t.trimEnd.endsBlank = false := by
  rw [← startsBlank_reverse, trimEnd, List.reverse_reverse, startsBlank_dropWhile]

theorem trimmed_trim (t : Text) : t.trim.Trimmed where
  ends := endsBlank_trimEnd _
  start := by
    have h : t.trim ++ t.trimStart.trailingBlanks = t.trimStart := trimEnd_append _
    by_cases hne : t.trim = []
    · rw [hne]
      rfl
    · have hs := startsBlank_dropWhile t
      rw [← trimStart, ← h, startsBlank_append hne] at hs
      exact hs

theorem trim_blank_append (hs : s.isBlank = true) (t : Text) : (s ++ t).trim = t.trim := by
  rw [trim, trimStart_append hs, trim]

theorem trim_append_blank (s : Text) (ht : t.isBlank = true) : (s ++ t).trim = s.trim := by
  have h := (trimmed_trim s).trim_append (isBlank_leadingBlanks s)
    (u := s.trimStart.trailingBlanks ++ t) (by simp [isBlank_trailingBlanks, ht])
  rwa [← List.append_assoc, leadingBlanks_append_trim_append] at h

theorem leadingBlanks_eq_nil_iff : t.leadingBlanks = [] ↔ t.startsBlank = false := by
  cases t with
  | nil => simp [leadingBlanks, startsBlank]
  | cons c t =>
    rw [leadingBlanks, startsBlank_cons, List.takeWhile_cons]
    cases isBlankChar c <;> simp

theorem trailingBlanks_eq_nil_iff : t.trailingBlanks = [] ↔ t.endsBlank = false := by
  rw [← startsBlank_reverse, ← leadingBlanks_eq_nil_iff, trailingBlanks, List.reverse_eq_nil_iff]
  rfl

theorem leadingBlanks_of_isBlank (ht : t.isBlank = true) : t.leadingBlanks = t := by
  have h := leadingBlanks_append t
  rwa [trimStart_of_isBlank ht, List.append_nil] at h

theorem trailingBlanks_of_isBlank (ht : t.isBlank = true) : t.trailingBlanks = t := by
  have hnone : t.trimEnd = [] := trimEnd_append_blank [] ht
  have h := trimEnd_append t
  rwa [hnone, List.nil_append] at h

theorem trimEnd_append_of_endsBlank (hs : s.endsBlank = false) (t : Text) :
    (s ++ t).trimEnd = s ++ t.trimEnd := by
  have ht : t.trimEnd ++ t.trailingBlanks = t := trimEnd_append t
  have hfront : (s ++ t.trimEnd).endsBlank = false := by
    by_cases hne : t.trimEnd = []
    · rwa [hne, List.append_nil]
    · rw [endsBlank_append hne]
      exact endsBlank_trimEnd t
  calc (s ++ t).trimEnd
      = (s ++ t.trimEnd ++ t.trailingBlanks).trimEnd := by rw [List.append_assoc, ht]
    _ = (s ++ t.trimEnd).trimEnd := trimEnd_append_blank _ (isBlank_trailingBlanks t)
    _ = s ++ t.trimEnd := trimEnd_eq hfront

theorem trimStart_append_of_startsBlank (s : Text) (ht : t.startsBlank = false) :
    (s ++ t).trimStart = s.trimStart ++ t := by
  rw [trimStart, List.dropWhile_append, dropWhile_of_startsBlank ht, trimStart]
  split
  · rename_i hnil
    rw [List.isEmpty_iff.1 hnil, List.nil_append]
  · rfl

theorem trim_trimStart (t : Text) : t.trimStart.trim = t.trim := by
  have h := trim_blank_append (isBlank_leadingBlanks t) t.trimStart
  rw [leadingBlanks_append] at h
  exact h.symm

theorem trim_trimEnd (t : Text) : t.trimEnd.trim = t.trim := by
  have h := trim_append_blank t.trimEnd (isBlank_trailingBlanks t)
  rw [trimEnd_append] at h
  exact h.symm

theorem startsBlank_trimEnd (h : t.trimEnd ≠ []) : t.trimEnd.startsBlank = t.startsBlank := by
  have hs := startsBlank_append (t := t.trailingBlanks) h
  rw [trimEnd_append] at hs
  exact hs.symm

/-- Of a text that does not end with a blank character, trimming takes the front. -/
theorem leadingBlanks_append_trim (h : t.endsBlank = false) : t.leadingBlanks ++ t.trim = t := by
  have ht := leadingBlanks_append_trim_append t
  by_cases hne : t.trimStart.trailingBlanks = []
  · rwa [hne, List.append_nil] at ht
  · rw [← ht, endsBlank_append hne, endsBlank_of_isBlank (isBlank_trailingBlanks _) hne] at h
    cases h

theorem trim_isInfix (t : Text) : t.trim <:+: t :=
  ⟨_, _, leadingBlanks_append_trim_append t⟩

theorem trim_ne_nil (h : t.isBlank = false) : t.trim ≠ [] := by
  intro hnil
  rw [trim_eq_nil_iff.1 hnil] at h
  cases h

@[simp] theorem isBlank_trim (t : Text) : t.trim.isBlank = t.isBlank := by
  rw [Bool.eq_iff_iff, ← trim_eq_nil_iff, ← trim_eq_nil_iff, (trimmed_trim t).trim_eq]

structure Loose (Q : Text → Prop) : Prop where
  nil : Q []
  trim_iff : ∀ t, Q t.trim ↔ Q t

namespace Loose

variable {Q : Text → Prop}

theorem of_isBlank (h : Loose Q) (ht : t.isBlank = true) : Q t := by
  rw [← h.trim_iff, trim_eq_nil_iff.2 ht]
  exact h.nil

theorem blank_append (h : Loose Q) (hs : s.isBlank = true) : Q (s ++ t) ↔ Q t := by
  rw [← h.trim_iff, trim_blank_append hs, h.trim_iff]

theorem append_blank (h : Loose Q) (ht : t.isBlank = true) : Q (s ++ t) ↔ Q s := by
  rw [← h.trim_iff, trim_append_blank s ht, h.trim_iff]

end Loose

/-- A word has no blank ends. -/
theorem trimmed_of_isWord (h : t.isWord = true) : t.Trimmed := by
  have hno : ∀ c ∈ t, isBlankChar c = false := by
    intro c hc
    have := (Bool.and_eq_true_iff.1 h).2
    simp only [hasBlank, Bool.not_eq_true', List.any_eq_false] at this
    simpa using this c hc
  constructor
  · cases t with
    | nil => rfl
    | cons c t => exact hno c (List.mem_cons_self ..)
  · rw [endsBlank]
    cases ht : t.getLast? with
    | none => rfl
    | some c => exact hno c (List.mem_of_getLast? ht)

theorem ne_nil_of_isWord (h : t.isWord = true) : t ≠ [] := by
  rintro rfl
  cases h

end Text

end TemplLayout
