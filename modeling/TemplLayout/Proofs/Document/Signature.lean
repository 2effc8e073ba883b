import TemplLayout.Proofs.Document.Directive
import TemplLayout.Proofs.Text.LineIndex

/-!
# TemplLayout.Proofs.Document.Signature

The headers of blocks: what is read as a name and parameters.

* `Text.offsetOf? t c`, `Text.lastOffsetOf? t c` — the byte offsets at which `c` begins in `t` for the
  first and for the last time.
* `Signature.ofOffsets? t` — the signature cut out by the offsets of its parentheses, each of which is
  looked for in the whole text. None on the outside is a slice that the text does not have.

The slices are always there, and they give what `Signature.ofText?` reads (`ofOffsets?_eq`).
-/

namespace TemplLayout

open Text

/-! ## Looking for a character -/

namespace Text

def offsetOf? (t : Text) (c : Char) : Option Nat :=
  ((charsFrom 0 t).find? (·.2 = c)).map (·.1)

def lastOffsetOf? (t : Text) (c : Char) : Option Nat :=
  ((charsFrom 0 t).reverse.find? (·.2 = c)).map (·.1)

variable {t u v : Text} {c : Char}

theorem ne_of_mem_charsFrom {n : Nat} (h : c ∉ t) :
    ∀ x ∈ charsFrom n t, ¬ decide (x.2 = c) = true := by
  intro x hx
  obtain ⟨u, v, rfl, -⟩ := exists_of_mem_charsFrom hx
  rw [decide_eq_true_eq]
  rintro rfl
  exact h (List.mem_append_right u (List.mem_cons_self ..))

theorem offsetOf?_of_not_mem (h : c ∉ t) : t.offsetOf? c = none := by
  rw [offsetOf?, List.find?_eq_none.2 (ne_of_mem_charsFrom h), Option.map_none]

theorem lastOffsetOf?_of_not_mem (h : c ∉ t) : t.lastOffsetOf? c = none := by
  have hnone : (charsFrom 0 t).reverse.find? (·.2 = c) = none :=
    List.find?_eq_none.2 fun x hx => ne_of_mem_charsFrom h x (List.mem_reverse.1 hx)
  rw [lastOffsetOf?, hnone, Option.map_none]

theorem offsetOf?_append (h : c ∉ u) (v : Text) :
    (u ++ c :: v).offsetOf? c = some u.utf8.length := by
  rw [offsetOf?, charsFrom_append, List.find?_append, List.find?_eq_none.2 (ne_of_mem_charsFrom h),
    charsFrom, List.find?_cons_of_pos (by simp)]
  simp

theorem lastOffsetOf?_append (u : Text) (h : c ∉ v) :
    (u ++ c :: v).lastOffsetOf? c = some u.utf8.length := by
  have hnone : (charsFrom (0 + u.utf8.length + c.utf8Size) v).reverse.find? (·.2 = c) = none :=
    List.find?_eq_none.2 fun x hx => ne_of_mem_charsFrom h x (List.mem_reverse.1 hx)
  rw [lastOffsetOf?, charsFrom_append, charsFrom, List.reverse_append, List.reverse_cons,
    List.append_assoc, List.find?_append, hnone, List.singleton_append,
    List.find?_cons_of_pos (by simp)]
  simp

theorem slice?_front (u v : Text) : (u ++ v).slice? 0 u.utf8.length = some u :=
  slice?_eq_some_iff.2 ⟨[], v, rfl, rfl, rfl⟩

theorem isWord_iff : t.isWord = true ↔ t ≠ [] ∧ ∀ c ∈ t, isBlankChar c = false := by
  simp [isWord, hasBlank]

end Text

/-! ## Cutting by offsets -/

namespace Signature

/-- Either parenthesis may stand before the other, so their order is asked before the slices are
made that depend on it. -/
def ofOffsets? (t : Text) : Option (Option Signature) :=
  match t.offsetOf? '(', t.lastOffsetOf? ')' with
  | some opening, some closing =>
    (t.slice? 0 opening).bind fun front =>
      if closing < opening then some none
      else (t.slice? (closing + 1) t.utf8.length).bind fun behind =>
        if behind.trim ≠ [] ∨ front.trim = [] ∨ front.trim.hasBlank = true then some none
        else (t.slice? (opening + 1) closing).map fun params => some ⟨front.trim, params.trim⟩
  | _, _ => some none

theorem ofOffsets?_unclosed {a v : Text} (ha : '(' ∉ a) (hv : ')' ∉ v) :
    ofOffsets? (a ++ '(' :: v) = some none := by
  have hrest : ')' ∉ '(' :: v := List.not_mem_cons_of_ne_of_not_mem (by decide) hv
  rw [ofOffsets?, offsetOf?_append ha]
  by_cases hclose : ')' ∈ a
  · obtain ⟨x, y, rfl, hy⟩ := exists_last_of_mem hclose
    have hlast : (x ++ ')' :: y ++ '(' :: v).lastOffsetOf? ')' = some x.utf8.length := by
      rw [List.append_assoc, List.cons_append, lastOffsetOf?_append]
      simp only [List.mem_append, hy, hrest, or_self, not_false_eq_true]
    have hbefore : x.utf8.length < (x ++ ')' :: y).utf8.length := by
      rw [length_utf8_append, length_utf8_cons]
      have := Char.utf8Size_pos ')'
      omega
    simp only [hlast, slice?_front, Option.bind_some, if_pos hbefore]
  · have hnone : (a ++ '(' :: v).lastOffsetOf? ')' = none := by
      refine lastOffsetOf?_of_not_mem ?_
      simp only [List.mem_append, hclose, hrest, or_self, not_false_eq_true]
    rw [hnone]

theorem ofOffsets?_cut {a m w : Text} (ha : '(' ∉ a) (hw : ')' ∉ w) :
    ofOffsets? (a ++ '(' :: (m ++ ')' :: w)) =
      some (if Text.isWord a.trim && w.isBlank then some ⟨a.trim, m.trim⟩ else none) := by
  have hbehind : (a ++ '(' :: (m ++ ')' :: w)).slice? ((a ++ '(' :: m).utf8.length + 1)
      (a ++ '(' :: (m ++ ')' :: w)).utf8.length = some w :=
    slice?_eq_some_iff.2 ⟨a ++ '(' :: m ++ [')'], [], by simp, length_utf8_append _ [')'], by simp⟩
  have hparams : (a ++ '(' :: (m ++ ')' :: w)).slice? (a.utf8.length + 1)
      (a ++ '(' :: m).utf8.length = some m :=
    slice?_eq_some_iff.2 ⟨a ++ ['('], ')' :: w, by simp, length_utf8_append a ['('], by simp⟩
  have hlast : (a ++ '(' :: (m ++ ')' :: w)).lastOffsetOf? ')' =
      some (a ++ '(' :: m).utf8.length := by
    rw [← lastOffsetOf?_append (a ++ '(' :: m) hw]
    simp
  have horder : ¬ (a ++ '(' :: m).utf8.length < a.utf8.length := by
    rw [length_utf8_append]
    omega
  rw [ofOffsets?, offsetOf?_append ha, hlast]
  simp only [slice?_front, Option.bind_some, if_neg horder, hbehind, hparams, Option.map_some]
  have hok : (w.trim ≠ [] ∨ a.trim = [] ∨ Text.hasBlank a.trim = true) ↔
      ¬ (Text.isWord a.trim && w.isBlank) = true := by
    rw [Ne, trim_eq_nil_iff, isWord, Bool.and_eq_true, Bool.and_eq_true, Bool.not_eq_true',
      Bool.not_eq_true', List.isEmpty_eq_false_iff, ← Bool.not_eq_true]
    tauto
  rw [if_congr hok rfl rfl, ite_not, apply_ite some]

/-- Every slice is there, and the signature is the one that is read. -/
theorem ofOffsets?_eq (t : Text) : ofOffsets? t = some (ofText? t) := by
  obtain hopen | ⟨a, v, rfl, ha, hclose | ⟨m, w, rfl, hw⟩⟩ := parens_cases t
  · rw [ofText?_of_not_mem hopen, ofOffsets?, offsetOf?_of_not_mem hopen]
  · rw [ofText?_unclosed ha hclose, ofOffsets?_unclosed ha hclose]
  · rw [ofText?_cut ha hw, ofOffsets?_cut ha hw]

/-- What is read is `a(m)w`, where `a` lacks the opening parenthesis and `w` is blank: the name is
`a` trimmed, one word, and the parameters are `m` trimmed. They are read again from their spelling. -/
theorem header_ofText (t : Text) :
    ofOffsets? t = some (ofText? t) ∧
    (∀ name params : Text, ofText? t = some ⟨name, params⟩ ↔
      ∃ a m w : Text, t = a ++ '(' :: (m ++ ')' :: w) ∧ '(' ∉ a ∧ w.isBlank = true ∧
        name = a.trim ∧ name ≠ [] ∧ (∀ c ∈ name, isBlankChar c = false) ∧ params = m.trim) ∧
    ∀ s, ofText? t = some s → ofText? s.spell = some s := by
  refine ⟨ofOffsets?_eq t, fun name params => ⟨fun h => ?_, ?_⟩, fun s h => ?_⟩
  · obtain ⟨a, m, w, ht, ha, hname, hw, hs⟩ := exists_of_ofText? h
    obtain ⟨rfl, rfl⟩ := Signature.mk.inj hs
    obtain ⟨hne, hno⟩ := isWord_iff.1 hname
    exact ⟨a, m, w, ht, ha, hw, rfl, hne, hno, rfl⟩
  · rintro ⟨a, m, w, rfl, ha, hw, rfl, hne, hno, rfl⟩
    exact ofText?_append ha (isWord_iff.2 ⟨hne, hno⟩) hw
  · exact (legible_of_ofText? h).ofText?_spell

/-- A closing parenthesis in the name, parentheses and a newline in the parameters, characters of two
and three bytes; then the last closing parenthesis in front of the first opening one. -/
example : ofOffsets? "\u00a0é)x (\n f(int)\n y)\u2003".toList =
    some (some ⟨"é)x".toList, "f(int)\n y".toList⟩) ∧ ofOffsets? "é) (".toList = some none := by
  decide +kernel

end Signature

end TemplLayout
