import Mathlib.Data.Prod.Lex
import Mathlib.Order.Monotone.Basic
import TemplLayout.Proofs.Text.Counting

/-!
# TemplLayout.Proofs.Text.LineIndex

Looking a position up, against counting.

* `Narrows xs n lo hi`  — the invariant of the search: `n` belongs between `lo` and `hi`.
* `Position.lineColumn` — line and column, in the order in which they are looked for.

The search finds the newlines before an offset as the front of all newlines
(`LineIndex.newlinesBefore_eq_take`), and a slice ends at a boundary or there is none
(`Text.slice?_eq_some_iff`). So what is looked up is what is counted (`LineIndex.counted_position`), and
between two characters it is the position that walking arrives at (`Position.ofOffset_eq_after`).
-/

namespace TemplLayout

/-! ## The search -/

/-- What stands before `lo` is smaller than `n`, and nothing from `hi` on is. -/
structure Narrows (xs : Array Nat) (n lo hi : Nat) : Prop where
  le : lo ≤ hi
  size : hi ≤ xs.size
  below : ∀ i (h : i < xs.size), i < lo → xs[i] < n
  above : ∀ i (h : i < xs.size), hi ≤ i → n ≤ xs[i]

section Search

variable {xs : Array Nat} {n lo hi mid : Nat}

theorem narrows_start (xs : Array Nat) (n : Nat) : Narrows xs n 0 xs.size where
  le := Nat.zero_le _
  size := Nat.le_refl _
  below _ _ hi := absurd hi (Nat.not_lt_zero _)
  above _ h hi := absurd h (Nat.not_lt.2 hi)

theorem getElem_lt_getElem (hxs : xs.toList.Pairwise (· < ·)) {i j : Nat} (hij : i < j)
    (hj : j < xs.size) : xs[i] < xs[j] := by
  have h := List.pairwise_iff_getElem.1 hxs i j (by simpa using hij.trans hj) (by simpa using hj) hij
  simpa using h

theorem Narrows.found (hxs : xs.toList.Pairwise (· < ·)) (hmid : mid < xs.size)
    (heq : xs[mid] = n) : Narrows xs n mid mid where
  le := Nat.le_refl _
  size := Nat.le_of_lt hmid
  below i _ hi := heq ▸ getElem_lt_getElem hxs hi hmid
  above i h hi := by
    rcases Nat.lt_or_eq_of_le hi with hlt | rfl
    · exact heq ▸ Nat.le_of_lt (getElem_lt_getElem hxs hlt h)
    · exact Nat.le_of_eq heq.symm

theorem Narrows.right (hxs : xs.toList.Pairwise (· < ·)) (h : Narrows xs n lo hi) (hhi : mid < hi)
    (hmid : mid < xs.size) (hlt : xs[mid] < n) : Narrows xs n (mid + 1) hi where
  le := hhi
  size := h.size
  below i _ hi := by
    rcases Nat.lt_or_eq_of_le (Nat.le_of_lt_succ hi) with hi | rfl
    · exact (getElem_lt_getElem hxs hi hmid).trans hlt
    · exact hlt
  above := h.above

theorem Narrows.left (hxs : xs.toList.Pairwise (· < ·)) (h : Narrows xs n lo hi) (hlo : lo ≤ mid)
    (hmid : mid < xs.size) (hle : n ≤ xs[mid]) : Narrows xs n lo mid where
  le := hlo
  size := Nat.le_of_lt hmid
  below := h.below
  above i hi hmi := by
    rcases Nat.lt_or_eq_of_le hmi with hlt | rfl
    · exact hle.trans (Nat.le_of_lt (getElem_lt_getElem hxs hlt hi))
    · exact hle

/-- Whether the number is found or not, it belongs where the search ends. -/
theorem narrows_binarySearchFrom (hxs : xs.toList.Pairwise (· < ·)) (hle : hi ≤ xs.size)
    (h : Narrows xs n lo hi) :
    ∃ i, (binarySearchFrom xs n lo hi hle = .ok i ∨ binarySearchFrom xs n lo hi hle = .error i) ∧
      Narrows xs n i i := by
  fun_induction binarySearchFrom xs n lo hi hle with
  | case1 lo hi hle hlt mid hmid heq => exact ⟨mid, .inl rfl, .found hxs hmid heq⟩
  | case2 lo hi hle hlt mid hmid hne hless ih =>
    have hhi : mid < hi := by omega
    exact ih (h.right hxs hhi hmid hless)
  | case3 lo hi hle hlt mid hmid hne hless ih =>
    have hlo : lo ≤ mid := by omega
    exact ih (h.left hxs hlo hmid (Nat.le_of_not_lt hless))
  | case4 lo hi hle hlt =>
    obtain rfl : lo = hi := Nat.le_antisymm h.le (Nat.le_of_not_lt hlt)
    exact ⟨lo, .inr rfl, h⟩

/-- The numbers below the searched one are the front of the array. -/
theorem Narrows.filter_eq_take (h : Narrows xs n lo lo) :
    xs.toList.filter (· < n) = xs.toList.take lo := by
  have hfront : (xs.toList.take lo).filter (· < n) = xs.toList.take lo := by
    refine List.filter_eq_self.2 fun x hx => ?_
    obtain ⟨i, hi, rfl⟩ := List.mem_take_iff_getElem.1 hx
    rw [Nat.lt_min] at hi
    simpa using h.below i (by simpa using hi.2) hi.1
  have hback : (xs.toList.drop lo).filter (· < n) = [] := by
    refine List.filter_eq_nil_iff.2 fun x hx => ?_
    obtain ⟨i, hi, rfl⟩ := List.mem_drop_iff_getElem.1 hx
    simpa using h.above (lo + i) (by simpa [Nat.add_comm] using hi) (Nat.le_add_right ..)
  calc xs.toList.filter (· < n)
    _ = (xs.toList.take lo ++ xs.toList.drop lo).filter (· < n) := by rw [List.take_append_drop]
    _ = xs.toList.take lo := by rw [List.filter_append, hfront, hback, List.append_nil]

end Search

/-! ## Slices -/

namespace Text

variable {t u s seen : Text} {a b n : Nat}

theorem cutBytesOnto_eq_some_iff : cutBytesOnto seen n t = some (s, u) ↔
    ∃ w, s = seen.reverse ++ w ∧ t = w ++ u ∧ w.utf8.length = n := by
  fun_induction cutBytesOnto seen n t with
  | case1 seen t =>
    constructor
    · intro h
      cases h
      exact ⟨[], (List.append_nil _).symm, rfl, rfl⟩
    · rintro ⟨w, rfl, rfl, hw⟩
      rw [length_utf8_eq_zero_iff.1 hw, List.append_nil, List.nil_append]
  | case2 seen n =>
    constructor
    · intro h
      cases h
    · rintro ⟨w, -, hnil, hw⟩
      rw [(List.append_eq_nil_iff.1 hnil.symm).1] at hw
      cases hw
  | case3 seen n c t hle ih =>
    rw [ih, List.reverse_cons]
    constructor
    · rintro ⟨w, rfl, rfl, hw⟩
      refine ⟨c :: w, by simp, rfl, ?_⟩
      rw [length_utf8_cons, hw, Nat.add_sub_cancel' hle]
    · rintro ⟨w, rfl, hcons, hw⟩
      cases w with
      | nil => cases hw
      | cons d w =>
        cases hcons
        refine ⟨w, by simp, rfl, ?_⟩
        rw [length_utf8_cons] at hw
        exact Nat.eq_sub_of_add_eq' hw
  | case4 seen n c t hlt =>
    constructor
    · intro h
      cases h
    · rintro ⟨w, -, hcons, hw⟩
      cases w with
      | nil => cases hw
      | cons d w =>
        cases hcons
        rw [length_utf8_cons] at hw
        omega

theorem slice?_eq_some_iff : t.slice? a b = some s ↔
    ∃ u v, t = u ++ s ++ v ∧ u.utf8.length = a ∧ (u ++ s).utf8.length = b := by
  rw [slice?]
  constructor
  · intro h
    split at h
    · rename_i hle
      split at h
      · cases h
      · rename_i u rest hcut
        obtain ⟨⟨s', v⟩, hslice, rfl⟩ := Option.map_eq_some_iff.1 h
        obtain ⟨w, rfl, rfl, hw⟩ := cutBytesOnto_eq_some_iff.1 hcut
        obtain ⟨w', rfl, rfl, hw'⟩ := cutBytesOnto_eq_some_iff.1 hslice
        refine ⟨u, v, by simp, hw, ?_⟩
        rw [length_utf8_append, hw, hw', Nat.add_sub_cancel' hle]
    · cases h
  · rintro ⟨u, v, rfl, rfl, rfl⟩
    have hfront : cutBytesOnto [] u.utf8.length (u ++ s ++ v) = some (u, s ++ v) :=
      cutBytesOnto_eq_some_iff.2 ⟨u, rfl, List.append_assoc .., rfl⟩
    have hslice : cutBytesOnto [] s.utf8.length (s ++ v) = some (s, v) :=
      cutBytesOnto_eq_some_iff.2 ⟨s, rfl, rfl, rfl⟩
    rw [length_utf8_append, if_pos (Nat.le_add_right ..), hfront, Nat.add_sub_cancel_left]
    simp [hslice]

end Text

/-! ## The index -/

namespace LineIndex

open Text

theorem toList_lineBreaksOnto (seen : Array Nat) (n : Nat) (t : Text) :
    (lineBreaksOnto seen n t).toList =
      seen.toList ++ ((charsFrom n t).filter (·.2 = '\n')).map (·.1) := by
  induction t generalizing seen n with
  | nil => simp [lineBreaksOnto, charsFrom]
  | cons c t ih =>
    rw [lineBreaksOnto, ih, charsFrom, List.filter_cons]
    by_cases hc : c = '\n'
    · simp [hc]
    · simp [hc]

theorem pairwise_lineBreaks (t : Text) : (ofText t).lineBreaks.toList.Pairwise (· < ·) := by
  rw [ofText, toList_lineBreaksOnto, List.nil_append, List.pairwise_map]
  exact (pairwise_charsFrom 0 t).filter _

theorem newlinesBefore_eq_filter (t : Text) (o : Nat) :
    t.newlinesBefore o = (ofText t).lineBreaks.toList.filter (· < o) := by
  rw [ofText, toList_lineBreaksOnto, List.nil_append, List.filter_map, List.filter_filter,
    newlinesBefore]
  refine congrArg _ (List.filter_congr fun x _ => ?_)
  simp [Bool.and_comm]

/-- The newlines before an offset are the front of all newlines, as long as the row says. -/
theorem newlinesBefore_eq_take (t : Text) (o : Nat) :
    (ofText t).row o ≤ (ofText t).lineBreaks.size ∧
      t.newlinesBefore o = (ofText t).lineBreaks.toList.take ((ofText t).row o) := by
  obtain ⟨i, hi, hnarrows⟩ :=
    narrows_binarySearchFrom (pairwise_lineBreaks t) (Nat.le_refl _) (narrows_start _ o)
  have hrow : (ofText t).row o = i := by
    rw [row, binarySearch]
    rcases hi with hi | hi <;> rw [hi]
  rw [hrow, newlinesBefore_eq_filter]
  exact ⟨hnarrows.size, hnarrows.filter_eq_take⟩

theorem row_eq (t : Text) (o : Nat) : (ofText t).row o = (t.newlinesBefore o).length := by
  obtain ⟨hle, htake⟩ := newlinesBefore_eq_take t o
  rw [htake, List.length_take, Array.length_toList, Nat.min_eq_left hle]

theorem lineStart_row (t : Text) (o : Nat) :
    (ofText t).lineStart ((ofText t).row o) = t.lineStart o := by
  obtain ⟨hle, htake⟩ := newlinesBefore_eq_take t o
  rw [LineIndex.lineStart, Text.lineStart, htake, List.getLast?_take]
  split
  · rfl
  · rename_i hrow
    have hlt : (ofText t).row o - 1 < (ofText t).lineBreaks.size := by omega
    simp [Array.getD, hlt]

/-- There is a slice from the start of the line exactly when the offset is a boundary. -/
theorem column_eq (t : Text) (o : Nat) :
    (match t.slice? (t.lineStart o) o with
      | some before => before.length
      | none => o - t.lineStart o) =
      if t.IsBoundary o then t.charsBetween (t.lineStart o) o else o - t.lineStart o := by
  obtain ⟨hle, u, v, hsplit, hu⟩ := exists_lineStart t o
  split
  · rename_i before hslice
    obtain ⟨u', v', ht, hu', ho⟩ := slice?_eq_some_iff.1 hslice
    rw [if_pos (isBoundary_iff.2 ⟨u' ++ before, v', ht, ho⟩), ← hu', ← ho, ht, charsBetween_slice]
  · rename_i hslice
    rw [if_neg]
    intro hboundary
    obtain ⟨u', v', ht, ho⟩ := isBoundary_iff.1 hboundary
    obtain ⟨w, rfl⟩ := exists_between (hsplit.symm.trans ht) (by omega)
    rw [slice?_eq_some_iff.2 ⟨u, v', ht, hu, ho⟩] at hslice
    cases hslice

theorem counted_position (t : Text) (n : Nat) : ((ofText t).position n).Counted t n where
  offset := rfl
  line := by
    rw [Nat.add_comm, ← row_eq]
    rfl
  column := by
    rw [Nat.add_comm, ← column_eq, ← lineStart_row]
    rfl

end LineIndex

/-! ## The order of positions -/

namespace Position

open Text

/-- What is looked up between two characters is where walking through all that stands in front arrives. -/
theorem ofOffset_eq_after (u v : Text) : ofOffset (u ++ v) u.utf8.length = start.after u :=
  (LineIndex.counted_position (u ++ v) u.utf8.length).unique (counted_after u v)

/-- Where a person looks for the position: the line first, then the column. -/
def lineColumn (p : Position) : ℕ ×ₗ ℕ :=
  toLex (p.line, p.column)

theorem lineColumn_lt_next (p : Position) (c : Char) : p.lineColumn < (p.next c).lineColumn := by
  rw [lineColumn, lineColumn, Prod.Lex.toLex_lt_toLex, next]
  split
  · exact .inl (Nat.lt_succ_self _)
  · exact .inr ⟨rfl, Nat.lt_succ_self _⟩

theorem lineColumn_lt_after (p : Position) (c : Char) (t : Text) :
    p.lineColumn < (p.after (c :: t)).lineColumn := by
  induction t generalizing p c with
  | nil => exact lineColumn_lt_next p c
  | cons d t ih => exact (lineColumn_lt_next p c).trans (ih (p.next c) d)

theorem strictMonoOn_ofOffset (source : Text) :
    StrictMonoOn (fun n => (ofOffset source n).lineColumn) {n | source.IsBoundary n} := by
  intro m hm n hn hlt
  obtain ⟨u, v, rfl, rfl⟩ := isBoundary_iff.1 hm
  obtain ⟨u', v', hsplit, rfl⟩ := isBoundary_iff.1 hn
  obtain ⟨_ | ⟨c, w⟩, rfl⟩ := exists_between hsplit (Nat.le_of_lt hlt)
  · rw [List.append_nil] at hlt
    exact absurd hlt (Nat.lt_irrefl _)
  have hfirst := ofOffset_eq_after u v
  have hsecond := ofOffset_eq_after (u ++ c :: w) v'
  rw [← hsplit, after_append] at hsecond
  simp only [hfirst, hsecond]
  exact lineColumn_lt_after _ c w

/-- The position of an offset is what counting gives, whatever the offset. Between two characters it rises
with the offset, so line and column determine the offset. -/
theorem counted_ofOffset (source : Text) :
    (∀ n, (ofOffset source n).Counted source n) ∧
      StrictMonoOn (fun n => (ofOffset source n).lineColumn) {n | source.IsBoundary n} ∧
      ∀ m n, source.IsBoundary m → source.IsBoundary n →
        (ofOffset source m).line = (ofOffset source n).line →
        (ofOffset source m).column = (ofOffset source n).column → m = n := by
  refine ⟨LineIndex.counted_position source, strictMonoOn_ofOffset source, ?_⟩
  intro m n hm hn hline hcolumn
  refine (strictMonoOn_ofOffset source).injOn hm hn ?_
  simp only [lineColumn, hline, hcolumn]

/-- A newline, two newlines in a row, a character of two bytes, and an offset past the end. -/
example : ([0, 1, 2, 3, 4, 5, 9].map fun n =>
    ((ofOffset "a\n\né".toList n).label, decide (Text.IsBoundary "a\n\né".toList n))) =
      [("1:1", true), ("1:2", true), ("2:1", true), ("3:1", true), ("3:2", false), ("3:2", true),
        ("3:2", false)] := by
  decide +kernel

end Position

end TemplLayout
