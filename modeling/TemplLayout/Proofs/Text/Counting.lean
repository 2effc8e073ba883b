import Mathlib.Data.List.Induction
import TemplLayout.Position

/-!
# TemplLayout.Proofs.Text.Counting

Line and column, counted from the start of a text.

* `Text.charsFrom n t`      — the characters of `t`, which begins at the byte offset `n`, each with the
  byte offset at which it begins.
* `Text.newlinesBefore t o` — where the newlines begin that stand before the offset `o`.
* `Text.lineStart t o`      — where the line of `o` begins: behind the last of these newlines.
* `Text.IsBoundary t o`     — a character begins at `o`, or the text ends there.
* `Position.Counted t n p`  — `p` is what counting gives for the offset `n`.

What has been walked through is counted character by character (`Position.line_after`,
`Position.column_after`), and what lies behind it makes no difference (`Position.counted_after`).
-/

namespace TemplLayout

namespace Text

def charsFrom (n : Nat) : Text → List (Nat × Char)
  | [] => []
  | c :: t => (n, c) :: charsFrom (n + c.utf8Size) t

def newlinesBefore (t : Text) (o : Nat) : List Nat :=
  ((charsFrom 0 t).filter fun x => x.2 = '\n' ∧ x.1 < o).map (·.1)

/-- A newline belongs to the line that it ends. -/
def lineStart (t : Text) (o : Nat) : Nat :=
  match (t.newlinesBefore o).getLast? with
  | none => 0
  | some n => n + 1

/-- The number of characters that begin at `a` or behind it, and before `b`. -/
def charsBetween (t : Text) (a b : Nat) : Nat :=
  (charsFrom 0 t).countP fun x => a ≤ x.1 ∧ x.1 < b

def IsBoundary (t : Text) (o : Nat) : Prop :=
  o ∈ (charsFrom 0 t).map (·.1) ∨ o = t.utf8.length

instance (t : Text) (o : Nat) : Decidable (t.IsBoundary o) :=
  inferInstanceAs (Decidable (_ ∨ _))

end Text

structure Position.Counted (t : Text) (n : Nat) (p : Position) : Prop where
  offset : p.offset = min n t.utf8.length
  line : p.line = 1 + (t.newlinesBefore p.offset).length
  column : p.column = 1 +
    if t.IsBoundary p.offset then t.charsBetween (t.lineStart p.offset) p.offset
    else p.offset - t.lineStart p.offset

namespace Text

/-! ## Characters and their offsets -/

variable {s t u v : Text} {c : Char} {n o a : Nat}

theorem length_utf8_append (s t : Text) : (s ++ t).utf8.length = s.utf8.length + t.utf8.length := by
  rw [utf8_append, List.length_append]

theorem length_utf8_singleton (c : Char) : (Text.utf8 [c]).length = c.utf8Size := by
  rw [utf8, List.flatMap_singleton, String.length_utf8EncodeChar]

theorem length_utf8_cons (c : Char) (t : Text) :
    (Text.utf8 (c :: t)).length = c.utf8Size + t.utf8.length := by
  rw [← List.singleton_append, length_utf8_append, length_utf8_singleton]

theorem length_utf8_eq_zero_iff : t.utf8.length = 0 ↔ t = [] := by
  cases t with
  | nil => simp [utf8]
  | cons c t =>
    have hpos := c.utf8Size_pos
    rw [length_utf8_cons]
    simp only [List.cons_ne_nil, iff_false]
    omega

theorem charsFrom_append (n : Nat) (s t : Text) :
    charsFrom n (s ++ t) = charsFrom n s ++ charsFrom (n + s.utf8.length) t := by
  induction s generalizing n with
  | nil => rfl
  | cons c s ih =>
    rw [List.cons_append, charsFrom, ih, charsFrom, length_utf8_cons, Nat.add_assoc]
    rfl

theorem bounds_of_mem_charsFrom {x : Nat × Char} (h : x ∈ charsFrom n t) :
    n ≤ x.1 ∧ x.1 + x.2.utf8Size ≤ n + t.utf8.length := by
  induction t generalizing n with
  | nil => cases h
  | cons c t ih =>
    rw [length_utf8_cons]
    rcases List.mem_cons.1 h with rfl | h
    · simp only
      omega
    · have := ih h
      omega

theorem length_charsFrom (n : Nat) (t : Text) : (charsFrom n t).length = t.length := by
  induction t generalizing n with
  | nil => rfl
  | cons c t ih => rw [charsFrom, List.length_cons, List.length_cons, ih]

theorem pairwise_charsFrom (n : Nat) (t : Text) :
    (charsFrom n t).Pairwise fun x y => x.1 < y.1 := by
  induction t generalizing n with
  | nil => exact .nil
  | cons c t ih =>
    refine .cons (fun x hx => ?_) (ih _)
    have hpos := c.utf8Size_pos
    have hle := (bounds_of_mem_charsFrom hx).1
    simp only
    omega

/-- A character begins before the text ends. -/
theorem lt_of_mem_charsFrom {x : Nat × Char} (h : x ∈ charsFrom n t) : x.1 < n + t.utf8.length := by
  have hend := (bounds_of_mem_charsFrom h).2
  have hpos := x.2.utf8Size_pos
  omega

theorem newlinesBefore_append (u v : Text) :
    (u ++ v).newlinesBefore u.utf8.length = u.newlinesBefore u.utf8.length := by
  have hbehind : (charsFrom (0 + u.utf8.length) v).filter
      (fun x => x.2 = '\n' ∧ x.1 < u.utf8.length) = [] := by
    refine List.filter_eq_nil_iff.2 fun x hx => ?_
    have hle := (bounds_of_mem_charsFrom hx).1
    rw [decide_eq_true_eq]
    omega
  rw [newlinesBefore, charsFrom_append, List.filter_append, hbehind, List.append_nil, newlinesBefore]

/-- Where the last line of `u` begins is where it begins in any longer text. -/
theorem lineStart_append (u v : Text) :
    (u ++ v).lineStart u.utf8.length = u.lineStart u.utf8.length := by
  rw [lineStart, newlinesBefore_append, lineStart]

theorem charsBetween_append (u v : Text) (a : Nat) :
    (u ++ v).charsBetween a u.utf8.length = u.charsBetween a u.utf8.length := by
  have hbehind : (charsFrom (0 + u.utf8.length) v).countP
      (fun x => a ≤ x.1 ∧ x.1 < u.utf8.length) = 0 := by
    refine List.countP_eq_zero.2 fun x hx => ?_
    have hle := (bounds_of_mem_charsFrom hx).1
    rw [decide_eq_true_eq]
    omega
  rw [charsBetween, charsFrom_append, List.countP_append, hbehind, Nat.add_zero, charsBetween]

/-- The characters of a slice are the ones between its ends. -/
theorem charsBetween_slice (u s v : Text) :
    (u ++ s ++ v).charsBetween u.utf8.length (u ++ s).utf8.length = s.length := by
  have hslice : (charsFrom (0 + u.utf8.length) s).countP
      (fun x => u.utf8.length ≤ x.1 ∧ x.1 < (u ++ s).utf8.length) =
        (charsFrom (0 + u.utf8.length) s).length := by
    refine List.countP_eq_length.2 fun x hx => ?_
    have hle := (bounds_of_mem_charsFrom hx).1
    have hlt := lt_of_mem_charsFrom hx
    rw [decide_eq_true_eq, length_utf8_append]
    omega
  have hbefore : (charsFrom 0 u).countP
      (fun x => u.utf8.length ≤ x.1 ∧ x.1 < (u ++ s).utf8.length) = 0 := by
    refine List.countP_eq_zero.2 fun x hx => ?_
    have hlt := lt_of_mem_charsFrom hx
    rw [decide_eq_true_eq]
    omega
  rw [charsBetween_append, charsBetween, charsFrom_append, List.countP_append, hbefore, hslice,
    Nat.zero_add, length_charsFrom]

/-- Nothing stands on a line that has just begun. -/
theorem charsBetween_self (t : Text) (a : Nat) : t.charsBetween a a = 0 := by
  refine List.countP_eq_zero.2 fun x _ => ?_
  rw [decide_eq_true_eq]
  omega

/-! ## Boundaries -/

theorem isBoundary_append (u v : Text) : (u ++ v).IsBoundary u.utf8.length := by
  cases v with
  | nil => exact .inr (by rw [List.append_nil])
  | cons c v =>
    refine .inl (List.mem_map.2 ⟨(u.utf8.length, c), ?_, rfl⟩)
    rw [charsFrom_append, Nat.zero_add]
    exact List.mem_append_right _ List.mem_cons_self

theorem exists_of_mem_charsFrom {x : Nat × Char} (h : x ∈ charsFrom n t) :
    ∃ u v, t = u ++ x.2 :: v ∧ n + u.utf8.length = x.1 := by
  induction t generalizing n with
  | nil => cases h
  | cons c t ih =>
    rcases List.mem_cons.1 h with rfl | h
    · exact ⟨[], t, rfl, rfl⟩
    · obtain ⟨u, v, rfl, hu⟩ := ih h
      refine ⟨c :: u, v, rfl, ?_⟩
      rw [length_utf8_cons, ← hu, Nat.add_assoc]

theorem isBoundary_iff : t.IsBoundary o ↔ ∃ u v, t = u ++ v ∧ u.utf8.length = o := by
  constructor
  · rintro (h | rfl)
    · obtain ⟨x, hx, rfl⟩ := List.mem_map.1 h
      obtain ⟨u, v, hsplit, hu⟩ := exists_of_mem_charsFrom hx
      exact ⟨u, x.2 :: v, hsplit, by omega⟩
    · exact ⟨t, [], (List.append_nil t).symm, rfl⟩
  · rintro ⟨u, v, rfl, rfl⟩
    exact isBoundary_append u v

/-- What ends at a boundary does so in front of what ends at a later one. -/
theorem exists_between {u v u' v' : Text} (h : u ++ v = u' ++ v')
    (hle : u.utf8.length ≤ u'.utf8.length) : ∃ w, u' = u ++ w := by
  rcases List.append_eq_append_iff.1 h with ⟨w, hw, -⟩ | ⟨w, rfl, -⟩
  · exact ⟨w, hw⟩
  · cases w with
    | nil => exact ⟨[], by simp⟩
    | cons c w =>
      have hpos := c.utf8Size_pos
      rw [length_utf8_append, length_utf8_cons] at hle
      omega

/-- A line begins between two characters, at the start or behind a newline. -/
theorem exists_lineStart (t : Text) (o : Nat) :
    t.lineStart o ≤ o ∧ ∃ u v, t = u ++ v ∧ u.utf8.length = t.lineStart o := by
  rw [lineStart]
  cases hlast : (t.newlinesBefore o).getLast? with
  | none => exact ⟨Nat.zero_le _, [], t, rfl, rfl⟩
  | some n =>
    obtain ⟨⟨m, c⟩, hx, rfl⟩ := List.mem_map.1 (List.mem_of_getLast? hlast)
    rw [List.mem_filter, decide_eq_true_eq] at hx
    obtain ⟨hmem, rfl, hlt⟩ := hx
    obtain ⟨u, v, rfl, hu⟩ := exists_of_mem_charsFrom hmem
    have hsize : Char.utf8Size '\n' = 1 := rfl
    refine ⟨hlt, u ++ ['\n'], v, by simp, ?_⟩
    rw [length_utf8_append, length_utf8_singleton, hsize, ← hu, Nat.zero_add]

/-! ## One character more -/

theorem newlinesBefore_concat (u : Text) (c : Char) :
    Text.newlinesBefore (u ++ [c]) (Text.utf8 (u ++ [c])).length =
      u.newlinesBefore u.utf8.length ++ if c = '\n' then [u.utf8.length] else [] := by
  have hpos := c.utf8Size_pos
  have hfront : (charsFrom 0 u).filter
      (fun x => x.2 = '\n' ∧ x.1 < u.utf8.length + c.utf8Size) =
        (charsFrom 0 u).filter (fun x => x.2 = '\n' ∧ x.1 < u.utf8.length) := by
    refine List.filter_congr fun x hx => ?_
    have hlt := lt_of_mem_charsFrom hx
    rw [decide_eq_decide]
    refine and_congr_right fun _ => ?_
    omega
  rw [newlinesBefore, length_utf8_append, length_utf8_singleton, charsFrom_append,
    List.filter_append, hfront, List.map_append, Nat.zero_add, newlinesBefore]
  congr 1
  by_cases hc : c = '\n'
  · subst hc
    simp [charsFrom, hpos]
  · simp [charsFrom, hc]

theorem lineStart_concat (u : Text) (c : Char) :
    Text.lineStart (u ++ [c]) (Text.utf8 (u ++ [c])).length =
      if c = '\n' then u.utf8.length + 1 else u.lineStart u.utf8.length := by
  rw [lineStart, newlinesBefore_concat]
  by_cases hc : c = '\n'
  · rw [if_pos hc, if_pos hc, List.getLast?_concat]
  · rw [if_neg hc, if_neg hc, List.append_nil, lineStart]

/-- A line that goes on has one character more. -/
theorem charsBetween_concat (u : Text) (c : Char) :
    Text.charsBetween (u ++ [c]) (u.lineStart u.utf8.length) (Text.utf8 (u ++ [c])).length =
      u.charsBetween (u.lineStart u.utf8.length) u.utf8.length + 1 := by
  obtain ⟨-, w, s, hsplit, hw⟩ := exists_lineStart u u.utf8.length
  have hline := charsBetween_slice w s []
  have hlonger := charsBetween_slice w (s ++ [c]) []
  rw [List.append_nil] at hline hlonger
  rw [← hw, hsplit, List.append_assoc, hline, hlonger, List.length_append, List.length_singleton]

end Text

/-! ## Positions -/

namespace Position

open Text

variable {u v t : Text} {c : Char} {n : Nat}

theorem offset_start_after (u : Text) : (start.after u).offset = u.utf8.length := by
  rw [offset_after]
  exact Nat.zero_add _

theorem after_concat (p : Position) (u : Text) (c : Char) :
    p.after (u ++ [c]) = (p.after u).next c := by
  rw [after_append]
  rfl

theorem line_after (u : Text) :
    (start.after u).line = 1 + (u.newlinesBefore u.utf8.length).length := by
  induction u using List.reverseRecOn with
  | nil => rfl
  | append_singleton u c ih =>
    rw [after_concat, newlinesBefore_concat, List.length_append, next]
    split
    · rw [ih, List.length_singleton, Nat.add_assoc]
    · rw [ih, List.length_nil, Nat.add_zero]

theorem column_after (u : Text) : (start.after u).column =
    1 + u.charsBetween (u.lineStart u.utf8.length) u.utf8.length := by
  induction u using List.reverseRecOn with
  | nil => rfl
  | append_singleton u c ih =>
    rw [after_concat, lineStart_concat, next]
    by_cases hc : c = '\n'
    · have hend : (Text.utf8 (u ++ ['\n'])).length = (Text.utf8 u).length + 1 :=
        length_utf8_append u ['\n']
      rw [hc, if_pos rfl, if_pos rfl, hend, charsBetween_self]
    · rw [if_neg hc, if_neg hc, charsBetween_concat, ih]
      rfl

/-- The position behind `u`, in whatever goes on behind it. -/
theorem counted_after (u v : Text) : (start.after u).Counted (u ++ v) u.utf8.length where
  offset := by rw [offset_start_after, length_utf8_append, Nat.min_eq_left (Nat.le_add_right ..)]
  line := by rw [offset_start_after, newlinesBefore_append, line_after]
  column := by
    rw [offset_start_after, if_pos (isBoundary_append u v), lineStart_append, charsBetween_append,
      column_after]

theorem Counted.unique {p q : Position} (hp : p.Counted t n) (hq : q.Counted t n) : p = q := by
  have hoffset : p.offset = q.offset := hp.offset.trans hq.offset.symm
  have hline : p.line = q.line := by rw [hp.line, hq.line, hoffset]
  have hcolumn : p.column = q.column := by rw [hp.column, hq.column, hoffset]
  cases p
  cases q
  simp only at hoffset hline hcolumn
  rw [hoffset, hline, hcolumn]

end Position

end TemplLayout
