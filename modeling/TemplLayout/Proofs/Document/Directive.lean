import Mathlib.Data.List.TakeWhile
import TemplLayout.Document.Canonical
import TemplLayout.Proofs.Segment.Passage

/-!
# TemplLayout.Proofs.Document.Directive

Directives, as they are spelled and as they are read.

* `Signature.ofText?_append` and `Signature.exists_of_ofText?` — a signature is read exactly from
  `a(m)w`, where `a` has no `(` in it and is one word when it is trimmed, and `w` is blank.
* `Signature.Legible s`      — what every signature that was read satisfies (`legible_of_ofText?`). It is
  read back from its spelling (`Legible.ofText?_spell`).
* `Signature.WellFormed s`   — it can stand in a directive as well.
* `Passage.ofDirective`      — the passage of a directive that is spelled in the one way.
-/

namespace TemplLayout

open Text

/-! ## Cutting at a character -/

section

variable {c : Char} {s t : Text}

theorem forall_ne_of_not_mem (h : c ∉ t) : ∀ d ∈ t, decide (d ≠ c) = true := by
  intro d hd
  rw [decide_eq_true_eq]
  rintro rfl
  exact h hd

theorem dropWhile_ne_of_not_mem (h : c ∉ t) : t.dropWhile (· ≠ c) = [] :=
  List.dropWhile_eq_nil_iff.2 (forall_ne_of_not_mem h)

theorem takeWhile_ne_append (h : c ∉ s) (t : Text) : (s ++ c :: t).takeWhile (· ≠ c) = s := by
  rw [List.takeWhile_append_of_pos (forall_ne_of_not_mem h), List.takeWhile_cons_of_neg (by simp),
    List.append_nil]

theorem dropWhile_ne_append (h : c ∉ s) (t : Text) :
    (s ++ c :: t).dropWhile (· ≠ c) = c :: t := by
  rw [List.dropWhile_append_of_pos (forall_ne_of_not_mem h), List.dropWhile_cons_of_neg (by simp)]

theorem exists_last_of_mem (h : c ∈ t) : ∃ m w : Text, t = m ++ c :: w ∧ c ∉ w := by
  obtain ⟨w, m, hrev, hw⟩ := List.eq_append_cons_of_mem (List.mem_reverse.2 h)
  refine ⟨m.reverse, w.reverse, ?_, fun hmem => hw (List.mem_reverse.1 hmem)⟩
  rw [← t.reverse_reverse, hrev]
  simp

end

/-! ## Signatures -/

namespace Signature

theorem cutLast?_append {m w : Text} (h : ')' ∉ w) : cutLast? (m ++ ')' :: w) = some (m, w) := by
  have hw : ')' ∉ w.reverse := fun hmem => h (List.mem_reverse.1 hmem)
  have hrev : (m ++ ')' :: w).reverse = w.reverse ++ ')' :: m.reverse := by simp
  rw [cutLast?, hrev, dropWhile_ne_append hw, takeWhile_ne_append hw]
  simp

theorem cutLast?_of_not_mem {t : Text} (h : ')' ∉ t) : cutLast? t = none := by
  rw [cutLast?, dropWhile_ne_of_not_mem fun hmem => h (List.mem_reverse.1 hmem)]

/-- The first opening and the last closing parenthesis can be missing, or stand in either order. -/
theorem parens_cases (t : Text) : '(' ∉ t ∨ ∃ a v : Text, t = a ++ '(' :: v ∧ '(' ∉ a ∧
    (')' ∉ v ∨ ∃ m w : Text, v = m ++ ')' :: w ∧ ')' ∉ w) := by
  by_cases hopen : '(' ∈ t
  · obtain ⟨a, v, rfl, ha⟩ := List.eq_append_cons_of_mem hopen
    refine .inr ⟨a, v, rfl, ha, ?_⟩
    by_cases hclose : ')' ∈ v
    · exact .inr (exists_last_of_mem hclose)
    · exact .inl hclose
  · exact .inl hopen

theorem ofText?_of_not_mem {t : Text} (h : '(' ∉ t) : ofText? t = none := by
  rw [ofText?, dropWhile_ne_of_not_mem h]

theorem ofText?_opened {a : Text} (ha : '(' ∉ a) (v : Text) :
    ofText? (a ++ '(' :: v) = (cutLast? v).bind fun cut =>
      if Text.isWord a.trim && cut.2.isBlank then some ⟨a.trim, cut.1.trim⟩ else none := by
  rw [ofText?, dropWhile_ne_append ha, takeWhile_ne_append ha]
  dsimp only
  cases cutLast? v <;> rfl

theorem ofText?_cut {a m w : Text} (ha : '(' ∉ a) (hw : ')' ∉ w) :
    ofText? (a ++ '(' :: (m ++ ')' :: w)) =
      if Text.isWord a.trim && w.isBlank then some ⟨a.trim, m.trim⟩ else none := by
  rw [ofText?_opened ha, cutLast?_append hw, Option.bind_some]

theorem ofText?_unclosed {a v : Text} (ha : '(' ∉ a) (hv : ')' ∉ v) :
    ofText? (a ++ '(' :: v) = none := by
  rw [ofText?_opened ha, cutLast?_of_not_mem hv, Option.bind_none]

theorem ofText?_eq {a m w : Text} (ha : '(' ∉ a) (hw : w.isBlank = true) :
    ofText? (a ++ '(' :: (m ++ ')' :: w)) =
      if Text.isWord a.trim then some ⟨a.trim, m.trim⟩ else none := by
  have hclose : ')' ∉ w := fun hmem => absurd (isBlank_iff.1 hw _ hmem) (by decide)
  rw [ofText?_cut ha hclose, hw, Bool.and_true]

theorem ofText?_append {a m w : Text} (ha : '(' ∉ a) (hname : Text.isWord a.trim = true)
    (hw : w.isBlank = true) :
    ofText? (a ++ '(' :: (m ++ ')' :: w)) = some ⟨a.trim, m.trim⟩ := by
  rw [ofText?_eq ha hw, if_pos hname]

theorem exists_of_ofText? {t : Text} {s : Signature} (h : ofText? t = some s) :
    ∃ a m w : Text, t = a ++ '(' :: (m ++ ')' :: w) ∧ '(' ∉ a ∧ Text.isWord a.trim = true ∧
      w.isBlank = true ∧ s = ⟨a.trim, m.trim⟩ := by
  obtain hopen | ⟨a, v, rfl, ha, hclose | ⟨m, w, rfl, hw⟩⟩ := parens_cases t
  · rw [ofText?_of_not_mem hopen] at h
    cases h
  · rw [ofText?_unclosed ha hclose] at h
    cases h
  · rw [ofText?_cut ha hw] at h
    split at h
    · rename_i hok
      obtain ⟨hname, hblank⟩ := Bool.and_eq_true_iff.1 hok
      cases h
      exact ⟨a, m, w, rfl, ha, hname, hblank, rfl⟩
    · cases h

structure Legible (s : Signature) : Prop where
  name : s.name.isWord = true
  name_open : '(' ∉ s.name
  params : s.params.Trimmed

theorem legible_of_ofText? {t : Text} {s : Signature} (h : ofText? t = some s) : s.Legible := by
  obtain ⟨a, m, w, -, ha, hname, -, rfl⟩ := exists_of_ofText? h
  exact ⟨hname, fun hmem => ha ((trim_isInfix a).subset hmem), trimmed_trim m⟩

/-- A legible signature is read back from its spelling. -/
theorem Legible.ofText?_spell {s : Signature} (h : s.Legible) : ofText? s.spell = some s := by
  have htrim := (trimmed_of_isWord h.name).trim_eq
  have := ofText?_append (a := s.name) (m := s.params) (w := []) h.name_open
    (by rw [htrim, h.name]) rfl
  rw [htrim, h.params.trim_eq] at this
  rw [spell, List.append_assoc]
  exact this

structure WellFormed (s : Signature) : Prop where
  name : s.name.isWord = true
  name_open : '(' ∉ s.name
  params : s.params.Trimmed
  name_lacks : Lacks closesDirective s.name
  params_lacks : Lacks closesDirective s.params

theorem wellFormed_of_ofText? {t : Text} {s : Signature} (ht : Lacks closesDirective t)
    (h : ofText? t = some s) : s.WellFormed := by
  obtain ⟨hname, hopen, hparams⟩ := legible_of_ofText? h
  obtain ⟨a, m, w, rfl, -, -, -, rfl⟩ := exists_of_ofText? h
  have hloose := pattern_closesDirective.loose
  refine ⟨hname, hopen, hparams, ?_, ?_⟩
  · exact (hloose.trim_iff a).2 (pattern_closesDirective.lacks_of_isInfix ht ⟨[], _, rfl⟩)
  · refine (hloose.trim_iff m).2 (pattern_closesDirective.lacks_of_isInfix ht ?_)
    exact ⟨a ++ ['('], ')' :: w, by simp⟩

variable {s : Signature}

theorem WellFormed.legible (h : s.WellFormed) : s.Legible :=
  ⟨h.name, h.name_open, h.params⟩

theorem trimmed_spell (h : s.WellFormed) : s.spell.Trimmed where
  start := by
    rw [spell, List.append_assoc, startsBlank_append (ne_nil_of_isWord h.name)]
    exact (trimmed_of_isWord h.name).start
  ends := by
    rw [spell, endsBlank_append (by simp)]
    rfl

theorem lacks_spell (h : s.WellFormed) : Lacks closesDirective s.spell := by
  have hfront : Lacks closesDirective (s.name ++ '(' :: s.params) :=
    pattern_closesDirective.lacks_append h.name_lacks (lacks_cons.2 ⟨rfl, h.params_lacks⟩)
      (seam_pair (.inl (by simp)))
  exact pattern_closesDirective.lacks_append hfront
    (pattern_closesDirective.lacks_of_not_mem (by decide)) (seam_pair (.inl (by simp)))

end Signature

/-! ## Directives -/

/-- A directive as it is written out, with `before` in front of it. -/
def Passage.ofDirective (before text : Text) : Passage :=
  ⟨before, ' ' :: text ++ [' ']⟩

theorem Passage.spell_ofDirective (before text : Text) :
    (ofDirective before text).spell = before ++ Directive.spell text := by
  simp [ofDirective, spell, Piece.spell, Directive.spell]

theorem Passage.wellFormed_ofDirective {before text : Text} (hb : Lacks opensDirective before)
    (ht : Lacks closesDirective text) : (ofDirective before text).WellFormed := by
  have hloose := pattern_closesDirective.loose
  exact ⟨hb, (hloose.append_blank rfl).2 ((hloose.blank_append (s := [' ']) rfl).2 ht)⟩

/-- The segments of a directive that is written out, with a blank line's worth of text or a comment
in front of it. -/
theorem scanFrom_ofDirective {before text : Text} (hb : Lacks opensDirective before)
    (ht : Lacks closesDirective text) (htrim : text.Trimmed) (u : Text) (p : Position) :
    scanFrom p (before ++ (Directive.spell text ++ u)) =
      literalItems p before ++ .ok (.directive text (p.after before)) ::
        scanFrom (p.after (before ++ Directive.spell text)) u := by
  have hq := Passage.wellFormed_ofDirective hb ht
  have hbody : (Passage.ofDirective before text).body.trim = text :=
    htrim.trim_append (s := [' ']) (u := [' ']) rfl rfl
  rw [← List.append_assoc, ← Passage.spell_ofDirective, scanFrom_passage hq, hbody]
  rfl

variable {argument : Text}

theorem lacks_directive (k : Keyword) (h : Lacks closesDirective argument) :
    Lacks closesDirective (k.spelling ++ ' ' :: argument) := by
  have hk : Lacks closesDirective k.spelling :=
    pattern_closesDirective.lacks_of_not_mem (by cases k <;> decide)
  exact pattern_closesDirective.lacks_append hk (lacks_cons.2 ⟨rfl, h⟩) (seam_pair (.inl (by simp)))

theorem trimmed_directive (k : Keyword) (h : argument.Trimmed) (hne : argument ≠ []) :
    (k.spelling ++ ' ' :: argument).Trimmed where
  start := by
    rw [startsBlank_append (by cases k <;> decide)]
    cases k <;> decide
  ends := by
    rw [endsBlank_append (List.cons_ne_nil _ _), ← List.singleton_append, endsBlank_append hne]
    exact h.ends

theorem trimmed_spelling (k : Keyword) : Trimmed k.spelling :=
  ⟨by cases k <;> rfl, by cases k <;> rfl⟩

/-- The keyword is the first word, and what stands behind it is the argument. -/
theorem read_spelling_append (k : Keyword) {rest : Text}
    (hrest : rest = [] ∨ rest.startsBlank = true) (p : Position) :
    (Directive.mk (k.spelling ++ rest) p).keyword? = some k ∧
      (Directive.mk (k.spelling ++ rest) p).argument = rest.trim := by
  have hall : k.spelling.all (!isBlankChar ·) = true := by cases k <;> rfl
  have hk : ∀ c ∈ k.spelling, (!isBlankChar c) = true := List.all_eq_true.1 hall
  have hcut : rest.takeWhile (!isBlankChar ·) = [] ∧ rest.dropWhile (!isBlankChar ·) = rest := by
    rcases rest with _ | ⟨c, u⟩
    · exact ⟨rfl, rfl⟩
    · have hc : isBlankChar c = true := hrest.resolve_left (List.cons_ne_nil _ _)
      rw [List.takeWhile_cons_of_neg (by simp [hc]), List.dropWhile_cons_of_neg (by simp [hc])]
      exact ⟨rfl, rfl⟩
  constructor
  · rw [Directive.keyword?, firstWord, List.takeWhile_append_of_pos hk, hcut.1, List.append_nil,
      Keyword.ofText?_spelling]
  · rw [Directive.argument, afterWord, List.dropWhile_append_of_pos hk, hcut.2]

/-- The keyword and the argument are read back. -/
theorem read_directive (k : Keyword) (h : argument.Trimmed) (p : Position) :
    (Directive.mk (k.spelling ++ ' ' :: argument) p).keyword? = some k ∧
      (Directive.mk (k.spelling ++ ' ' :: argument) p).argument = argument := by
  have hread := @read_spelling_append k (' ' :: argument) (.inr rfl) p
  rwa [← List.singleton_append, trim_blank_append rfl, h.trim_eq] at hread

/-- Nothing blank is in the way of the keyword. -/
theorem read_trim (k : Keyword) {w rest : Text} (hw : w.isBlank = true)
    (hrest : rest = [] ∨ rest.startsBlank = true) (p : Position) :
    (Directive.mk (Text.trim (w ++ k.spelling ++ rest)) p).keyword? = some k ∧
      (Directive.mk (Text.trim (w ++ k.spelling ++ rest)) p).argument = rest.trim := by
  have hstart : Text.startsBlank (k.spelling ++ rest) = false := by
    rw [startsBlank_append (by cases k <;> decide), (trimmed_spelling k).start]
  have htrim : Text.trim (w ++ k.spelling ++ rest) = k.spelling ++ rest.trimEnd := by
    rw [List.append_assoc, trim_blank_append hw, trim, trimStart_eq hstart,
      trimEnd_append_of_endsBlank (trimmed_spelling k).ends]
  have hends : rest.trimEnd = [] ∨ rest.trimEnd.startsBlank = true := by
    by_cases hne : rest.trimEnd = []
    · exact .inl hne
    · rw [startsBlank_trimEnd hne]
      refine .inr (hrest.resolve_left ?_)
      rintro rfl
      exact hne rfl
  have hread := read_spelling_append k hends p
  rwa [← htrim, trim_trimEnd] at hread

/-- The keyword is found at the front, and nothing but the argument stands behind it. -/
theorem exists_of_keyword? {d : Directive} {k : Keyword} (h : d.keyword? = some k) :
    ∃ rest : Text, d.text = k.spelling ++ rest ∧ (rest = [] ∨ rest.startsBlank = true) ∧
      d.argument = rest.trim := by
  have hsplit : d.text.firstWord ++ d.text.afterWord = d.text := List.takeWhile_append_dropWhile
  rw [Keyword.ofText?_eq_some h] at hsplit
  refine ⟨d.text.afterWord, hsplit.symm, ?_, rfl⟩
  have hnot := List.head?_dropWhile_not (!isBlankChar ·) d.text
  rw [afterWord]
  cases hrest : d.text.dropWhile (!isBlankChar ·) with
  | nil => exact .inl rfl
  | cons c rest =>
    rw [hrest] at hnot
    exact .inr (by simpa using hnot)

end TemplLayout
