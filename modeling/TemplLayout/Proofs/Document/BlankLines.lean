import TemplLayout.Proofs.Document.Comments

/-!
# TemplLayout.Proofs.Document.BlankLines

The blank lines in front of the nodes of a document.

* `Text.blankLines t`         — the blank lines in `t`. The first and the last line of `t` are none of
  them, as they go on outside of it.
* `Plot.directBlankLines first x` — the blank lines directly in front of a node, up to the directive or
  the comment before it. In front of the first node they go back to the start of the file, where a line
  begins.
* `Plot.directBlankLinesAll xs` — the same for each of the nodes.
* `Document.blankLines d`     — what is recorded for each of the nodes.

What is recorded is the number of blank lines at the front of the gap (`blankLines_parse`). These are the
lines directly in front of the node, unless a comment is between or the gap is the first of the file.
-/

namespace TemplLayout

open Text

namespace Text

def blankLines (t : Text) : Nat :=
  (t.splitOn '\n').tail.dropLast.countP isBlank

variable {t : Text}

theorem length_splitOn_newline (t : Text) : (t.splitOn '\n').length = t.count '\n' + 1 := by
  induction t with
  | nil => rfl
  | cons c t ih =>
    rw [List.splitOn_cons_eq_if_modifyHead, List.count_cons]
    split
    · rw [List.length_cons, ih]
    · rw [List.length_modifyHead, ih]

/-- The lines of a blank text are blank. -/
theorem isBlank_of_mem_splitOn (ht : t.isBlank = true) :
    ∀ l ∈ t.splitOn '\n', Text.isBlank l = true := by
  induction t with
  | nil => simp
  | cons c t ih =>
    rw [isBlank_cons, Bool.and_eq_true] at ht
    have hlines := ih ht.2
    rw [List.splitOn_cons_eq_if_modifyHead]
    split
    · exact List.forall_mem_cons.2 ⟨rfl, hlines⟩
    · cases hsplit : t.splitOn '\n' with
      | nil => simp
      | cons l ls =>
        rw [hsplit, List.forall_mem_cons] at hlines
        rw [List.modifyHead_cons, List.forall_mem_cons]
        exact ⟨by rw [isBlank_cons, ht.1, hlines.1]; rfl, hlines.2⟩

/-- Every newline but the first ends a blank line. -/
theorem blankLines_of_isBlank (ht : t.isBlank = true) : t.blankLines = t.count '\n' - 1 := by
  have hlines : ∀ l ∈ (t.splitOn '\n').tail.dropLast, Text.isBlank l = true := fun l hl =>
    isBlank_of_mem_splitOn ht l (List.mem_of_mem_tail ((List.dropLast_sublist _).subset hl))
  rw [blankLines, List.countP_eq_length.2 hlines, List.length_dropLast, List.length_tail,
    length_splitOn_newline, Nat.add_sub_cancel]

end Text

/-! ## Counting in a gap -/

/-- The newline that ends the line of what stands in front of the gap ends no blank line. -/
theorem Gap.blankLines_ofText (t : Text) : (Gap.ofText t).blankLines = t.leadingBlanks.blankLines :=
  (blankLines_of_isBlank (isBlank_leadingBlanks t)).symm

namespace Plot

def frontBlankLines (x : Plot) : Nat :=
  x.gap.leadingBlanks.blankLines

def directBlankLines (first : Bool) (x : Plot) : Nat :=
  if first && x.gap.isBlank then Text.blankLines ('\n' :: x.gap) else x.gap.trailingBlanks.blankLines

def directBlankLinesAll : List Plot → List Nat
  | [] => []
  | x :: xs => x.directBlankLines true :: xs.map (directBlankLines false)

/-- Behind a directive the two counts are the same, as long as nothing stands between. -/
theorem front_eq_direct {x : Plot} (hx : x.gap.isBlank = true) :
    x.frontBlankLines = x.directBlankLines false := by
  rw [frontBlankLines, directBlankLines, leadingBlanks_of_isBlank hx, trailingBlanks_of_isBlank hx]
  rfl

/-- At the start of the file the first newline ends a blank line too. -/
theorem front_eq_direct_first_iff {x : Plot} (hx : x.gap.isBlank = true) :
    x.frontBlankLines = x.directBlankLines true ↔ '\n' ∉ x.gap := by
  have hnewline : Text.isBlank ('\n' :: x.gap) = true := by
    rw [isBlank_cons, hx]
    rfl
  have hdirect : x.directBlankLines true = x.gap.count '\n' := by
    rw [directBlankLines, hx, Bool.and_self, if_pos rfl, blankLines_of_isBlank hnewline,
      List.count_cons_self, Nat.add_sub_cancel]
  rw [hdirect, frontBlankLines, leadingBlanks_of_isBlank hx, blankLines_of_isBlank hx,
    ← List.count_eq_zero]
  omega

/-- A comment starts a count of its own, wherever it stands. -/
theorem directBlankLines_of_comment {x : Plot} (hx : x.gap.isBlank = false) (first : Bool) :
    x.directBlankLines first = x.gap.trailingBlanks.blankLines := by
  rw [directBlankLines, hx, Bool.and_false]
  rfl

/-- Between two directives what is at the front of the gap is directly in front of the node. -/
structure Agrees (first : Bool) (x : Plot) : Prop where
  start : first = true → x.gap.isBlank = true → '\n' ∉ x.gap
  comment : x.gap.isBlank = false →
    x.gap.leadingBlanks.blankLines = x.gap.trailingBlanks.blankLines

theorem front_eq_direct_iff (first : Bool) (x : Plot) :
    x.frontBlankLines = x.directBlankLines first ↔ x.Agrees first := by
  cases hx : x.gap.isBlank with
  | false =>
    rw [directBlankLines_of_comment hx]
    exact ⟨fun h => ⟨by simp [hx], fun _ => h⟩, fun h => h.comment hx⟩
  | true =>
    cases first with
    | false => exact ⟨fun _ => ⟨by simp, by simp [hx]⟩, fun _ => front_eq_direct hx⟩
    | true =>
      rw [front_eq_direct_first_iff hx]
      exact ⟨fun h => ⟨fun _ _ => h, by simp [hx]⟩, fun h => h.start rfl hx⟩

end Plot

def Document.blankLines (d : Document) : List Nat :=
  d.gaps.map Gap.blankLines

theorem Document.blankLines_of_isCut {source : Text} {d : Document} (h : parse source = .ok d)
    {plots : List Plot} {last : Text} (hcut : IsCut source plots last) :
    d.blankLines = plots.map Plot.frontBlankLines := by
  rw [Document.blankLines, Document.gaps_of_isCut h hcut, List.map_map]
  exact List.map_congr_left fun x _ => Gap.blankLines_ofText x.gap

theorem Plot.map_front_eq_direct_iff (plots : List Plot) :
    plots.map frontBlankLines = directBlankLinesAll plots ↔
      (∀ x ∈ plots.head?, x.Agrees true) ∧ ∀ x ∈ plots.tail, x.Agrees false := by
  cases plots with
  | nil => simp [directBlankLinesAll]
  | cons x xs =>
    rw [directBlankLinesAll, List.map_cons, List.cons.injEq, front_eq_direct_iff,
      List.map_inj_left]
    simp [front_eq_direct_iff]

/-- The blank lines at the front of each gap are recorded. They are the ones directly in front of the node
as long as the file does not begin with blank lines alone and each comment has as many of them behind
it as in front. -/
theorem blankLines_parse {source : Text} {d : Document} (h : parse source = .ok d) :
    (∃ plots last, IsCut source plots last) ∧
      ∀ plots last, IsCut source plots last →
        d.blankLines = plots.map Plot.frontBlankLines ∧
          (d.blankLines = Plot.directBlankLinesAll plots ↔
            (∀ x ∈ plots.head?, x.Agrees true) ∧ ∀ x ∈ plots.tail, x.Agrees false) := by
  refine ⟨exists_isCut h, fun plots last hcut => ?_⟩
  have hfront := Document.blankLines_of_isCut h hcut
  refine ⟨hfront, ?_⟩
  rw [hfront]
  exact Plot.map_front_eq_direct_iff plots

/-- A comment with a blank line on either side, blank lines that are not empty, and no blank line at the
start. -/
def spacious : List Plot :=
  [⟨"// a\n".toList, .directive " package p ".toList⟩,
    ⟨" \n \n\t\n ".toList, .directive " import \"a\" ".toList⟩,
    ⟨"\n\nb\n\nc\n\n".toList, .block " templ t() ".toList "\n\n".toList " endtempl ".toList⟩]

theorem blankLines_parse_spacious :
    ∃ d, parse (spacious.flatMap Plot.spell ++ "\nd".toList) = .ok d ∧
      IsCut (spacious.flatMap Plot.spell ++ "\nd".toList) spacious "\nd".toList ∧
      d.blankLines = [0, 2, 1] ∧ d.blankLines = Plot.directBlankLinesAll spacious := by
  have hcut : IsCut (spacious.flatMap Plot.spell ++ "\nd".toList) spacious "\nd".toList :=
    ⟨by decide +kernel, by decide +kernel, rfl⟩
  have hvalue : (parse (spacious.flatMap Plot.spell ++ "\nd".toList)).toOption.map
      (fun d => d.blankLines.length) = some 3 := by
    decide +kernel
  obtain ⟨d, h, -⟩ := exists_of_map_toOption hvalue
  obtain ⟨hfront, hdirect⟩ := (blankLines_parse h).2 spacious "\nd".toList hcut
  refine ⟨d, h, hcut, ?_, hdirect.2 ⟨?_, ?_⟩⟩
  · rw [hfront]
    decide +kernel
  · simp only [← Plot.front_eq_direct_iff]
    decide +kernel
  · simp only [← Plot.front_eq_direct_iff]
    decide +kernel

/-- A blank line at the start of the file, and one behind a comment. -/
def overlooked : List Plot :=
  [⟨"\n".toList, .directive " package p ".toList⟩,
    ⟨"\n// c\n\n".toList, .directive " import \"a\" ".toList⟩]

/-- Neither of the two is recorded. -/
theorem not_direct_blankLines_overlooked :
    ∃ d, parse (overlooked.flatMap Plot.spell) = .ok d ∧
      IsCut (overlooked.flatMap Plot.spell) overlooked [] ∧
      d.blankLines = [0, 0] ∧ Plot.directBlankLinesAll overlooked = [1, 1] := by
  have hcut : IsCut (overlooked.flatMap Plot.spell) overlooked [] :=
    ⟨by decide +kernel, by decide, (List.append_nil _).symm⟩
  have hvalue : (parse (overlooked.flatMap Plot.spell)).toOption.map Document.blankLines =
      some [0, 0] := by
    decide +kernel
  obtain ⟨d, h, hd⟩ := exists_of_map_toOption hvalue
  exact ⟨d, h, hcut, hd, by decide +kernel⟩

end TemplLayout
