import TemplLayout.Proofs.Document.Run
import TemplLayout.Proofs.Text.Collapse

/-!
# TemplLayout.Proofs.Document.Comments

The text between the nodes of a document.

* `Extent`                    — what a node takes up in a source: a directive, or a block from its first
  directive to its last.
* `Plot`                      — a node's extent and the gap in front of it.
* `IsCut source plots last`   — the source cut into plots and a last gap. No directive opens in a gap.
* `Plot.nodesAll p plots`     — where the nodes stand, and each gap as a comment.
* `Document.Attached plots last d` — the document has these nodes and these comments; every character in
  a gap that shows is in one of them, and a block's body is read from its own markup.

A plot is one passage or two. Hence the passages of a document make a cut (`Runs.exists_plots`), and
whichever way a source is cut, reading a plot adds its node and its comment (`Runs.attached_plot`).
-/

namespace TemplLayout

open Text

/-- The comment that a gap makes. -/
def Text.comment? (gap : Text) : Option Text :=
  if gap.isBlank then none else some gap.trim

inductive Extent where
  | directive (body : Text)
  | block (head markup last : Text)
deriving DecidableEq, Repr

namespace Extent

def spell : Extent → Text
  | .directive body => (Piece.directive body).spell
  | .block head markup last =>
    (Piece.directive head).spell ++ (markup ++ (Piece.directive last).spell)

/-- The text inside a block. -/
def markup? : Extent → Option Text
  | .directive _ => none
  | .block _ markup _ => some markup

def WellFormed : Extent → Prop
  | .directive body =>
    Lacks closesDirective body ∧ Keyword.ofText? body.trim.firstWord ≠ some .templ
  | .block head markup last =>
    Lacks closesDirective head ∧ Keyword.ofText? head.trim.firstWord = some .templ ∧
      Lacks opensDirective markup ∧
      Lacks closesDirective last ∧ Keyword.ofText? last.trim.firstWord = some .endtempl

instance (x : Extent) : Decidable x.WellFormed :=
  match x with
  | .directive body => inferInstanceAs (Decidable
      (Lacks closesDirective body ∧ Keyword.ofText? body.trim.firstWord ≠ some .templ))
  | .block head markup last => inferInstanceAs (Decidable
      (Lacks closesDirective head ∧ Keyword.ofText? head.trim.firstWord = some .templ ∧
        Lacks opensDirective markup ∧
        Lacks closesDirective last ∧ Keyword.ofText? last.trim.firstWord = some .endtempl))

end Extent

structure Plot where
  gap : Text
  extent : Extent
deriving DecidableEq, Repr

namespace Plot

def spell (x : Plot) : Text :=
  x.gap ++ x.extent.spell

structure WellFormed (x : Plot) : Prop where
  gap : Lacks opensDirective x.gap
  extent : x.extent.WellFormed

instance (x : Plot) : Decidable x.WellFormed :=
  decidable_of_iff (Lacks opensDirective x.gap ∧ x.extent.WellFormed)
    ⟨fun h => ⟨h.1, h.2⟩, fun h => ⟨h.gap, h.extent⟩⟩

def nodesAll (p : Position) : List Plot → List (Position × Option Text)
  | [] => []
  | x :: xs => (p.after x.gap, x.gap.comment?) :: nodesAll (p.after x.spell) xs

/-- The passages that the plot is made of. -/
def passages (x : Plot) : List Passage :=
  match x.extent with
  | .directive body => [⟨x.gap, body⟩]
  | .block head markup last => [⟨x.gap, head⟩, ⟨markup, last⟩]

theorem spell_passages (x : Plot) : x.passages.flatMap Passage.spell = x.spell := by
  obtain ⟨gap, body | ⟨head, markup, last⟩⟩ := x
  · simp [passages, spell, Extent.spell, Passage.spell]
  · simp [passages, spell, Extent.spell, Passage.spell]

theorem WellFormed.passages {x : Plot} (h : x.WellFormed) : ∀ q ∈ x.passages, q.WellFormed := by
  obtain ⟨gap, body | ⟨head, markup, last⟩⟩ := x
  · simpa [Plot.passages] using Passage.WellFormed.mk h.gap h.extent.1
  · obtain ⟨hgap, hhead, -, hmarkup, hlast, -⟩ := h
    simpa [Plot.passages] using And.intro (Passage.WellFormed.mk hgap hhead)
      (Passage.WellFormed.mk hmarkup hlast)

theorem nodesAll_comments (p : Position) (xs : List Plot) :
    (nodesAll p xs).map (·.2) = xs.map (·.gap.comment?) := by
  induction xs generalizing p with
  | nil => rfl
  | cons x xs ih => rw [nodesAll, List.map_cons, List.map_cons, ih]

end Plot

structure IsCut (source : Text) (plots : List Plot) (last : Text) : Prop where
  each : ∀ x ∈ plots, x.WellFormed
  lacks : Lacks opensDirective last
  spell : source = plots.flatMap Plot.spell ++ last

/-! ## The nodes of a document -/

namespace Declaration

def node : Declaration → Position × Option Text
  | .importPath i => (i.position, i.gap.comment)
  | .templ t => (t.position, t.gap.comment)

def gap : Declaration → Gap
  | .importPath i => i.gap
  | .templ t => t.gap

def body? : Declaration → Option Forest
  | .importPath _ => none
  | .templ t => some t.body

end Declaration

/-- The forest of the text, wherever it stands. -/
def Forest.ReadFrom (body : Forest) (markup : Text) : Prop :=
  ∃ p ws, Forest.read p markup = .ok (body, ws)

namespace Document

def nodes (d : Document) : List (Position × Option Text) :=
  (d.package.position, d.package.gap.comment) :: d.declarations.map Declaration.node

/-- What stands in front of the nodes, each gap as it is recorded. -/
def gaps (d : Document) : List Gap :=
  d.package.gap :: d.declarations.map Declaration.gap

/-- The comments and the trailing text, in the order of the document. -/
def freeTexts (d : Document) : List Text :=
  (d.nodes.map (·.2) ++ [d.trailing]).reduceOption

/-- The document has the nodes and the comments of the plots. -/
structure Attached (plots : List Plot) (last : Text) (d : Document) : Prop where
  nodes : d.nodes = Plot.nodesAll .start plots
  trailing : d.trailing = last.comment?
  bodies : List.Forall₂ Forest.ReadFrom (d.templates.map (·.body))
    (plots.filterMap (·.extent.markup?))
  shown : Text.shown (plots.flatMap (·.gap) ++ last) = Text.shown d.freeTexts.flatten

end Document

/-- What shows in a gap shows in its comment. -/
theorem shown_comment? (gap : Text) : shown gap = shown (gap.comment?.getD []) := by
  rw [comment?]
  split
  · rename_i hblank
    exact shown_of_isBlank hblank
  · exact (shown_trim gap).symm

theorem shown_gaps (gaps : List Text) :
    shown gaps.flatten = shown (gaps.map comment?).reduceOption.flatten := by
  induction gaps with
  | nil => rfl
  | cons gap gaps ih =>
    rw [List.flatten_cons, shown_append, ih, shown_comment?, List.map_cons]
    cases gap.comment? with
    | none => rfl
    | some comment => exact (shown_append comment _).symm

/-! ## Plots and passages -/

namespace Reading

variable {p : Position} {r r' : Reading} {qs : List Passage} {package : Package}
  {ds : List Declaration} {ws : List Warning}

/-- The reading stands outside the blocks. -/
structure Outside (r : Reading) : Prop where
  stage : ∀ package t n, r.stage ≠ .block package t n
  fresh : r.stage = .preamble → r.declarations = []

def nodes (r : Reading) : List (Position × Option Text) :=
  match r.stage with
  | .preamble => []
  | .top package | .block package _ _ =>
    (package.position, package.gap.comment) :: r.declarations.reverse.map Declaration.node

def gaps (r : Reading) : List Gap :=
  match r.stage with
  | .preamble => []
  | .top package | .block package _ _ =>
    package.gap :: r.declarations.reverse.map Declaration.gap

def bodies (r : Reading) : List Forest :=
  r.declarations.reverse.filterMap Declaration.body?

theorem outside_start : Outside start :=
  ⟨by simp [start], fun _ => rfl⟩

theorem outside_top : Outside ⟨.top package, ds, .empty, ws⟩ :=
  ⟨by simp, by simp⟩

/-- The passages are those of plots. When the head of a block has been read, the rest of the block comes
first. -/
theorem Runs.exists_plots (h : Runs p qs r r') (hqs : ∀ q ∈ qs, q.WellFormed) (hr' : r'.Outside) :
    match r.stage with
    | .block _ _ _ => ∃ markup last, ∃ xs : List Plot,
        qs = ⟨markup, last⟩ :: xs.flatMap Plot.passages ∧
        Keyword.ofText? last.trim.firstWord = some .endtempl ∧ ∀ x ∈ xs, x.WellFormed
    | _ => ∃ xs : List Plot, qs = xs.flatMap Plot.passages ∧ ∀ x ∈ xs, x.WellFormed := by
  induction h with
  | @nil p r =>
    cases hstage : r.stage with
    | preamble => exact ⟨[], rfl, by simp⟩
    | top package => exact ⟨[], rfl, by simp⟩
    | block package t n => exact absurd hstage (hr'.stage package t n)
  | @cons p q qs _ _ _ hadvances _ ih =>
    rw [List.forall_mem_cons] at hqs
    obtain ⟨hq, hqs⟩ := hqs
    have hrest := ih hqs hr'
    have hplot : ∀ k, k ≠ .templ → (q.directive p).keyword? = some k →
        Plot.WellFormed ⟨q.before, .directive q.body⟩ := by
      intro k hk hkey
      refine ⟨hq.before, hq.body, fun htempl => hk ?_⟩
      exact Option.some.inj (hkey.symm.trans htempl)
    cases hadvances with
    | package hkey =>
      obtain ⟨xs, rfl, hxs⟩ := hrest
      exact ⟨_, rfl, List.forall_mem_cons.2 ⟨hplot .package (by decide) hkey, hxs⟩⟩
    | importPath hkey =>
      obtain ⟨xs, rfl, hxs⟩ := hrest
      exact ⟨_, rfl, List.forall_mem_cons.2 ⟨hplot .importPath (by decide) hkey, hxs⟩⟩
    | templ hkey =>
      -- This passage and the one behind it are one plot.
      obtain ⟨markup, last, xs, rfl, hlast, hxs⟩ := hrest
      have hend := hqs ⟨markup, last⟩ List.mem_cons_self
      refine ⟨⟨q.before, .block q.body markup last⟩ :: xs, rfl, List.forall_mem_cons.2 ⟨?_, hxs⟩⟩
      exact ⟨hq.before, hq.body, hkey, hend.before, hend.body, hlast⟩
    | endtempl hkey =>
      obtain ⟨xs, rfl, hxs⟩ := hrest
      exact ⟨q.before, q.body, xs, rfl, hkey, hxs⟩

/-- A plot adds its node and, when it is a block, its body. -/
theorem Runs.attached_plot {x : Plot} (hr : r.Outside) (hx : x.WellFormed)
    (h : Runs p (x.passages ++ qs) r r') :
    ∃ r₁, r₁.Outside ∧ Runs (p.after x.spell) qs r₁ r' ∧
      r₁.nodes = r.nodes ++ [(p.after x.gap, x.gap.comment?)] ∧
      r₁.gaps = r.gaps ++ [.ofText x.gap] ∧
      ∃ bodies, r₁.bodies = r.bodies ++ bodies ∧
        List.Forall₂ Forest.ReadFrom bodies x.extent.markup?.toList := by
  obtain ⟨gap, body | ⟨head, markup, last⟩⟩ := x
  · cases h with
    | cons hadvances hruns =>
      cases hadvances with
      | package =>
        obtain rfl := hr.fresh rfl
        exact ⟨_, outside_top, hruns, rfl, rfl, [], rfl, .nil⟩
      | importPath =>
        refine ⟨_, outside_top, hruns, ?_, ?_, [], ?_, .nil⟩
        · simp [nodes, Declaration.node, Gap.ofText, comment?, Passage.directive]
        · simp [gaps, Declaration.gap]
        · simp [bodies, Declaration.body?]
      | templ hkey => exact absurd hkey hx.extent.2
      | endtempl => exact absurd rfl (hr.stage _ _ _)
  · -- The head leads into the block and nowhere else, so the next passage is the end of the block.
    have hkey := hx.extent.2.1
    cases h with
    | cons hadvances hruns =>
      cases hadvances with
      | package hpackage => cases hpackage.symm.trans hkey
      | importPath himport => cases himport.symm.trans hkey
      | endtempl => exact absurd rfl (hr.stage _ _ _)
      | templ =>
        cases hruns with
        | cons hadvances hruns =>
          cases hadvances with
          | @endtempl _ _ _ _ _ body _ _ hread =>
            rw [← Position.after_append] at hruns
            refine ⟨_, outside_top, by simpa [Plot.spell, Extent.spell, Passage.spell] using hruns,
              ?_, ?_, [body], ?_, .cons ⟨_, _, hread⟩ .nil⟩
            · simp [nodes, Declaration.node, Gap.ofText, comment?, Passage.directive]
            · simp [gaps, Declaration.gap]
            · simp [bodies, Declaration.body?]

theorem Runs.attached {xs : List Plot} (hr : r.Outside) (hxs : ∀ x ∈ xs, x.WellFormed)
    (h : Runs p (xs.flatMap Plot.passages) r r') :
    r'.nodes = r.nodes ++ Plot.nodesAll p xs ∧
      r'.gaps = r.gaps ++ xs.map (fun x => .ofText x.gap) ∧
      ∃ bodies, r'.bodies = r.bodies ++ bodies ∧
        List.Forall₂ Forest.ReadFrom bodies (xs.filterMap (·.extent.markup?)) := by
  induction xs generalizing p r with
  | nil =>
    cases h
    exact ⟨(List.append_nil _).symm, (List.append_nil _).symm, [], (List.append_nil _).symm, .nil⟩
  | cons x xs ih =>
    rw [List.forall_mem_cons] at hxs
    rw [List.flatMap_cons] at h
    obtain ⟨r₁, hr₁, hruns, hnodes, hgaps, bs, hbs, hread⟩ := h.attached_plot hr hxs.1
    obtain ⟨hnodes', hgaps', bs', hbs', hread'⟩ := ih hr₁ hxs.2 hruns
    refine ⟨by rw [hnodes', hnodes, List.append_assoc]; rfl,
      by rw [hgaps', hgaps, List.append_assoc]; rfl, bs ++ bs', ?_, ?_⟩
    · rw [hbs', hbs, List.append_assoc]
    · have hmarkup : (x :: xs).filterMap (·.extent.markup?) =
          x.extent.markup?.toList ++ xs.filterMap (·.extent.markup?) := by
        cases hm : x.extent.markup? <;> simp [hm]
      rw [hmarkup]
      exact List.rel_append hread hread'

end Reading

theorem bodies_eq (ds : List Declaration) :
    ds.filterMap Declaration.body? = ((ds.filterMap fun
      | .importPath _ => none
      | .templ t => some t).map Templ.body) := by
  rw [List.map_filterMap]
  congr 1
  funext x
  cases x <;> rfl

open Reading

/-- However a source is cut, its document is what its plots run to. -/
theorem IsCut.exists_runs {source : Text} {d : Document} {plots : List Plot} {last : Text}
    (hcut : IsCut source plots last) (h : parse source = .ok d) :
    ∃ package ds ws, Runs .start (plots.flatMap Plot.passages) start ⟨.top package, ds, .empty, ws⟩ ∧
      d = ⟨package, ds.reverse, (Gap.ofText last).comment, ws⟩ := by
  have hpassages : ∀ q ∈ plots.flatMap Plot.passages, q.WellFormed := by
    intro q hq
    obtain ⟨x, hx, hq⟩ := List.mem_flatMap.1 hq
    exact (hcut.each x hx).passages q hq
  have hspell : (plots.flatMap Plot.passages).flatMap Passage.spell = plots.flatMap Plot.spell := by
    rw [List.flatMap_assoc]
    simp only [Plot.spell_passages]
  rw [hcut.spell, ← hspell] at h
  exact (parse_passages_eq_ok_iff hpassages hcut.lacks).1 h

theorem Document.gaps_of_isCut {source : Text} {d : Document} (h : parse source = .ok d)
    {plots : List Plot} {last : Text} (hcut : IsCut source plots last) :
    d.gaps = plots.map fun x => .ofText x.gap := by
  obtain ⟨package, ds, ws, hruns, rfl⟩ := hcut.exists_runs h
  exact (hruns.attached outside_start hcut.each).2.1

theorem Document.attached_of_isCut {source : Text} {d : Document} (h : parse source = .ok d)
    {plots : List Plot} {last : Text} (hcut : IsCut source plots last) :
    d.Attached plots last := by
  obtain ⟨package, ds, ws, hruns, rfl⟩ := hcut.exists_runs h
  obtain ⟨hnodes, -, bodies, hbodies, hread⟩ := hruns.attached outside_start hcut.each
  have hall : Document.nodes ⟨package, ds.reverse, (Gap.ofText last).comment, ws⟩ =
      Plot.nodesAll .start plots := hnodes
  refine ⟨hall, rfl, ?_, ?_⟩
  · have hds : ds.reverse.filterMap Declaration.body? = bodies := hbodies
    rw [← hds, bodies_eq] at hread
    exact hread
  · have hgaps := shown_gaps (plots.map (·.gap) ++ [last])
    have htrailing : (Gap.ofText last).comment = last.comment? := rfl
    rw [Document.freeTexts, hall, Plot.nodesAll_comments, htrailing]
    simpa [List.flatMap, Function.comp_def] using hgaps

theorem exists_isCut {source : Text} {d : Document} (h : parse source = .ok d) :
    ∃ plots last, IsCut source plots last := by
  obtain ⟨qs, u, hqs, hu, rfl⟩ := exists_passages_of_parse h
  obtain ⟨package, ds, ws, hruns, -⟩ := (parse_passages_eq_ok_iff hqs hu).1 h
  obtain ⟨xs, rfl, hxs⟩ := hruns.exists_plots hqs outside_top
  refine ⟨xs, u, hxs, hu, ?_⟩
  rw [List.flatMap_assoc]
  simp only [Plot.spell_passages]

/-- Every node has the comment that the gap in front of it makes, and the last gap makes the trailing
text. -/
theorem attached_parse {source : Text} {d : Document} (h : parse source = .ok d) :
    (∃ plots last, IsCut source plots last) ∧
      ∀ plots last, IsCut source plots last → d.Attached plots last := by
  exact ⟨exists_isCut h, fun plots last hcut => Document.attached_of_isCut h hcut⟩

/-- A gap of blank lines, gaps with a comment, one of them of two lines, and a block without a gap. -/
def commented : List Plot :=
  [⟨"// a\n".toList, .directive " package p ".toList⟩,
    ⟨"\n\n".toList, .directive "import \"x\"".toList⟩,
    ⟨"\nb\n c ".toList, .block " templ t()".toList "d <p>e</p> % ".toList "endtempl ".toList⟩,
    ⟨[], .block "templ u()".toList [] "endtempl".toList⟩]

theorem attached_parse_commented :
    ∃ d, parse (commented.flatMap Plot.spell ++ " f\n".toList) = .ok d ∧
      d.nodes.map (·.2) = [some "// a".toList, none, some "b\n c".toList, none] ∧
      d.trailing = some "f".toList ∧ d.Attached commented " f\n".toList := by
  have hvalue : (parse (commented.flatMap Plot.spell ++ " f\n".toList)).toOption.map
      (fun d => (d.nodes.map (·.2), d.trailing)) =
      some ([some "// a".toList, none, some "b\n c".toList, none], some "f".toList) := by
    decide +kernel
  cases h : parse (commented.flatMap Plot.spell ++ " f\n".toList) with
  | error fault =>
    rw [h] at hvalue
    cases hvalue
  | ok d =>
    rw [h] at hvalue
    obtain ⟨hcomments, htrailing⟩ := Prod.mk.inj (Option.some.inj hvalue)
    refine ⟨d, rfl, hcomments, htrailing, (attached_parse h).2 commented " f\n".toList ?_⟩
    exact ⟨by decide +kernel, by decide +kernel, rfl⟩

end TemplLayout
