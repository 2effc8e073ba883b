import TemplLayout.Proofs.Document.ReadBack
import TemplLayout.Proofs.Markup.Content
import TemplLayout.Proofs.Markup.SameLayout

/-!
# TemplLayout.Proofs.Document.Format

What a source and the text it is formatted to have in common.

* `Heading`           — a package, an import or a block by its directive and its comment.
* `format_format`     — formatting twice is formatting once.
* `headings_format`   — the imports move in front of the blocks, and nothing else happens to a
  heading.
* `sameLayout_format` — each block keeps its markup.
* `content_format`    — each block keeps its text, as long as nothing is warned of. A blank text in a
  void element is not warned of, and goes.

All of them read the output back (`format_readBack`).
-/

namespace TemplLayout

open Text Node

variable {source output : Text} {d : Document}

theorem exists_parse_of_format {source output : Text} (h : format source = .ok output) :
    ∃ d, parse source = .ok d ∧ d.render = output := by
  rw [format] at h
  cases hparse : parse source with
  | error fault =>
    rw [hparse] at h
    cases h
  | ok d =>
    rw [hparse] at h
    cases h
    exact ⟨d, rfl, rfl⟩

/-- A source that can be read is formatted, and its output is read as the document rewritten. -/
theorem format_readBack (h : parse source = .ok d) :
    ∃ output d', format source = .ok output ∧ parse output = .ok d' ∧ d.Rewritten d' ∧
      d'.render = output := by
  obtain ⟨d', hparse, hrewritten⟩ := Document.parse_render (wellFormed_parse h)
  refine ⟨d.render, d', ?_, hparse, hrewritten, hrewritten.render_eq⟩
  rw [format, h]
  rfl

/-! ## Twice -/

theorem format_format (h : format source = .ok output) : format output = .ok output := by
  cases hparse : parse source with
  | error e =>
    rw [format, hparse] at h
    cases h
  | ok d =>
    obtain ⟨output', d', hformat, hparse', -, hrender⟩ := format_readBack hparse
    rw [h] at hformat
    cases hformat
    rw [format, hparse']
    exact congrArg Except.ok hrender

/-- An import behind a block, a void element that is left open, a stray `<`. -/
def scattered : Text :=
  Directive.spell "package p".toList ++ Directive.spell "templ t(x)".toList ++
    "<p> a <BR\n>b< c </p><pre> d\n</pre>".toList ++ Directive.spell "endtempl".toList ++
    "note ".toList ++ Directive.spell "import \"q\"".toList ++ " end".toList

def gathered : Text :=
  Directive.spell "package p".toList ++ "\n\nnote\n".toList ++
    Directive.spell "import \"q\"".toList ++ "\n\n".toList ++
    Directive.spell "templ t(x)".toList ++
    "\n\t<p> a <BR/>b< c </p><pre> d\n</pre>\n".toList ++ Directive.spell "endtempl".toList ++
    "\n\nend\n\n".toList

theorem format_format_scattered :
    format scattered = .ok gathered ∧ format gathered = .ok gathered := by
  have hvalue : (format scattered).toOption.map id = some gathered := by decide +kernel
  obtain ⟨output, h, rfl⟩ := exists_of_map_toOption hvalue
  exact ⟨h, format_format h⟩

/-! ## Headings -/

/-- What a document says outside its blocks, one directive at a time. -/
inductive Heading where
  | package (name : Text) (comment : Option Text)
  | importPath (path : Text) (comment : Option Text)
  | templ (signature : Signature) (comment : Option Text)
deriving DecidableEq, Repr

def Package.heading (p : Package) : Heading :=
  .package p.name p.gap.comment

def Import.heading (i : Import) : Heading :=
  .importPath i.path i.gap.comment

def Templ.heading (t : Templ) : Heading :=
  .templ t.signature t.gap.comment

def Declaration.heading : Declaration → Heading
  | .importPath i => i.heading
  | .templ t => t.heading

/-- In the order in which they stand. -/
def Document.headings (d : Document) : List Heading :=
  d.package.heading :: d.declarations.map Declaration.heading

theorem Document.Rewritten.headings_eq {d' : Document} (h : d.Rewritten d') :
    d'.headings =
      d.package.heading :: (d.imports.map Import.heading ++ d.templates.map Templ.heading) := by
  have hpackage : d'.package.heading = d.package.heading := by
    rw [Package.heading, Package.heading, h.name, h.comment]
  have himports : d'.imports.map Import.heading = d.imports.map Import.heading := by
    refine map_congr_forall₂ (h.imports.imp fun i j hij => ?_)
    rw [Import.heading, Import.heading, hij.path, hij.comment]
  have htemplates : d'.templates.map Templ.heading = d.templates.map Templ.heading := by
    refine map_congr_forall₂ (h.templates.imp fun t u htu => ?_)
    rw [Templ.heading, Templ.heading, htu.signature, htu.comment]
  rw [headings, hpackage, h.declarations, List.map_append, List.map_map, List.map_map, ← himports,
    ← htemplates]
  rfl

theorem headings_format (h : parse source = .ok d) :
    ∃ output d', format source = .ok output ∧ parse output = .ok d' ∧
      d'.headings =
        d.package.heading :: (d.imports.map Import.heading ++ d.templates.map Templ.heading) ∧
      d'.trailing = d.trailing := by
  obtain ⟨output, d', hformat, hparse, hrewritten, -⟩ := format_readBack h
  exact ⟨output, d', hformat, hparse, hrewritten.headings_eq, hrewritten.trailing⟩

theorem headings_format_scattered :
    ∃ output d', format scattered = .ok output ∧ parse output = .ok d' ∧
      d'.headings = [.package "p".toList none, .importPath "\"q\"".toList (some "note".toList),
        .templ ⟨"t".toList, "x".toList⟩ none] ∧
      d'.trailing = some "end".toList := by
  have hvalue : (parse scattered).toOption.map (fun d =>
      (d.package.heading :: (d.imports.map Import.heading ++ d.templates.map Templ.heading),
        d.trailing)) =
      some ([.package "p".toList none, .importPath "\"q\"".toList (some "note".toList),
        .templ ⟨"t".toList, "x".toList⟩ none], some "end".toList) := by
    decide +kernel
  obtain ⟨d, h, hd⟩ := exists_of_map_toOption hvalue
  obtain ⟨hheadings, htrailing⟩ := Prod.mk.inj hd
  rw [← hheadings, ← htrailing]
  exact headings_format h

/-! ## Markup -/

/-- There are as many blocks as before, and each has the layout of the block it was. -/
theorem sameLayout_format (h : parse source = .ok d) :
    ∃ output d', format source = .ok output ∧ parse output = .ok d' ∧
      List.Forall₂ (fun t u : Templ => SameLayout (unplacedAll t.body) (unplacedAll u.body))
        d.templates d'.templates := by
  obtain ⟨output, d', hformat, hparse, hrewritten, -⟩ := format_readBack h
  refine ⟨output, d', hformat, hparse, hrewritten.templates.imp fun t u htu => ?_⟩
  exact sameLayout_of_layout_eq htu.lines.symm

theorem sameLayout_format_scattered :
    ∃ d output d', parse scattered = .ok d ∧ d.templates.length = 1 ∧
      format scattered = .ok output ∧ parse output = .ok d' ∧
      List.Forall₂ (fun t u : Templ => SameLayout (unplacedAll t.body) (unplacedAll u.body))
        d.templates d'.templates := by
  have hvalue : (parse scattered).toOption.map (·.templates.length) = some 1 := by decide +kernel
  obtain ⟨d, h, hd⟩ := exists_of_map_toOption hvalue
  obtain ⟨output, d', hformat⟩ := sameLayout_format h
  exact ⟨d, output, d', h, hd, hformat⟩

/-! ## Text -/

theorem Templ.Rewritten.collapsed_content {t u : Templ} (h : t.Rewritten u) (ht : t.WellFormed) :
    collapsed (contentAll u.body) = collapsed (keptContentAll t.body) := by
  have hbody := ht.body.unplaced
  calc collapsed (contentAll u.body)
    _ = collapsed (contentAll (relaid 0 (layout (unplacedAll t.body)))) := by
      rw [← h.body, contentAll_unplacedAll]
    _ = collapsed (contentAll (sealedAll (unplacedAll t.body))) := collapsed_relaid hbody 0
    _ = collapsed (keptContentAll t.body) := by
      rw [contentAll_sealedAll hbody, keptContentAll_unplacedAll]

theorem Document.WellFormed.loadedAll_eq_nil (h : d.WellFormed) (hw : d.warnings = []) {t : Templ}
    (ht : t ∈ d.templates) : loadedAll t.body = [] := by
  rw [h.warnings, List.flatMap_eq_nil_iff] at hw
  have hnone : Forest.warnings t.body = [] := hw (.templ t) (mem_templates ht)
  rw [Forest.warnings_eq_nil_iff, loadedAll_unplacedAll, List.map_eq_nil_iff] at hnone
  exact hnone

/-- Apart from the void elements a block keeps its text, spaces included. In them there is no
character that shows. -/
theorem content_format (h : parse source = .ok d) (hw : d.warnings = []) :
    ∃ output d', format source = .ok output ∧ parse output = .ok d' ∧
      List.Forall₂ (fun t u : Templ =>
          collapsed (contentAll u.body) = collapsed (keptContentAll t.body) ∧
            shown (contentAll u.body) = shown (contentAll t.body))
        d.templates d'.templates := by
  have hd := wellFormed_parse h
  obtain ⟨output, d', hformat, hparse, hrewritten, -⟩ := format_readBack h
  refine ⟨output, d', hformat, hparse, ?_⟩
  have hblocks : ∀ t ∈ d.templates, t.WellFormed ∧ loadedAll t.body = [] := fun t ht =>
    ⟨hd.declarations _ (Document.mem_templates ht), hd.loadedAll_eq_nil hw ht⟩
  refine ((List.forall₂_and_left _ _).2 ⟨hblocks, hrewritten.templates⟩).imp ?_
  rintro t u ⟨⟨ht, hloaded⟩, htu⟩
  have hcollapsed := htu.collapsed_content ht
  refine ⟨hcollapsed, ?_⟩
  rw [← shown_collapsed, hcollapsed, shown_collapsed, shown_contentAll hloaded]

theorem content_format_scattered :
    ∃ d output d', parse scattered = .ok d ∧ d.warnings = [] ∧ d.templates.length = 1 ∧
      format scattered = .ok output ∧ parse output = .ok d' ∧
      List.Forall₂ (fun t u : Templ =>
          collapsed (contentAll u.body) = collapsed (keptContentAll t.body) ∧
            shown (contentAll u.body) = shown (contentAll t.body))
        d.templates d'.templates := by
  have hvalue : (parse scattered).toOption.map (fun d => (d.warnings, d.templates.length)) =
      some ([], 1) := by
    decide +kernel
  obtain ⟨d, h, hd⟩ := exists_of_map_toOption hvalue
  obtain ⟨hwarnings, hlength⟩ := Prod.mk.inj hd
  obtain ⟨output, d', hformat⟩ := content_format h hwarnings
  exact ⟨d, output, d', h, hwarnings, hlength, hformat⟩

/-- The text of each block, collapsed. -/
def Document.contents (d : Document) : List Text :=
  d.templates.map fun t => collapsed (contentAll t.body)

/-- Nothing but a space in a void element. -/
def padded : Text :=
  Directive.spell "package p".toList ++ Directive.spell "templ t()".toList ++
    "a<br> </br>b".toList ++ Directive.spell "endtempl".toList

/-- The space goes, without a warning. -/
theorem not_content_format_padded :
    ∃ d output d', parse padded = .ok d ∧ d.warnings = [] ∧
      format padded = .ok output ∧ parse output = .ok d' ∧
      ¬ List.Forall₂ (fun t u : Templ =>
          collapsed (contentAll u.body) = collapsed (contentAll t.body))
        d.templates d'.templates := by
  have hvalue : (parse padded).toOption.map (fun d => (d.warnings, d.contents)) =
      some ([], ["a b".toList]) := by
    decide +kernel
  have hwritten : ((parse padded).toOption.bind fun d => (parse d.render).toOption).map
      Document.contents = some ["ab".toList] := by
    decide +kernel
  obtain ⟨d, h, hd⟩ := exists_of_map_toOption hvalue
  obtain ⟨hwarnings, hcontents⟩ := Prod.mk.inj hd
  rw [h] at hwritten
  obtain ⟨d', hparse, hcontents'⟩ := exists_of_map_toOption (x := parse d.render) hwritten
  refine ⟨d, d.render, d', h, hwarnings, ?_, hparse, fun hsame => ?_⟩
  · rw [format, h]
    rfl
  · have hequal : d'.contents = d.contents := map_congr_forall₂ hsame
    rw [hcontents, hcontents'] at hequal
    exact absurd hequal (by decide)

end TemplLayout
