import TemplLayout.Document.Reading
import TemplLayout.Markup.Layout

/-!
# TemplLayout.Document.Canonical

The one way in which a document is written: the package, the imports, the blocks and the trailing
text, each group followed by a blank line, each comment on lines of its own above what it belongs
to.

* `Document.render d` — the document as it is written. It depends on no position and on no blank
  line of the source.
* `format source`     — a source read and written again.
-/

namespace TemplLayout

/-- A comment on lines of its own. -/
def Gap.render (g : Gap) : Text :=
  match g.comment with
  | none => []
  | some comment => comment ++ ['\n']

/-- The directive of a keyword and its argument, one space between them. -/
def Keyword.directive (k : Keyword) (argument : Text) : Text :=
  Directive.spell (k.spelling ++ ' ' :: argument)

def Package.render (p : Package) : Text :=
  p.gap.render ++ Keyword.package.directive p.name ++ ['\n']

def Import.render (i : Import) : Text :=
  i.gap.render ++ Keyword.importPath.directive i.path ++ ['\n']

/-- A block without what stands before it: the directives at the margin, the markup one level in. -/
def Templ.rows (t : Templ) : List Row :=
  ⟨0, Keyword.templ.directive t.signature.spell⟩ ::
    Line.rowsAll 1 (layout (Node.unplacedAll t.body)) ++
    [⟨0, Directive.spell Keyword.endtempl.spelling⟩]

def Templ.render (t : Templ) : Text :=
  t.gap.render ++ t.rows.flatMap Row.spell

namespace Document

def renderImports (d : Document) : Text :=
  match d.imports with
  | [] => []
  | imports => imports.flatMap Import.render ++ ['\n']

def renderTrailing (d : Document) : Text :=
  match d.trailing with
  | none => []
  | some trailing => trailing ++ ['\n', '\n']

def render (d : Document) : Text :=
  d.package.render ++ ['\n'] ++ d.renderImports ++
    d.templates.flatMap (fun t => t.render ++ ['\n']) ++ d.renderTrailing

end Document

def format (source : Text) : Except Fault Text :=
  (parse source).map Document.render

end TemplLayout
