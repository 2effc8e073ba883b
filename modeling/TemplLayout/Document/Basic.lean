import TemplLayout.Directive
import TemplLayout.Markup.Node
import TemplLayout.Markup.Warning

/-!
# TemplLayout.Document.Basic

A template file as it was written.

* `Gap`         — what stands before a directive: blank lines, and a comment.
* `Package`, `Import`, `Templ` — the three things a file consists of.
* `Declaration` — an import or a templ block.
* `Document`    — the package, the declarations in source order, the text after the last of them,
  and the warnings.
-/

namespace TemplLayout

structure Gap where
  /-- The blank lines that come first. They are not written again. -/
  blankLines : Nat
  /-- The text, trimmed. -/
  comment : Option Text
deriving DecidableEq, Repr

namespace Gap

def empty : Gap := ⟨0, none⟩

/-- The first newline of a gap ends the line of what comes before; each further one among the
leading blank characters ends a blank line. -/
def ofText (t : Text) : Gap where
  blankLines := t.leadingBlanks.count '\n' - 1
  comment := if t.isBlank then none else some t.trim

end Gap

structure Package where
  name : Text
  gap : Gap
  position : Position
deriving DecidableEq, Repr

structure Import where
  /-- The path as it is written, quotes included. -/
  path : Text
  gap : Gap
  position : Position
deriving DecidableEq, Repr

structure Templ where
  signature : Signature
  body : Forest
  gap : Gap
  position : Position
deriving DecidableEq, Repr

inductive Declaration where
  | importPath (i : Import)
  | templ (t : Templ)
deriving DecidableEq, Repr

structure Document where
  package : Package
  declarations : List Declaration
  trailing : Option Text
  warnings : List Warning
deriving DecidableEq, Repr

namespace Document

def imports (d : Document) : List Import :=
  d.declarations.filterMap fun
    | .importPath i => some i
    | .templ _ => none

def templates (d : Document) : List Templ :=
  d.declarations.filterMap fun
    | .importPath _ => none
    | .templ t => some t

end Document

end TemplLayout
