import TemplLayout.Keyword
import TemplLayout.Position

/-!
# TemplLayout.Fault

Why a source is no template. A source is read whole or not at all: the first fault found ends the
reading.

* `Fault`            — the ways to be malformed, each with what a message needs.
* `Fault.position f` — where `f` was detected.
* `Fault.message f`  — `f` in words, headed by its position.
-/

namespace TemplLayout

inductive Fault where
  /-- A directive is opened and never closed. -/
  | unterminatedDirective (position : Position)
  /-- The first directive does not name the package, or there is no directive. -/
  | missingPackage (position : Position)
  /-- The package is named again. -/
  | duplicatePackage (position first : Position)
  /-- A directive begins with a known word and goes on in the wrong shape. -/
  | malformedDirective (keyword : Keyword) (position : Position)
  /-- A directive stands where it has no place. -/
  | unexpectedDirective (directive : Text) (position : Position)
  /-- A block begins inside the block `outer`. -/
  | nestedTempl (outer : Text) (position : Position)
  /-- The source ends inside the block `name`. -/
  | unterminatedTempl (name : Text) (position : Position)
  /-- A closing tag meets an open element of another name. -/
  | mismatchedTag (opened closed : Text) (position : Position)
  /-- A closing tag meets no open element. -/
  | unexpectedClosingTag (tag : Text) (position : Position)
  /-- An element is open when its block ends. -/
  | unclosedElement (tag : Text) (position : Position)
  /-- A tag has no `>`. -/
  | unterminatedTag (tag : Text) (position : Position)
deriving DecidableEq, Repr

namespace Fault

def position : Fault → Position
  | .unterminatedDirective p | .missingPackage p | .duplicatePackage p _
  | .malformedDirective _ p | .unexpectedDirective _ p | .nestedTempl _ p
  | .unterminatedTempl _ p | .mismatchedTag _ _ p | .unexpectedClosingTag _ p
  | .unclosedElement _ p | .unterminatedTag _ p => p

/-- A directive as it is written, delimiters included. -/
def quoted (directive : String) : String :=
  "`\x7b% " ++ directive ++ " %\x7d`"

/-- The fault in words. -/
def reason : Fault → String
  | .unterminatedDirective _ => "unterminated directive, expected `%\x7d`"
  | .missingPackage _ => "expected " ++ quoted Keyword.package.shape ++ " as the first directive"
  | .duplicatePackage _ first =>
    "duplicate package declaration, first declared at " ++ first.label
  | .malformedDirective keyword _ =>
    "malformed `" ++ keyword.spelling.string ++ "` directive, expected " ++ quoted keyword.shape
  | .unexpectedDirective directive _ => "unexpected directive " ++ quoted directive.string
  | .nestedTempl outer _ =>
    "`templ` blocks cannot be nested, `" ++ outer.string ++ "` is still open"
  | .unterminatedTempl name _ =>
    "`templ " ++ name.string ++ "` is missing " ++ quoted Keyword.endtempl.spelling.string
  | .mismatchedTag opened closed _ =>
    "mismatched closing tag `</" ++ closed.string ++ ">`, expected `</" ++ opened.string ++ ">`"
  | .unexpectedClosingTag tag _ =>
    "closing tag `</" ++ tag.string ++ ">` has no matching opening tag"
  | .unclosedElement tag _ => "element `<" ++ tag.string ++ ">` is never closed"
  | .unterminatedTag tag _ => "tag `<" ++ tag.string ++ "` is missing its closing `>`"

def message (f : Fault) : String :=
  f.position.label ++ ": " ++ f.reason

end Fault

end TemplLayout
