import TemplLayout.Text.Basic

/-!
# TemplLayout.Keyword

The words a directive can begin with, and the shape of the directive that each begins.
-/

namespace TemplLayout

inductive Keyword where
  | package
  | importPath
  | templ
  | endtempl
deriving DecidableEq, Repr

namespace Keyword

def spelling : Keyword → Text
  | .package => "package".toList
  | .importPath => "import".toList
  | .templ => "templ".toList
  | .endtempl => "endtempl".toList

def ofText? (t : Text) : Option Keyword :=
  [package, importPath, templ, endtempl].find? (·.spelling == t)

/-- The directive as a person would be told to write it, without its delimiters. -/
def shape : Keyword → String
  | .package => "package <name>"
  | .importPath => "import \"<path>\""
  | .templ => "templ <name>(<params>)"
  | .endtempl => "endtempl"

@[simp] theorem ofText?_spelling (k : Keyword) : ofText? k.spelling = some k := by
  cases k <;> decide

theorem ofText?_eq_some {t : Text} {k : Keyword} (h : ofText? t = some k) : t = k.spelling := by
  have := List.find?_some h
  simpa using (eq_of_beq this).symm

end Keyword

end TemplLayout
