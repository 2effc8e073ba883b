import TemplLayout.Document.Basic
import TemplLayout.Text.Quoted

/-!
# TemplLayout.Outline

The outline of a document, for a person who wants to see how a file was read: one line for each
comment, declaration, node of markup and warning, in source order, markup indented by its depth.
-/

namespace TemplLayout

/-- What kind of element a tag makes. -/
def Tag.role (tag : Tag) : String :=
  if tag.selfClosed then "self-closed" else if isVoid tag.name then "void" else "element"

def indentation (depth : Nat) : String :=
  String.ofList (List.replicate (2 * depth) ' ')

mutual

def Node.outline (depth : Nat) : Node Position → List String
  | .text content => [indentation depth ++ "text " ++ content.quoted]
  | .element tag place children =>
    (indentation depth ++ tag.role ++ "@" ++ place.label ++ " <" ++ tag.name.string ++ "> " ++
      tag.attrs.string) :: Node.outlineAll (depth + 1) children

def Node.outlineAll (depth : Nat) : List (Node Position) → List String
  | [] => []
  | n :: ns => n.outline depth ++ Node.outlineAll depth ns

end

def Gap.outline (g : Gap) : List String :=
  match g.comment with
  | none => []
  | some comment => ["comment " ++ comment.quoted]

def Package.outline (p : Package) : List String :=
  p.gap.outline ++ ["package@" ++ p.position.label ++ " '" ++ p.name.string ++ "'"]

def Declaration.outline : Declaration → List String
  | .importPath i =>
    i.gap.outline ++
      ["import@" ++ i.position.label ++ " " ++ i.path.string ++ " (blank lines before: " ++
        toString i.gap.blankLines ++ ")"]
  | .templ t =>
    t.gap.outline ++
      ("templ@" ++ t.position.label ++ " " ++ t.signature.spell.string) ::
        Node.outlineAll 1 t.body

def Document.outline (d : Document) : List String :=
  d.package.outline ++ d.declarations.flatMap Declaration.outline ++
    (d.trailing.toList.map fun trailing => "trailing " ++ trailing.quoted) ++
    d.warnings.map fun w => "warning: " ++ w.message

end TemplLayout
