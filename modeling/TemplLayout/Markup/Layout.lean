import TemplLayout.Markup.Node

/-!
# TemplLayout.Markup.Layout

The layout of a forest: the lines it is written on.

* `Line`          — an element with its content on lines of its own, or nodes that share a line.
* `layout nodes`  — the lines of a list of siblings. A line ends exactly where the siblings have
  blank text between them, so nodes that touch stay together and nothing that touches is parted.
* `isBlock`       — an element that can have its content on lines of its own: there is blank text
  inside both of its tags, it has elements in it, and its content may be moved at all.
* `Line.rows d`   — the line at depth `d` as rows, each of them a text that begins on a line of its
  own; `Row.spell` indents it.
-/

namespace TemplLayout

inductive Line where
  | block (tag : Tag) (inner : List Line)
  | inline (nodes : List (Node Unit))
deriving Repr

/-- A node as it stands on a line that it shares, and the line that it makes when it is alone. -/
structure LineItem where
  shared : Node Unit
  alone : Line

/-- The longest stretches without a `none`. -/
def stretches {α : Type} : List (Option α) → List (List α)
  | [] => []
  | none :: rest => stretches rest
  | [some a] => [[a]]
  | some a :: none :: rest => [a] :: stretches rest
  | some a :: some b :: rest =>
    match stretches (some b :: rest) with
    | [] => [[a]]
    | line :: lines => (a :: line) :: lines

def Line.ofItems : List LineItem → Line
  | [item] => item.alone
  | items => .inline (items.map (·.shared))

def blankAtStart : List (Node Unit) → Bool
  | .text content :: _ => content.startsBlank
  | _ => false

def blankAtEnd (nodes : List (Node Unit)) : Bool :=
  match nodes.getLast? with
  | some (.text content) => content.endsBlank
  | _ => false

def isBlock (tag : Tag) (children : List (Node Unit)) : Bool :=
  !Node.isChildless tag && !isPreformatted tag.name && children.any (·.isElement) &&
    blankAtStart children && blankAtEnd children

/-- The items of a text, with a `none` at each blank end. -/
def textItems (content : Text) : List (Option LineItem) :=
  if content.isBlank then [none]
  else
    let core := .text content.trim
    (if content.startsBlank then [none] else []) ++ [some ⟨core, .inline [core]⟩] ++
      (if content.endsBlank then [none] else [])

mutual

/-- The items of a node, with a `none` wherever a line ends. -/
def Node.items : Node Unit → List (Option LineItem)
  | .text content => textItems content
  | .element tag place children =>
    let shared := (Node.element tag place children).sealed
    if isBlock tag children then
      [some ⟨shared, .block tag ((stretches (Node.itemsAll children)).map Line.ofItems)⟩]
    else [some ⟨shared, .inline [shared]⟩]

def Node.itemsAll : List (Node Unit) → List (Option LineItem)
  | [] => []
  | n :: ns => n.items ++ Node.itemsAll ns

end

def layout (nodes : List (Node Unit)) : List Line :=
  (stretches (Node.itemsAll nodes)).map Line.ofItems

/-- A text that begins a line of its own at a depth. The text can go on over several lines. -/
structure Row where
  depth : Nat
  content : Text
deriving DecidableEq, Repr

/-- The row as it is written, one tab for each level. -/
def Row.spell (r : Row) : Text :=
  List.replicate r.depth '\t' ++ r.content ++ ['\n']

mutual

def Line.rows (depth : Nat) : Line → List Row
  | .block tag inner =>
    ⟨depth, tag.spell⟩ :: Line.rowsAll (depth + 1) inner ++ [⟨depth, tag.spellClosing⟩]
  | .inline nodes => [⟨depth, Node.spellAll nodes⟩]

def Line.rowsAll (depth : Nat) : List Line → List Row
  | [] => []
  | l :: ls => l.rows depth ++ Line.rowsAll depth ls

end

end TemplLayout
