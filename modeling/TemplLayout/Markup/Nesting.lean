import TemplLayout.Fault
import TemplLayout.Feed
import TemplLayout.Markup.Node
import TemplLayout.Markup.Token
import TemplLayout.Markup.Warning

/-!
# TemplLayout.Markup.Nesting

Reading a forest off the tokens of a block.

* `OpenElement`      — an element whose closing tag has not come yet, with the children so far.
* `Nesting`          — the open elements, innermost first, what stands outside all of them, and the
  warnings so far.
* `Nesting.step`     — one token.
* `Nesting.finish`   — the forest, once the block has ended.
* `Forest.read p t`  — the forest and the warnings of the text `t`, which stands at `p`.

A void element may be left open. A closing tag of an element around it, or the end of the block,
then closes it as empty, and what it had collected stands behind it instead.
-/

namespace TemplLayout

structure OpenElement where
  tag : Tag
  position : Position
  /-- The children so far, latest first. -/
  children : Forest
deriving DecidableEq, Repr

namespace OpenElement

/-- All of the content, when `carried` comes after the children so far. -/
def content (e : OpenElement) (carried : Forest) : Forest :=
  e.children.reverseAux carried

/-- The element left empty, and what would have been its content behind it. -/
def spilled (e : OpenElement) (carried : Forest) : Forest :=
  .element e.tag e.position [] :: e.content carried

end OpenElement

structure Nesting where
  /-- Innermost first. -/
  opened : List OpenElement
  /-- What stands outside all open elements, latest first. -/
  outside : Forest
  warnings : List Warning
deriving DecidableEq, Repr

namespace Nesting

def empty : Nesting := ⟨[], [], []⟩

/-- Puts a node into the innermost open element. -/
def push (s : Nesting) (node : Node Position) : Nesting :=
  match s.opened with
  | [] => { s with outside := node :: s.outside }
  | e :: outer => { s with opened := { e with children := node :: e.children } :: outer }

/-- The innermost open element of the name `name`, with its content, and the elements around it.
The void elements inside it are spilled into `carried`; any other element inside it is a fault. -/
def unwind (name : Text) (position : Position) (carried : Forest) :
    List OpenElement → Except Fault (OpenElement × Forest × List OpenElement)
  | [] => .error (.unexpectedClosingTag name position)
  | e :: outer =>
    if sameName e.tag.name name then .ok (e, e.content carried, outer)
    else if isVoid e.tag.name then unwind name position (e.spilled carried) outer
    else .error (.mismatchedTag e.tag.name name position)

/-- The warning that a closed element gives rise to. -/
def warningsOf (e : OpenElement) (content : Forest) : List Warning :=
  if isVoid e.tag.name && content.any (!·.isBlank) then [⟨e.tag.name, e.position⟩] else []

def step (s : Nesting) : Token → Nesting × Option Fault
  | .text content => (s.push (.text content), none)
  | .mark (.opening tag) position =>
    if tag.selfClosed then (s.push (.element tag position []), none)
    else ({ s with opened := ⟨tag, position, []⟩ :: s.opened }, none)
  | .mark (.closing name) position =>
    match unwind name position [] s.opened with
    | .error fault => (s, some fault)
    | .ok (e, content, outer) =>
      let s' : Nesting := ⟨outer, s.outside, s.warnings ++ warningsOf e content⟩
      (s'.push (.element e.tag e.position content), none)
  | .unterminated name position => (s, some (.unterminatedTag name position))

/-- Closes what is still open, provided that it is void. -/
def settle (carried : Forest) : List OpenElement → Except Fault Forest
  | [] => .ok carried
  | e :: outer =>
    if isVoid e.tag.name then settle (e.spilled carried) outer
    else .error (.unclosedElement e.tag.name e.position)

def finish (s : Nesting) : Except Fault Forest :=
  (settle [] s.opened).map s.outside.reverseAux

end Nesting

/-- The forest of the text `t`, which stands at `p`, and the warnings about it. -/
def Forest.read (p : Position) (t : Text) : Except Fault (Forest × List Warning) :=
  match feed Nesting.step .empty (Token.ofText p t) with
  | (_, some fault) => .error fault
  | (s, none) => s.finish.map fun forest => (forest, s.warnings)

theorem Forest.read_eq_ok_iff {p : Position} {t : Text} {forest : Forest}
    {warnings : List Warning} :
    Forest.read p t = .ok (forest, warnings) ↔
      ∃ s, feed Nesting.step .empty (Token.ofText p t) = (s, none) ∧ s.finish = .ok forest ∧
        s.warnings = warnings := by
  rw [Forest.read]
  constructor
  · intro h
    split at h
    · cases h
    · rename_i s hfeed
      cases hfinish : s.finish with
      | error fault =>
        rw [hfinish] at h
        cases h
      | ok f =>
        rw [hfinish] at h
        cases h
        exact ⟨s, hfeed, hfinish, rfl⟩
  · rintro ⟨s, hfeed, hfinish, rfl⟩
    rw [hfeed]
    simp [hfinish, Except.map]

end TemplLayout
