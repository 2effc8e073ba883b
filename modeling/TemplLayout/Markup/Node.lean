import TemplLayout.Markup.Tag
import TemplLayout.Markup.Name
import TemplLayout.Position

/-!
# TemplLayout.Markup.Node

Markup as a forest.

* `Node π`         — a text, or an element with its tag, its children and a mark of type `π`: its
  position as far as a source is concerned, nothing where positions do not matter.
* `Node.unplaced`  — the node without its positions.
* `Node.spell`     — the node as it is written, text verbatim.
* `Node.sealed`    — the node as it is to be written: a void element closes itself and has no
  content, and so has an element that closed itself before.
-/

namespace TemplLayout

inductive Node (π : Type) where
  | text (content : Text)
  | element (tag : Tag) (place : π) (children : List (Node π))
deriving Repr

namespace Node

variable {π : Type}

mutual

def decEq [DecidableEq π] : (a b : Node π) → Decidable (a = b)
  | .text s, .text t =>
    if h : s = t then isTrue (by rw [h]) else isFalse (by simpa using h)
  | .element tag place children, .element tag' place' children' =>
    if h : tag = tag' ∧ place = place' then
      match decEqAll children children' with
      | isTrue hc => isTrue (by rw [h.1, h.2, hc])
      | isFalse hc => isFalse (by simp [hc])
    else isFalse (by grind)
  | .text _, .element _ _ _ => isFalse (by simp)
  | .element _ _ _, .text _ => isFalse (by simp)

def decEqAll [DecidableEq π] : (as bs : List (Node π)) → Decidable (as = bs)
  | [], [] => isTrue rfl
  | [], _ :: _ => isFalse (by simp)
  | _ :: _, [] => isFalse (by simp)
  | a :: as, b :: bs =>
    match decEq a b with
    | isFalse h => isFalse (by simp [h])
    | isTrue h =>
      match decEqAll as bs with
      | isTrue hs => isTrue (by rw [h, hs])
      | isFalse hs => isFalse (by simp [hs])

end

instance [DecidableEq π] : DecidableEq (Node π) := decEq

mutual

def unplaced : Node π → Node Unit
  | .text content => .text content
  | .element tag _ children => .element tag () (unplacedAll children)

def unplacedAll : List (Node π) → List (Node Unit)
  | [] => []
  | n :: ns => n.unplaced :: unplacedAll ns

end

mutual

def spell : Node π → Text
  | .text content => content
  | .element tag _ children =>
    tag.spell ++ (if tag.selfClosed then [] else spellAll children ++ tag.spellClosing)

def spellAll : List (Node π) → Text
  | [] => []
  | n :: ns => n.spell ++ spellAll ns

end

/-- The tag has no content to be written: its element is void or closes itself. -/
def isChildless (tag : Tag) : Bool :=
  tag.selfClosed || isVoid tag.name

mutual

def sealed : Node π → Node π
  | .text content => .text content
  | .element tag place children =>
    if isChildless tag then .element { tag with selfClosed := true } place []
    else .element tag place (sealedAll children)

def sealedAll : List (Node π) → List (Node π)
  | [] => []
  | n :: ns => n.sealed :: sealedAll ns

end

/-- Text that holds nothing but blank characters. -/
def isBlank : Node π → Bool
  | .text content => content.isBlank
  | .element _ _ _ => false

def isElement : Node π → Bool
  | .text _ => false
  | .element _ _ _ => true

theorem unplacedAll_eq_map (ns : List (Node π)) : unplacedAll ns = ns.map unplaced := by
  induction ns with
  | nil => rfl
  | cons n ns ih => rw [unplacedAll, ih, List.map_cons]

theorem sealedAll_eq_map (ns : List (Node π)) : sealedAll ns = ns.map sealed := by
  induction ns with
  | nil => rfl
  | cons n ns ih => rw [sealedAll, ih, List.map_cons]

theorem spellAll_eq_flatMap (ns : List (Node π)) : spellAll ns = ns.flatMap spell := by
  induction ns with
  | nil => rfl
  | cons n ns ih => rw [spellAll, ih, List.flatMap_cons]

end Node

/-- Markup as a source has it. -/
abbrev Forest := List (Node Position)

end TemplLayout
