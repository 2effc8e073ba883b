import TemplLayout.Markup.Node
import TemplLayout.Proofs.Markup.Token

/-!
# TemplLayout.Proofs.Markup.Forest

Forests as they can be read.

* `forest_induction`         — first the children of the first node, then the nodes behind it.
* `Node.WellFormed Q n`      — no text is empty, holds a tag or stands beside a text; every tag can be
  read back; an element that closes itself has no children. `Q` is what all texts and attributes
  satisfy besides.
* `Node.WellFormedAll Q ns`  — the same of a list of siblings.
* `Node.loadedAll ns`        — the void elements with content that shows, in postorder.

Neither positions nor sealing matter to well-formedness (`WellFormed.unplaced`, `WellFormed.sealed`),
and a sealed forest has no loaded element (`loadedAll_sealedAll`).
-/

namespace TemplLayout

open Text

variable {π : Type} {Q : Text → Prop}

@[elab_as_elim]
theorem forest_induction {motive : List (Node π) → Prop} (nil : motive [])
    (text : ∀ content ns, motive ns → motive (.text content :: ns))
    (element : ∀ tag place children ns, motive children → motive ns →
      motive (.element tag place children :: ns))
    (ns : List (Node π)) : motive ns :=
  @Node.rec_1 π (fun n => ∀ ns, motive ns → motive (n :: ns)) motive
    (fun content ns h => text content ns h)
    (fun tag place children hc ns hs => element tag place children ns hc hs)
    nil (fun _ ns hn hs => hn ns hs) ns

/-- A tag that closes itself instead. -/
theorem Tag.WellFormed.sealed {tag : Tag} (h : tag.WellFormed) :
    Tag.WellFormed { tag with selfClosed := true } :=
  ⟨h.name, h.attrs_trimmed, h.attrs_shut, fun _ => rfl⟩

namespace Node

/-- One of the two is an element. -/
def Apart (m n : Node π) : Prop :=
  m.isElement = true ∨ n.isElement = true

inductive WellFormed (Q : Text → Prop) : Node π → Prop
  | text {content : Text} : content ≠ [] → Lacks startsTag content → Q content →
      WellFormed Q (.text content)
  | element {tag : Tag} {place : π} {children : List (Node π)} : tag.WellFormed → Q tag.attrs →
      (tag.selfClosed = true → children = []) → children.IsChain Apart →
      (∀ n ∈ children, WellFormed Q n) → WellFormed Q (.element tag place children)

structure WellFormedAll (Q : Text → Prop) (ns : List (Node π)) : Prop where
  apart : ns.IsChain Apart
  each : ∀ n ∈ ns, n.WellFormed Q

theorem wellFormed_element_iff {tag : Tag} {place : π} {children : List (Node π)} :
    (Node.element tag place children).WellFormed Q ↔
      tag.WellFormed ∧ Q tag.attrs ∧ (tag.selfClosed = true → children = []) ∧
        WellFormedAll Q children := by
  constructor
  · intro h
    cases h with
    | element htag hq hclosed hapart heach => exact ⟨htag, hq, hclosed, hapart, heach⟩
  · rintro ⟨htag, hq, hclosed, hapart, heach⟩
    exact .element htag hq hclosed hapart heach

theorem WellFormed.ne_nil {content : Text} (h : (Node.text (π := π) content).WellFormed Q) :
    content ≠ [] := by
  cases h
  assumption

theorem wellFormedAll_nil : WellFormedAll Q ([] : List (Node π)) :=
  ⟨.nil, by simp⟩

theorem wellFormedAll_cons {n : Node π} {ns : List (Node π)} :
    WellFormedAll Q (n :: ns) ↔
      n.WellFormed Q ∧ (∀ m ∈ ns.head?, Apart n m) ∧ WellFormedAll Q ns := by
  constructor
  · rintro ⟨hapart, heach⟩
    rw [List.isChain_cons] at hapart
    rw [List.forall_mem_cons] at heach
    exact ⟨heach.1, hapart.1, hapart.2, heach.2⟩
  · rintro ⟨hn, hhead, hapart, heach⟩
    exact ⟨List.isChain_cons.2 ⟨hhead, hapart⟩, List.forall_mem_cons.2 ⟨hn, heach⟩⟩

theorem wellFormedAll_singleton {n : Node π} : WellFormedAll Q [n] ↔ n.WellFormed Q := by
  simp [wellFormedAll_cons, wellFormedAll_nil]

/-- Two forests side by side, unless two texts meet. -/
theorem WellFormedAll.append {ms ns : List (Node π)} (hm : WellFormedAll Q ms)
    (hn : WellFormedAll Q ns) (h : ∀ m ∈ ms.getLast?, ∀ n ∈ ns.head?, Apart m n) :
    WellFormedAll Q (ms ++ ns) where
  apart := List.isChain_append.2 ⟨hm.apart, hn.apart, h⟩
  each := by
    intro n hmem
    rcases List.mem_append.1 hmem with hmem | hmem
    · exact hm.each n hmem
    · exact hn.each n hmem

/-! ## Positions and sealing -/

@[simp] theorem isElement_unplaced (n : Node π) : n.unplaced.isElement = n.isElement := by
  cases n <;> rfl

@[simp] theorem isElement_sealed (n : Node π) : n.sealed.isElement = n.isElement := by
  cases n with
  | text content => rfl
  | element tag place children =>
    rw [sealed]
    split <;> rfl

theorem isChain_map_apart {ρ : Type} {f : Node π → Node ρ}
    (hf : ∀ n, (f n).isElement = n.isElement) {ns : List (Node π)} :
    (ns.map f).IsChain Apart ↔ ns.IsChain Apart := by
  rw [List.isChain_map]
  exact List.IsChain.iff fun m n => by simp [Apart, hf]

theorem WellFormed.unplaced {n : Node π} (h : n.WellFormed Q) : n.unplaced.WellFormed Q := by
  induction h with
  | text hne hs hq => exact .text hne hs hq
  | element htag hq hclosed hapart _ ih =>
    rw [Node.unplaced, unplacedAll_eq_map]
    refine .element htag hq ?_ ((isChain_map_apart isElement_unplaced).2 hapart) ?_
    · intro hself
      rw [hclosed hself, List.map_nil]
    · exact List.forall_mem_map.2 ih

theorem WellFormedAll.unplaced {ns : List (Node π)} (h : WellFormedAll Q ns) :
    WellFormedAll Q (unplacedAll ns) where
  apart := by
    rw [unplacedAll_eq_map]
    exact (isChain_map_apart isElement_unplaced).2 h.apart
  each := by
    rw [unplacedAll_eq_map]
    exact List.forall_mem_map.2 fun n hn => (h.each n hn).unplaced

theorem unplacedAll_unit (ns : List (Node Unit)) : unplacedAll ns = ns := by
  induction ns using forest_induction with
  | nil => rfl
  | text content ns ih => rw [unplacedAll, ih, Node.unplaced]
  | element tag place children ns ihc ihs => rw [unplacedAll, ihs, Node.unplaced, ihc]

theorem isChildless_eq_false_iff {tag : Tag} :
    isChildless tag = false ↔ tag.selfClosed = false ∧ isVoid tag.name = false := by
  rw [isChildless, Bool.or_eq_false_iff]

theorem WellFormed.sealed {n : Node π} (h : n.WellFormed Q) : n.sealed.WellFormed Q := by
  induction h with
  | text hne hs hq => exact .text hne hs hq
  | element htag hq hclosed hapart _ ih =>
    rw [Node.sealed, sealedAll_eq_map]
    split
    · exact .element htag.sealed hq (fun _ => rfl) .nil (by simp)
    · refine .element htag hq ?_ ((isChain_map_apart isElement_sealed).2 hapart) ?_
      · intro hself
        rw [hclosed hself, List.map_nil]
      · exact List.forall_mem_map.2 ih

/-! ## Loaded elements -/

mutual

/-- The void elements in the node that have content that shows, in postorder. -/
def loaded : Node π → List (Tag × π)
  | .text _ => []
  | .element tag place children =>
    loadedAll children ++
      (if isVoid tag.name && children.any (!·.isBlank) then [(tag, place)] else [])

def loadedAll : List (Node π) → List (Tag × π)
  | [] => []
  | n :: ns => n.loaded ++ loadedAll ns

end

@[simp] theorem loadedAll_nil : loadedAll ([] : List (Node π)) = [] := rfl

theorem loadedAll_cons (n : Node π) (ns : List (Node π)) :
    loadedAll (n :: ns) = n.loaded ++ loadedAll ns := rfl

theorem loadedAll_append (ms ns : List (Node π)) :
    loadedAll (ms ++ ns) = loadedAll ms ++ loadedAll ns := by
  induction ms with
  | nil => rfl
  | cons m ms ih => rw [List.cons_append, loadedAll_cons, loadedAll_cons, ih, List.append_assoc]

theorem isBlank_unplaced (n : Node π) : n.unplaced.isBlank = n.isBlank := by
  cases n <;> rfl

theorem loadedAll_unplacedAll (ns : List (Node π)) :
    loadedAll (unplacedAll ns) = (loadedAll ns).map fun x => (x.1, ()) := by
  induction ns using forest_induction with
  | nil => rfl
  | text content ns ih => exact ih
  | element tag place children ns ihc ihs =>
    have hany : (unplacedAll children).any (!·.isBlank) = children.any (!·.isBlank) := by
      rw [unplacedAll_eq_map, List.any_map]
      exact List.any_congr rfl fun n => by simp [isBlank_unplaced]
    simp only [unplacedAll, unplaced, loadedAll_cons, loaded, ihc, ihs, hany, List.map_append]
    split <;> rfl

theorem loadedAll_sealedAll (ns : List (Node π)) : loadedAll (sealedAll ns) = [] := by
  induction ns using forest_induction with
  | nil => rfl
  | text content ns ih => exact ih
  | element tag place children ns ihc ihs =>
    rw [sealedAll, loadedAll_cons, ihs, sealed]
    split
    · simp [loaded]
    · rename_i hchildless
      have hvoid : isVoid tag.name = false := by
        rw [Bool.not_eq_true, isChildless_eq_false_iff] at hchildless
        exact hchildless.2
      simp [loaded, ihc, hvoid]

end Node

end TemplLayout
