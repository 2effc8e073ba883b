import TemplLayout.Proofs.Markup.Layout

/-!
# TemplLayout.Proofs.Markup.SameLayout

When two forests are the same markup, apart from how they are spaced and where they stand.

* `Node.lines ns`      — the siblings cut into lines. A line ends at a blank end of a text and at a
  blank text.
* `Verbatim a b`       — the same node to the letter. An element that has no content to be written is
  the same however it spells that.
* `SameLayout ms ns`   — line by line and piece by piece the same: texts up to their blank ends, blocks
  up to the layout of what is in them, other elements to the letter.

Forests with the same layout are the same markup in this sense (`sameLayout_of_layout_eq`).
-/

namespace TemplLayout

open Text Node

/-! ## Lines -/

namespace Node

/-- The node, with a `none` at each blank end. -/
def cuts : Node Unit → List (Option (Node Unit))
  | .text content =>
    if content.isBlank then [none]
    else
      (if content.startsBlank then [none] else []) ++ [some (.text content)] ++
        (if content.endsBlank then [none] else [])
  | .element tag place children => [some (.element tag place children)]

def lines (ns : List (Node Unit)) : List (List (Node Unit)) :=
  stretches (ns.flatMap cuts)

theorem items_eq_cuts (n : Node Unit) : n.items = n.cuts.map (Option.map item) := by
  cases n with
  | text content =>
    cases hb : content.isBlank with
    | true => rw [items_of_isBlank (n := .text content) hb, cuts, if_pos hb]; rfl
    | false =>
      have hne : ¬ content.isBlank = true := by simp [hb]
      rw [items_text hb, cuts, if_neg hne]
      cases content.startsBlank <;> cases content.endsBlank <;> rfl
  | element tag place children => rw [items_element, cuts]; rfl

theorem itemsAll_eq_cuts (ns : List (Node Unit)) :
    itemsAll ns = (ns.flatMap cuts).map (Option.map item) := by
  induction ns with
  | nil => rfl
  | cons n ns ih => rw [itemsAll, ih, items_eq_cuts, List.flatMap_cons, List.map_append]

end Node

theorem stretches_map {α β : Type} (f : α → β) (xs : List (Option α)) :
    stretches (xs.map (Option.map f)) = (stretches xs).map (List.map f) := by
  induction xs using stretches_induction with
  | nil => rfl
  | none xs lines ih => exact ih
  | cut a xs lines hcut ih =>
    cases xs with
    | nil => exact congrArg ([f a] :: ·) ih
    | cons x xs =>
      rw [hcut x rfl] at ih ⊢
      exact congrArg ([f a] :: ·) ih
  | longer a b xs line lines ih =>
    rw [List.map_cons, Option.map_some] at ih
    rw [List.map_cons, List.map_cons, Option.map_some, Option.map_some, stretches, ih]
    rfl

theorem layout_eq_lines (ns : List (Node Unit)) :
    layout ns = (lines ns).map fun line => Line.ofItems (line.map item) := by
  rw [layout, itemsAll_eq_cuts, stretches_map, List.map_map]
  rfl

/-! ## The same to the letter -/

mutual

inductive Verbatim : Node Unit → Node Unit → Prop
  | text (content : Text) : Verbatim (.text content) (.text content)
  | childless {tag tag' : Tag} {place place' : Unit} {children children' : List (Node Unit)} :
      isChildless tag = true → isChildless tag' = true → tag'.name = tag.name →
      tag'.attrs = tag.attrs →
      Verbatim (.element tag place children) (.element tag' place' children')
  | element {tag tag' : Tag} {place place' : Unit} {children children' : List (Node Unit)} :
      isChildless tag = false → isChildless tag' = false → tag'.name = tag.name →
      tag'.attrs = tag.attrs → VerbatimAll children children' →
      Verbatim (.element tag place children) (.element tag' place' children')

inductive VerbatimAll : List (Node Unit) → List (Node Unit) → Prop
  | nil : VerbatimAll [] []
  | cons {a b : Node Unit} {as bs : List (Node Unit)} : Verbatim a b → VerbatimAll as bs →
      VerbatimAll (a :: as) (b :: bs)

end

theorem verbatimAll_of_sealedAll {as bs : List (Node Unit)} (h : sealedAll as = sealedAll bs) :
    VerbatimAll as bs := by
  induction as using forest_induction generalizing bs with
  | nil =>
    cases bs with
    | nil => exact .nil
    | cons b bs => cases h
  | text content as ih =>
    rcases bs with _ | ⟨content' | ⟨tag, place, children⟩, bs⟩
    · cases h
    · simp only [sealedAll, sealed, List.cons.injEq, Node.text.injEq] at h
      obtain ⟨rfl, h⟩ := h
      exact .cons (.text content) (ih h)
    · simp only [sealedAll, sealed, List.cons.injEq] at h
      split at h <;> cases h.1
  | element tag place children as ihc ihs =>
    rcases bs with _ | ⟨content' | ⟨tag', place', children'⟩, bs⟩
    · cases h
    · simp only [sealedAll, sealed, List.cons.injEq] at h
      split at h <;> cases h.1
    · rw [sealedAll, sealedAll, List.cons.injEq] at h
      refine .cons ?_ (ihs h.2)
      have hn := h.1
      have hchildless : ∀ t : Tag, isChildless { t with selfClosed := true } = true := by
        simp [isChildless]
      cases hc : isChildless tag <;> cases hc' : isChildless tag' <;>
        simp only [sealed, hc, hc', Bool.false_eq_true, if_true, if_false, Node.element.injEq] at hn
      · obtain ⟨rfl, -, hn⟩ := hn
        exact .element hc hc' rfl rfl (ihc hn)
      · rw [hn.1, hchildless] at hc
        cases hc
      · rw [← hn.1, hchildless] at hc'
        cases hc'
      · simp only [Tag.mk.injEq] at hn
        exact .childless hc hc' hn.1.1.symm hn.1.2.1.symm

theorem verbatim_of_sealed {a b : Node Unit} (h : a.sealed = b.sealed) : Verbatim a b := by
  have hall : VerbatimAll [a] [b] := verbatimAll_of_sealedAll (by rw [sealedAll, sealedAll, h]; rfl)
  cases hall with
  | cons hab _ => exact hab

/-! ## The same layout -/

inductive SamePiece : Node Unit → Node Unit → Prop
  | text {s t : Text} : s.trim = t.trim → SamePiece (.text s) (.text t)
  | element {a b : Node Unit} : a.isElement = true → b.isElement = true → Verbatim a b →
      SamePiece a b

/-- An element alone on its line, with its content on lines of its own. -/
def IsBlockLine (line : List (Node Unit)) : Prop :=
  ∃ tag place children, line = [.element tag place children] ∧ isBlock tag children = true

mutual

inductive SameLayout : List (Node Unit) → List (Node Unit) → Prop
  | mk {ms ns : List (Node Unit)} : SameLines (lines ms) (lines ns) → SameLayout ms ns

inductive SameLines : List (List (Node Unit)) → List (List (Node Unit)) → Prop
  | nil : SameLines [] []
  | cons {l k : List (Node Unit)} {ls ks : List (List (Node Unit))} : SameLine l k →
      SameLines ls ks → SameLines (l :: ls) (k :: ks)

inductive SameLine : List (Node Unit) → List (Node Unit) → Prop
  | block {tag tag' : Tag} {place place' : Unit} {children children' : List (Node Unit)} :
      isBlock tag children = true → isBlock tag' children' = true → tag'.name = tag.name →
      tag'.attrs = tag.attrs → SameLayout children children' →
      SameLine [.element tag place children] [.element tag' place' children']
  | inline {l k : List (Node Unit)} : ¬ IsBlockLine l → ¬ IsBlockLine k →
      List.Forall₂ SamePiece l k → SameLine l k

end

theorem samePiece_of_shared {a b : Node Unit} (h : a.item.shared = b.item.shared) :
    SamePiece a b := by
  rcases a with s | ⟨tag, place, children⟩
  · rcases b with t | ⟨tag', place', children'⟩
    · exact .text (Node.text.inj h)
    · have := congrArg isElement h
      rw [isElement_item, isElement_item] at this
      cases this
  · rcases b with t | ⟨tag', place', children'⟩
    · have := congrArg isElement h
      rw [isElement_item, isElement_item] at this
      cases this
    · exact .element rfl rfl (verbatim_of_sealed h)

theorem samePieces_of_shared {l k : List (Node Unit)}
    (h : l.map (·.item.shared) = k.map (·.item.shared)) : List.Forall₂ SamePiece l k := by
  induction l generalizing k with
  | nil =>
    cases k with
    | nil => exact .nil
    | cons b k => cases h
  | cons a l ih =>
    cases k with
    | nil => cases h
    | cons b k =>
      rw [List.map_cons, List.map_cons, List.cons.injEq] at h
      exact .cons (samePiece_of_shared h.1) (ih h.2)

/-- The nodes that a line of shared nodes was made of. -/
theorem of_ofItems_inline {l nodes : List (Node Unit)}
    (h : Line.ofItems (l.map item) = .inline nodes) :
    l.map (·.item.shared) = nodes ∧ ¬ IsBlockLine l := by
  rcases l with _ | ⟨a, _ | ⟨b, l⟩⟩
  · cases h
    refine ⟨rfl, ?_⟩
    rintro ⟨tag, place, children, heq, -⟩
    cases heq
  · have hitem : a.item.alone = .inline nodes := h
    rcases a with s | ⟨tag, place, children⟩
    · cases hitem
      refine ⟨rfl, ?_⟩
      rintro ⟨tag, place, children, heq, -⟩
      cases heq
    · rw [item] at hitem
      dsimp only at hitem
      split at hitem
      · cases hitem
      · rename_i hblock
        cases hitem
        refine ⟨rfl, ?_⟩
        rintro ⟨tag, place, children, heq, hb⟩
        cases heq
        exact hblock hb
  · simp only [Line.ofItems, List.map_cons, List.map_map, Line.inline.injEq] at h
    refine ⟨h, ?_⟩
    rintro ⟨tag, place, children, heq, -⟩
    cases heq

/-- The element that a block was made of. -/
theorem of_ofItems_block {l : List (Node Unit)} {tag : Tag} {inner : List Line}
    (h : Line.ofItems (l.map item) = .block tag inner) :
    ∃ place children, l = [.element tag place children] ∧ isBlock tag children = true ∧
      layout children = inner := by
  rcases l with _ | ⟨a, _ | ⟨b, l⟩⟩
  · cases h
  · have hitem : a.item.alone = .block tag inner := h
    rcases a with s | ⟨tag', place, children⟩
    · cases hitem
    · rw [item] at hitem
      dsimp only at hitem
      split at hitem
      · rename_i hblock
        cases hitem
        exact ⟨place, children, rfl, hblock, rfl⟩
      · cases hitem
  · cases h

@[elab_as_elim]
theorem line_induction {motive : List Line → Prop} (nil : motive [])
    (block : ∀ tag inner ls, motive inner → motive ls → motive (.block tag inner :: ls))
    (inline : ∀ nodes ls, motive ls → motive (.inline nodes :: ls)) (ls : List Line) :
    motive ls :=
  @Line.rec_1 (fun l => ∀ ls, motive ls → motive (l :: ls)) motive
    (fun tag inner hi ls hs => block tag inner ls hi hs) (fun nodes ls hs => inline nodes ls hs)
    nil (fun _ ls hl hs => hl ls hs) ls

theorem sameLines_of_eq {ls ks : List (List (Node Unit))}
    (h : (ls.map fun line => Line.ofItems (line.map item)) =
      ks.map fun line => Line.ofItems (line.map item)) : SameLines ls ks := by
  generalize hL : (ks.map fun line => Line.ofItems (line.map item)) = L at h
  induction L using line_induction generalizing ls ks with
  | nil =>
    rw [List.map_eq_nil_iff] at h hL
    rw [h, hL]
    exact .nil
  | block tag inner L ihi ihL =>
    obtain ⟨l, ls, rfl, hl, hls⟩ := List.map_eq_cons_iff.1 h
    obtain ⟨k, ks, rfl, hk, hks⟩ := List.map_eq_cons_iff.1 hL
    obtain ⟨place, children, rfl, hb, hlayout⟩ := of_ofItems_block hl
    obtain ⟨place', children', rfl, hb', hlayout'⟩ := of_ofItems_block hk
    rw [layout_eq_lines] at hlayout hlayout'
    exact .cons (.block hb hb' rfl rfl (.mk (ihi hlayout' hlayout))) (ihL hks hls)
  | inline nodes L ih =>
    obtain ⟨l, ls, rfl, hl, hls⟩ := List.map_eq_cons_iff.1 h
    obtain ⟨k, ks, rfl, hk, hks⟩ := List.map_eq_cons_iff.1 hL
    obtain ⟨hl, hnot⟩ := of_ofItems_inline hl
    obtain ⟨hk, hnot'⟩ := of_ofItems_inline hk
    exact .cons (.inline hnot hnot' (samePieces_of_shared (hl.trans hk.symm))) (ih hks hls)

theorem sameLayout_of_layout_eq {ms ns : List (Node Unit)} (h : layout ms = layout ns) :
    SameLayout ms ns := by
  rw [layout_eq_lines, layout_eq_lines] at h
  exact .mk (sameLines_of_eq h)

end TemplLayout
