import TemplLayout.Proofs.Markup.Forest
import TemplLayout.Proofs.Markup.Stretches

/-!
# TemplLayout.Proofs.Markup.Layout

The lines that a well-formed forest is laid out in.

* `Node.item n`        — what a node that is not blank contributes to its line.
* `Line.kinds l`       — for each node on the line, whether it is an element.
* `Line.WellFormed Q l` — the nodes of a line can be read back and are laid out as they stand, and
  the element of a block is laid out as a block again.

The lines of a well-formed forest are well-formed (`wellFormed_layout`), and hold its nodes in order,
blank texts left out (`kinds_layout`).
-/

namespace TemplLayout

open Text

variable {Q : Text → Prop}

namespace Node

/-! ## Sealing -/

theorem sealedAll_sealedAll {π : Type} (ns : List (Node π)) :
    sealedAll (sealedAll ns) = sealedAll ns := by
  induction ns using forest_induction with
  | nil => rfl
  | text content ns ih => rw [sealedAll, sealed, sealedAll, sealed, ih]
  | element tag place children ns ihc ihs =>
    rw [sealedAll, sealed, sealedAll, ihs]
    split
    · rw [sealed, if_pos (by simp [isChildless])]
    · rename_i h
      rw [sealed, if_neg h, ihc]

theorem sealed_sealed {π : Type} (n : Node π) : n.sealed.sealed = n.sealed := by
  have h := sealedAll_sealedAll [n]
  simpa [sealedAll] using h

theorem isBlock_iff {tag : Tag} {children : List (Node Unit)} :
    isBlock tag children = true ↔
      isChildless tag = false ∧ isPreformatted tag.name = false ∧
        children.any (·.isElement) = true ∧ blankAtStart children = true ∧
        blankAtEnd children = true := by
  simp only [isBlock, Bool.and_eq_true, Bool.not_eq_true', and_assoc]

theorem isBlock_of_isChildless {tag : Tag} (h : isChildless tag = true)
    (children : List (Node Unit)) : isBlock tag children = false := by
  simp [isBlock, h]

theorem blankAtStart_sealedAll (ns : List (Node Unit)) :
    blankAtStart (sealedAll ns) = blankAtStart ns := by
  rcases ns with _ | ⟨content | ⟨tag, place, children⟩, ns⟩
  · rfl
  · rfl
  · rw [sealedAll, sealed]
    split <;> rfl

theorem blankAtEnd_sealedAll (ns : List (Node Unit)) :
    blankAtEnd (sealedAll ns) = blankAtEnd ns := by
  rw [blankAtEnd, blankAtEnd, sealedAll_eq_map, List.getLast?_map]
  rcases ns.getLast? with _ | ⟨content | ⟨tag, place, children⟩⟩
  · rfl
  · rfl
  · rw [Option.map_some, sealed]
    by_cases h : isChildless tag = true <;> simp [h]

theorem any_isElement_sealedAll (ns : List (Node Unit)) :
    (sealedAll ns).any (·.isElement) = ns.any (·.isElement) := by
  rw [sealedAll_eq_map, List.any_map]
  exact List.any_congr rfl fun n => isElement_sealed n

theorem isBlock_sealedAll (tag : Tag) (children : List (Node Unit)) :
    isBlock tag (sealedAll children) = isBlock tag children := by
  rw [isBlock, isBlock, any_isElement_sealedAll, blankAtStart_sealedAll, blankAtEnd_sealedAll]

/-! ## Items -/

/-- What the node contributes to its line, unless it is blank. -/
def item : Node Unit → LineItem
  | .text content => ⟨.text content.trim, .inline [.text content.trim]⟩
  | .element tag place children =>
    ⟨(Node.element tag place children).sealed,
      if isBlock tag children then .block tag (layout children)
      else .inline [(Node.element tag place children).sealed]⟩

theorem items_of_isBlank {n : Node Unit} (h : n.isBlank = true) : n.items = [none] := by
  cases n with
  | text content => exact if_pos h
  | element tag place children => cases h

theorem items_text {content : Text} (h : content.isBlank = false) :
    (Node.text content).items =
      (if content.startsBlank then [none] else []) ++ some (Node.text content).item ::
        (if content.endsBlank then [none] else []) := by
  rw [items, textItems, if_neg (by simp [h])]
  simp [item]

theorem items_element (tag : Tag) (place : Unit) (children : List (Node Unit)) :
    (Node.element tag place children).items = [some (Node.element tag place children).item] := by
  rw [items, item, layout]
  split <;> rfl

theorem items_of_isElement {n : Node Unit} (h : n.isElement = true) :
    n.items = [some n.item] ∧ n.item.shared = n.sealed := by
  cases n with
  | text content => cases h
  | element tag place children => exact ⟨items_element tag place children, rfl⟩

/-- An element that is no block is none when it is sealed either. -/
theorem alone_sealed {tag : Tag} {children : List (Node Unit)} (place : Unit)
    (h : isBlock tag children = false) :
    (Node.element tag place children).sealed.item.alone =
      .inline [(Node.element tag place children).sealed] := by
  have hsealed := sealed_sealed (Node.element tag place children)
  rw [sealed] at hsealed ⊢
  split
  · rename_i hchildless
    rw [if_pos hchildless] at hsealed
    rw [item, isBlock_of_isChildless (by simp [isChildless])]
    exact congrArg (fun n => Line.inline [n]) hsealed
  · rename_i hchildless
    rw [if_neg hchildless] at hsealed
    rw [item, isBlock_sealedAll, h]
    exact congrArg (fun n => Line.inline [n]) hsealed

/-- A line break at most is all that a node has besides its item. -/
theorem reduceOption_items (n : Node Unit) :
    n.items.reduceOption = if n.isBlank then [] else [n.item] := by
  cases n with
  | text content =>
    cases hb : content.isBlank with
    | true =>
      rw [items_of_isBlank (n := .text content) hb, isBlank, if_pos hb]
      rfl
    | false =>
      rw [items_text hb, isBlank, hb, List.reduceOption_append, List.reduceOption_cons_of_some]
      split <;> split <;> rfl
  | element tag place children => rw [items_element]; rfl

theorem reduceOption_itemsAll (ns : List (Node Unit)) :
    (itemsAll ns).reduceOption = (ns.filter (!·.isBlank)).map item := by
  induction ns with
  | nil => rfl
  | cons n ns ih =>
    rw [itemsAll, List.reduceOption_append, reduceOption_items, ih, List.filter_cons]
    cases n.isBlank <;> rfl

theorem itemsAll_append (ms ns : List (Node Unit)) :
    itemsAll (ms ++ ns) = itemsAll ms ++ itemsAll ns := by
  induction ms with
  | nil => rfl
  | cons m ms ih => rw [List.cons_append, itemsAll, itemsAll, ih, List.append_assoc]

end Node

/-! ## Lines -/

namespace Line

def kinds : Line → List Bool
  | .block _ _ => [true]
  | .inline nodes => nodes.map (·.isElement)

inductive WellFormed (Q : Text → Prop) : Line → Prop
  | block {tag : Tag} {inner : List Line} : tag.WellFormed → Q tag.attrs →
      Node.isChildless tag = false → isPreformatted tag.name = false →
      true ∈ inner.flatMap kinds → (inner.flatMap kinds).IsChain (fun a b => a = true ∨ b = true) →
      (∀ l ∈ inner, WellFormed Q l) → WellFormed Q (.block tag inner)
  | inline {nodes : List (Node Unit)} : nodes ≠ [] → (∀ n ∈ nodes, n.WellFormed Q) →
      (∀ n ∈ nodes, n.sealed = n ∧ n.items = [some n.item] ∧ n.item.shared = n) →
      (∀ n, nodes = [n] → n.item.alone = .inline [n]) → WellFormed Q (.inline nodes)

end Line

/-- An item that makes a well-formed line, alone or with others. -/
structure LineItem.WellFormed (Q : Text → Prop) (i : LineItem) : Prop where
  shared : i.shared.WellFormed Q
  stays : i.shared.sealed = i.shared ∧ i.shared.items = [some i.shared.item] ∧
    i.shared.item.shared = i.shared
  alone : i.alone.WellFormed Q

theorem kinds_item (n : Node Unit) : n.item.alone.kinds = [n.isElement] := by
  cases n with
  | text content => rfl
  | element tag place children =>
    rw [Node.item]
    dsimp only
    split
    · rfl
    · simp [Line.kinds]

theorem isElement_item (n : Node Unit) : n.item.shared.isElement = n.isElement := by
  cases n with
  | text content => rfl
  | element tag place children => exact Node.isElement_sealed _

theorem kinds_ofItems {items : List LineItem}
    (h : ∀ i ∈ items, i.alone.kinds = [i.shared.isElement]) :
    (Line.ofItems items).kinds = items.map (·.shared.isElement) := by
  rcases items with _ | ⟨i, _ | ⟨j, items⟩⟩
  · rfl
  · exact h i (List.mem_cons_self ..)
  · simp [Line.ofItems, Line.kinds]

theorem exists_of_mem_stretches {ns : List (Node Unit)} {st : List LineItem} {i : LineItem}
    (hst : st ∈ stretches (Node.itemsAll ns)) (hi : i ∈ st) :
    ∃ n ∈ ns, n.isBlank = false ∧ n.item = i := by
  have hmem : i ∈ (stretches (Node.itemsAll ns)).flatten := List.mem_flatten.2 ⟨st, hst, hi⟩
  rw [flatten_stretches, Node.reduceOption_itemsAll] at hmem
  obtain ⟨n, hn, rfl⟩ := List.mem_map.1 hmem
  obtain ⟨hn, hblank⟩ := List.mem_filter.1 hn
  exact ⟨n, hn, by simpa using hblank, rfl⟩

/-- What the items of a line give, all lines together give of the nodes that are not blank. -/
theorem flatMap_layout {α : Type} {f : Line → List α} {g : LineItem → List α}
    {ns : List (Node Unit)} (h : ∀ st : List LineItem, (∀ i ∈ st, ∃ n ∈ ns, n.item = i) →
      f (Line.ofItems st) = st.flatMap g) :
    (layout ns).flatMap f = (ns.filter (!·.isBlank)).flatMap fun n => g n.item := by
  have hline : ∀ st ∈ stretches (Node.itemsAll ns), f (Line.ofItems st) = st.flatMap g := by
    intro st hst
    refine h st fun i hi => ?_
    obtain ⟨n, hn, -, hitem⟩ := exists_of_mem_stretches hst hi
    exact ⟨n, hn, hitem⟩
  calc (layout ns).flatMap f
    _ = (stretches (Node.itemsAll ns)).flatMap fun st => st.flatMap g := by
      rw [layout, List.flatMap_map, List.flatMap_congr hline]
    _ = (stretches (Node.itemsAll ns)).flatten.flatMap g := by
      rw [← List.flatMap_id, List.flatMap_assoc]
      rfl
    _ = (ns.filter (!·.isBlank)).flatMap fun n => g n.item := by
      rw [flatten_stretches, Node.reduceOption_itemsAll, List.flatMap_map]

theorem kinds_layout (ns : List (Node Unit)) :
    (layout ns).flatMap Line.kinds = (ns.filter (!·.isBlank)).map (·.isElement) := by
  have hline : ∀ st : List LineItem, (∀ i ∈ st, ∃ n ∈ ns, n.item = i) →
      (Line.ofItems st).kinds = st.flatMap fun i => [i.shared.isElement] := by
    intro st hst
    rw [← List.map_eq_flatMap]
    refine kinds_ofItems fun i hi => ?_
    obtain ⟨n, -, rfl⟩ := hst i hi
    rw [kinds_item, isElement_item]
  rw [flatMap_layout hline, ← List.map_eq_flatMap]
  exact List.map_congr_left fun n _ => isElement_item n

/-- Nothing blank stands between two texts, so leaving blank texts out brings none together. -/
theorem isChain_kinds_layout {ns : List (Node Unit)} (h : ns.IsChain Node.Apart) :
    ((layout ns).flatMap Line.kinds).IsChain (fun a b => a = true ∨ b = true) := by
  rw [kinds_layout, List.isChain_map]
  induction ns with
  | nil => exact .nil
  | cons n ns ih =>
    obtain ⟨hn, hns⟩ := List.isChain_cons.1 h
    rw [List.filter_cons]
    split
    · refine (ih hns).cons fun m hm => ?_
      cases hkind : n.isElement with
      | true => exact .inl rfl
      | false =>
        cases ns with
        | nil => cases hm
        | cons k ns =>
          have hk : k.isElement = true := (hn k rfl).resolve_left (by simp [hkind])
          have hkb : k.isBlank = false := by
            cases k with
            | text content => cases hk
            | element tag place children => rfl
          rw [List.filter_cons, if_pos (by simp [hkb])] at hm
          cases hm
          exact .inr hk
    · exact ih hns

/-! ## Well-formed lines -/

theorem wellFormed_ofItems {items : List LineItem} (hne : items ≠ [])
    (h : ∀ i ∈ items, i.WellFormed Q) : (Line.ofItems items).WellFormed Q := by
  rcases items with _ | ⟨i, _ | ⟨j, items⟩⟩
  · exact absurd rfl hne
  · exact (h i (List.mem_cons_self ..)).alone
  · refine .inline (by simp) ?_ ?_ ?_
    · exact List.forall_mem_map.2 fun k hk => (h k hk).shared
    · exact List.forall_mem_map.2 fun k hk => (h k hk).stays
    · intro n hn
      simp at hn

theorem wellFormed_lines {ns : List (Node Unit)}
    (h : ∀ n ∈ ns, n.isBlank = false → n.item.WellFormed Q) :
    ∀ l ∈ layout ns, l.WellFormed Q := by
  refine List.forall_mem_map.2 fun st hst => ?_
  refine wellFormed_ofItems (ne_nil_of_mem_stretches _ st hst) fun i hi => ?_
  obtain ⟨n, hn, hblank, rfl⟩ := exists_of_mem_stretches hst hi
  exact h n hn hblank

theorem wellFormed_item_text (hq : Loose Q) {content : Text} (hblank : content.isBlank = false)
    (h : (Node.text (π := Unit) content).WellFormed Q) :
    (Node.text content).item.WellFormed Q := by
  have hcore : (Node.text (π := Unit) content.trim).WellFormed Q := by
    cases h with
    | text hne hs hcontent =>
      exact .text (trim_ne_nil hblank) (pattern_startsTag.loose.trim_iff content |>.2 hs)
        ((hq.trim_iff content).2 hcontent)
  have htrimmed := trimmed_trim content
  have hitem : (Node.text content.trim).item =
      ⟨.text content.trim, .inline [.text content.trim]⟩ := by
    rw [Node.item, htrimmed.trim_eq]
  have hstays : (Node.text content.trim).items = [some (Node.text content.trim).item] := by
    rw [Node.items_text (by simp [hblank]), htrimmed.start, htrimmed.ends]
    rfl
  have hthree : (Node.text (π := Unit) content.trim).sealed = .text content.trim ∧
      (Node.text content.trim).items = [some (Node.text content.trim).item] ∧
      (Node.text content.trim).item.shared = .text content.trim :=
    ⟨rfl, hstays, by rw [hitem]⟩
  refine ⟨hcore, hthree, .inline (by simp) ?_ ?_ ?_⟩
  · simpa using hcore
  · simpa using hthree
  · intro n hn
    cases hn
    rw [hitem]

theorem wellFormed_item (hq : Loose Q) {n : Node Unit} (h : n.WellFormed Q)
    (hblank : n.isBlank = false) : n.item.WellFormed Q := by
  induction h with
  | text hne hs hcontent => exact wellFormed_item_text hq hblank (.text hne hs hcontent)
  | @element tag place children htag hattrs hclosed hapart heach ih =>
    have hwf : (Node.element tag place children).sealed.WellFormed Q :=
      (Node.WellFormed.element htag hattrs hclosed hapart heach).sealed
    have hsealed := Node.sealed_sealed (Node.element tag place children)
    have hitems := Node.items_of_isElement (n := (Node.element tag place children).sealed) (by
      rw [Node.isElement_sealed]
      rfl)
    rw [hsealed] at hitems
    refine ⟨hwf, ⟨hsealed, hitems.1, hitems.2⟩, ?_⟩
    rw [Node.item]
    cases hblock : isBlock tag children with
    | true =>
      obtain ⟨hchildless, hpre, hany, -, -⟩ := Node.isBlock_iff.1 hblock
      rw [if_pos rfl]
      refine .block htag hattrs hchildless hpre ?_ (isChain_kinds_layout hapart) ?_
      · obtain ⟨m, hm, helement⟩ := List.any_eq_true.1 hany
        rw [kinds_layout]
        refine List.mem_map.2 ⟨m, List.mem_filter.2 ⟨hm, ?_⟩, helement⟩
        cases m with
        | text content => cases helement
        | element tag place children => rfl
      · exact wellFormed_lines ih
    | false =>
      rw [if_neg (by simp)]
      refine .inline (by simp) ?_ ?_ ?_
      · simpa using hwf
      · simpa using And.intro hsealed hitems
      · intro n hn
        cases hn
        exact Node.alone_sealed place hblock

theorem wellFormed_layout (hq : Loose Q) {ns : List (Node Unit)} (h : Node.WellFormedAll Q ns) :
    ∀ l ∈ layout ns, l.WellFormed Q :=
  wellFormed_lines fun n hn hblank => wellFormed_item hq (h.each n hn) hblank

end TemplLayout
