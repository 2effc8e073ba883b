import TemplLayout.Proofs.Markup.Relayout
import TemplLayout.Proofs.Text.Collapse

/-!
# TemplLayout.Proofs.Markup.Content

The text in a forest, with the tags left out.

* `Node.contentAll ns`     — all of it, in document order.
* `Node.keptContentAll ns` — the same without what stands in void elements.

Laying a forest out again changes its text in its blank runs only (`collapsed_relaid`). When no void
element is loaded, what stands in them is blank (`shown_contentAll`).
-/

namespace TemplLayout

open Text

variable {π : Type} {Q : Text → Prop}

namespace Node

mutual

def content : Node π → Text
  | .text content => content
  | .element _ _ children => contentAll children

def contentAll : List (Node π) → Text
  | [] => []
  | n :: ns => n.content ++ contentAll ns

end

mutual

/-- The text that stands in no void element. -/
def keptContent : Node π → Text
  | .text content => content
  | .element tag _ children => if isVoid tag.name then [] else keptContentAll children

def keptContentAll : List (Node π) → Text
  | [] => []
  | n :: ns => n.keptContent ++ keptContentAll ns

end

theorem contentAll_eq_flatMap (ns : List (Node π)) : contentAll ns = ns.flatMap content := by
  induction ns with
  | nil => rfl
  | cons n ns ih => rw [contentAll, ih, List.flatMap_cons]

theorem contentAll_append (ms ns : List (Node π)) :
    contentAll (ms ++ ns) = contentAll ms ++ contentAll ns := by
  simp only [contentAll_eq_flatMap, List.flatMap_append]

theorem contentAll_unplacedAll (ns : List (Node π)) :
    contentAll (unplacedAll ns) = contentAll ns := by
  induction ns using forest_induction with
  | nil => rfl
  | text content ns ih => rw [unplacedAll, contentAll, ih]; rfl
  | element tag place children ns ihc ihs =>
    rw [unplacedAll, contentAll, ihs, unplaced, content, ihc]
    rfl

theorem keptContentAll_unplacedAll (ns : List (Node π)) :
    keptContentAll (unplacedAll ns) = keptContentAll ns := by
  induction ns using forest_induction with
  | nil => rfl
  | text content ns ih => rw [unplacedAll, keptContentAll, ih]; rfl
  | element tag place children ns ihc ihs =>
    rw [unplacedAll, keptContentAll, ihs, unplaced, keptContent, ihc]
    rfl

theorem contentAll_joined (ns : List (Node Unit)) : contentAll (joined ns) = contentAll ns := by
  induction ns with
  | nil => rfl
  | cons n ns ih =>
    rw [contentAll, ← ih, joined_cons]
    rcases join_cases n (joined ns) with ⟨s, t, rest, rfl, hns, h⟩ | ⟨h, -⟩
    · rw [h, hns, contentAll, contentAll, content, content, content, List.append_assoc]
    · rw [h, contentAll]

/-- What is kept is what a sealed forest holds. -/
theorem contentAll_sealedAll {ns : List (Node π)} (h : WellFormedAll Q ns) :
    contentAll (sealedAll ns) = keptContentAll ns := by
  induction ns using forest_induction with
  | nil => rfl
  | text content ns ih =>
    rw [sealedAll, contentAll, ih (wellFormedAll_cons.1 h).2.2]
    rfl
  | element tag place children ns ihc ihs =>
    obtain ⟨hn, -, hns⟩ := wellFormedAll_cons.1 h
    obtain ⟨-, -, hclosed, hchildren⟩ := wellFormed_element_iff.1 hn
    rw [sealedAll, contentAll, keptContentAll, ihs hns, sealed, keptContent]
    cases hself : tag.selfClosed with
    | true => simp [isChildless, hself, hclosed hself, content, contentAll, keptContentAll]
    | false =>
      cases hvoid : isVoid tag.name with
      | true => simp [isChildless, hvoid, content, contentAll]
      | false => simp [isChildless, hself, hvoid, content, ihc hchildren]

/-! ## Content of a line -/

/-- The text of items, with a space wherever a line ends. -/
def itemsContent (xs : List (Option LineItem)) : Text :=
  xs.flatMap fun
    | none => [' ']
    | some i => i.shared.content

theorem itemsContent_append (xs ys : List (Option LineItem)) :
    itemsContent (xs ++ ys) = itemsContent xs ++ itemsContent ys :=
  List.flatMap_append

theorem itemsContent_cons (i : LineItem) (xs : List (Option LineItem)) :
    itemsContent (some i :: xs) = i.shared.content ++ itemsContent xs :=
  List.flatMap_cons

theorem alike_items {n : Node Unit} (h : n.WellFormed Q) :
    Alike n.sealed.content (itemsContent n.items) := by
  cases n with
  | element tag place children =>
    rw [items_element, itemsContent_cons, itemsContent, List.flatMap_nil, List.append_nil]
    exact Alike.refl _
  | text t =>
    cases hb : t.isBlank with
    | true =>
      rw [items_of_isBlank (n := .text t) hb]
      exact Alike.of_isBlank hb h.ne_nil
    | false =>
      have htrim := alike_trim hb
      have hspace : ∀ b : Bool, itemsContent (if b = true then [none] else []) =
          if b = true then [' '] else [] := by
        intro b
        cases b <;> rfl
      rw [items_text hb, itemsContent_append, itemsContent_cons, hspace, hspace,
        ← List.append_assoc]
      exact htrim

theorem alike_itemsAll {ns : List (Node Unit)} (h : ∀ n ∈ ns, n.WellFormed Q) :
    Alike (contentAll (sealedAll ns)) (itemsContent (itemsAll ns)) := by
  induction ns with
  | nil => exact Alike.refl _
  | cons n ns ih =>
    rw [List.forall_mem_cons] at h
    rw [sealedAll, contentAll, itemsAll, itemsContent_append]
    exact (alike_items h.1).append (ih h.2)

/-- The text of stretches, with a space behind each. -/
def stretchesContent (sts : List (List LineItem)) : Text :=
  sts.flatMap fun st => st.flatMap (·.shared.content) ++ [' ']

theorem stretchesContent_cons (st : List LineItem) (sts : List (List LineItem)) :
    stretchesContent (st :: sts) = st.flatMap (·.shared.content) ++ [' '] ++ stretchesContent sts :=
  rfl

/-- A space, if nothing stands in front of the first cut. -/
def leadContent : List (Option LineItem) → Text
  | some _ :: _ => []
  | _ => [' ']

theorem alike_leadContent (xs : List (Option LineItem)) :
    Alike (' ' :: leadContent xs) [' '] := by
  rcases xs with _ | ⟨_ | i, xs⟩
  · exact Alike.of_isBlank rfl (by simp [leadContent])
  · exact Alike.of_isBlank rfl (by simp [leadContent])
  · exact Alike.refl _

theorem alike_stretches (xs : List (Option LineItem)) :
    Alike (itemsContent xs ++ [' ']) (leadContent xs ++ stretchesContent (stretches xs)) := by
  induction xs using stretches_induction with
  | nil => exact Alike.refl _
  | none xs lines ih =>
    have h := (Alike.append_left [' '] ih).trans
      (Alike.append_right (alike_leadContent xs) (stretchesContent lines))
    exact h
  | cut a xs lines hcut ih =>
    have hlead : leadContent xs = [' '] := by
      rcases xs with _ | ⟨x, xs⟩
      · rfl
      · rw [hcut x rfl]
        rfl
    rw [hlead] at ih
    have h := Alike.append_left a.shared.content ih
    simpa [itemsContent, stretchesContent, leadContent] using h
  | longer a b xs line lines ih =>
    have h := Alike.append_left a.shared.content ih
    simpa [itemsContent, stretchesContent, leadContent] using h

/-! ## Content of a layout -/

theorem startsBlank_contentAll {ns : List (Node Unit)} (h : blankAtStart ns = true) :
    (contentAll ns).startsBlank = true := by
  rcases ns with _ | ⟨t | ⟨tag, place, children⟩, ns⟩
  · cases h
  · cases t with
    | nil => cases h
    | cons c t => exact h
  · cases h

theorem endsBlank_contentAll {ns : List (Node Unit)} (h : blankAtEnd ns = true) :
    (contentAll ns).endsBlank = true := by
  rw [blankAtEnd] at h
  cases hlast : ns.getLast? with
  | none => rw [hlast] at h; cases h
  | some n =>
    rw [hlast] at h
    obtain ⟨ms, rfl⟩ := List.getLast?_eq_some_iff.1 hlast
    cases n with
    | element tag place children => cases h
    | text t =>
      have hne : t ≠ [] := by
        rintro rfl
        cases h
      have hall : contentAll (ms ++ [.text t]) = contentAll ms ++ t := by
        simp [contentAll_append, contentAll, content]
      rw [hall, endsBlank_append hne]
      exact h

theorem alike_ofItems {st : List LineItem} {d : Nat}
    (h : ∀ i ∈ st, Alike (contentAll (i.alone.nodes d)) i.shared.content) :
    Alike (contentAll ((Line.ofItems st).nodes d)) (st.flatMap (·.shared.content)) := by
  rcases st with _ | ⟨i, _ | ⟨j, st⟩⟩
  · exact Alike.refl _
  · simpa [Line.ofItems] using h i (List.mem_cons_self ..)
  · have hshared : contentAll ((i :: j :: st).map (·.shared)) =
        (i :: j :: st).flatMap (·.shared.content) := by
      rw [contentAll_eq_flatMap, List.flatMap_map]
    rw [← hshared]
    exact Alike.refl _

theorem alike_lined {d : Nat} {sts : List (List LineItem)}
    (h : ∀ st ∈ sts, ∀ i ∈ st, Alike (contentAll (i.alone.nodes (d + 1))) i.shared.content) :
    Alike (contentAll (lined d (sts.map Line.ofItems))) (' ' :: stretchesContent sts) := by
  have hbreak : ∀ k, Alike (lineBreak k) [' '] := by
    intro k
    exact Alike.of_isBlank (isBlank_lineBreak k) (by simp [lineBreak])
  induction sts with
  | nil => simpa [lined, contentAll, content, stretchesContent] using hbreak d
  | cons st sts ih =>
    rw [List.forall_mem_cons] at h
    have hline := (alike_ofItems h.1).append (ih h.2)
    rw [List.map_cons, lined, contentAll, contentAll_append, content, stretchesContent_cons,
      List.append_assoc]
    exact (hbreak (d + 1)).append hline

/-- The line breaks at both ends stand for a space each. -/
theorem alike_lined_layout {d : Nat} {ns : List (Node Unit)} (hns : ∀ n ∈ ns, n.WellFormed Q)
    (h : ∀ n ∈ ns, n.isBlank = false →
      Alike (contentAll (n.item.alone.nodes (d + 1))) n.item.shared.content) :
    Alike (contentAll (lined d (layout ns))) ([' '] ++ contentAll (sealedAll ns) ++ [' ']) := by
  have hlined : Alike (contentAll (lined d (layout ns)))
      ([' '] ++ stretchesContent (stretches (itemsAll ns))) := by
    refine alike_lined fun st hst i hi => ?_
    obtain ⟨n, hn, hblank, rfl⟩ := exists_of_mem_stretches hst hi
    exact h n hn hblank
  have hlead := (alike_leadContent (itemsAll ns)).append_right
    (stretchesContent (stretches (itemsAll ns)))
  have hitems := ((alike_itemsAll hns).append_right [' ']).trans (alike_stretches (itemsAll ns))
  rw [List.append_assoc]
  exact hlined.trans (((hitems.append_left [' ']).trans hlead).symm)

/-- An item is the same text alone on its line and beside others. -/
theorem alike_item {n : Node Unit} (h : n.WellFormed Q) (d : Nat) :
    Alike (contentAll (n.item.alone.nodes d)) n.item.shared.content := by
  induction h generalizing d with
  | text => simpa [item, Line.nodes, contentAll, content] using Alike.refl _
  | @element tag place children htag hattrs hclosed hapart heach ih =>
    rw [item]
    cases hblock : isBlock tag children with
    | false => simpa [Line.nodes, contentAll] using Alike.refl _
    | true =>
      obtain ⟨hchildless, -, -, hstart, hend⟩ := isBlock_iff.1 hblock
      rw [← blankAtStart_sealedAll] at hstart
      rw [← blankAtEnd_sealedAll] at hend
      have hlined := alike_lined_layout (d := d) heach fun n hn _ => ih n hn (d + 1)
      have hleft := Alike.append_left [' '] (Alike.append_space (endsBlank_contentAll hend))
      have hboth := hleft.trans (Alike.space_append (startsBlank_contentAll hstart))
      simp only [if_true, Line.nodes, contentAll, content, contentAll_joined, List.append_nil,
        sealed, hchildless, Bool.false_eq_true, if_false]
      rw [List.append_assoc] at hlined
      exact hlined.trans hboth

/-- A forest laid out has the text of the sealed forest, blank runs apart. -/
theorem collapsed_relaid {ns : List (Node Unit)} (h : WellFormedAll Q ns) (d : Nat) :
    collapsed (contentAll (relaid d (layout ns))) = collapsed (contentAll (sealedAll ns)) := by
  have hlined := alike_lined_layout (d := d) h.each fun n hn _ => alike_item (h.each n hn) (d + 1)
  rw [relaid, contentAll_joined, hlined.collapsed_eq, collapsed_append_space]
  exact collapsed_space_append _

/-! ## What is dropped -/

theorem isBlank_contentAll {ns : List (Node π)} (h : ∀ n ∈ ns, n.isBlank = true) :
    (contentAll ns).isBlank = true := by
  induction ns with
  | nil => rfl
  | cons n ns ih =>
    rw [List.forall_mem_cons] at h
    cases n with
    | element tag place children => cases h.1
    | text t =>
      have ht : t.isBlank = true := h.1
      rw [contentAll, content, isBlank_append, ht, ih h.2]
      rfl

theorem shown_contentAll {ns : List (Node π)} (h : loadedAll ns = []) :
    shown (contentAll ns) = shown (keptContentAll ns) := by
  induction ns using forest_induction with
  | nil => rfl
  | text content ns ih =>
    rw [contentAll, keptContentAll, shown_append, shown_append, ih h]
    rfl
  | element tag place children ns ihc ihs =>
    rw [loadedAll_cons, loaded, List.append_eq_nil_iff, List.append_eq_nil_iff] at h
    obtain ⟨⟨hchildren, hself⟩, hns⟩ := h
    rw [contentAll, keptContentAll, shown_append, shown_append, ihs hns, content, keptContent]
    cases hvoid : isVoid tag.name with
    | false => rw [ihc hchildren, if_neg (by simp)]
    | true =>
      have hblank : ∀ n ∈ children, n.isBlank = true := by
        simpa [hvoid] using hself
      rw [shown_of_isBlank (isBlank_contentAll hblank), if_pos rfl]
      rfl

end Node

end TemplLayout
