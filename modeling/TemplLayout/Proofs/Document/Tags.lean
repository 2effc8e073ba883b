import TemplLayout.Proofs.Document.Format
import TemplLayout.Proofs.Markup.Traversal

/-!
# TemplLayout.Proofs.Document.Tags

The tags of a source and those that it is formatted to.

* `Node.tagsAll ns`     — the tags of the elements in preorder.
* `Line.tagsAll ls`     — the same of lines.
* `Node.hollowedAll ns` — the forest with nothing inside its void elements.
* `Tag.Counterpart a b` — `b` is the tag `a` as it is written.
* `Templ.Sealed t u`    — in the block `u` every void element closes itself, and its tags are the
  counterparts of those in `t`.

A layout has the tags of the sealed forest (`tagsAll_layout`), in which a void element closes itself, and
any other element when it did before (`tagsAll_sealedAll`).
-/

namespace TemplLayout

open Text

variable {π : Type} {Q : Text → Prop}

def Entry.tag? : Entry π → Option Tag
  | .text _ => none
  | .element tag _ => some tag

namespace Node

def tagsAll (ns : List (Node π)) : List Tag :=
  (preorderAll ns).filterMap Entry.tag?

@[simp] theorem tagsAll_nil : tagsAll ([] : List (Node π)) = [] := rfl

@[simp] theorem tagsAll_text (content : Text) (ns : List (Node π)) :
    tagsAll (.text content :: ns) = tagsAll ns := rfl

@[simp] theorem tagsAll_element (tag : Tag) (place : π) (children ns : List (Node π)) :
    tagsAll (.element tag place children :: ns) = tag :: (tagsAll children ++ tagsAll ns) := by
  simp [tagsAll, preorderAll, preorder, Entry.tag?]

theorem tagsAll_cons (n : Node π) (ns : List (Node π)) :
    tagsAll (n :: ns) = tagsAll [n] ++ tagsAll ns := by
  cases n <;> simp

theorem tagsAll_unplacedAll (ns : List (Node π)) : tagsAll (unplacedAll ns) = tagsAll ns := by
  induction ns using forest_induction with
  | nil => rfl
  | text content ns ih => rw [unplacedAll, unplaced, tagsAll_text, ih, tagsAll_text]
  | element tag place children ns ihc ihs =>
    rw [unplacedAll, unplaced, tagsAll_element, ihc, ihs, tagsAll_element]

mutual

def hollowed : Node π → Node π
  | .text content => .text content
  | .element tag place children =>
    .element tag place (if isVoid tag.name then [] else hollowedAll children)

def hollowedAll : List (Node π) → List (Node π)
  | [] => []
  | n :: ns => n.hollowed :: hollowedAll ns

end

theorem tags_hollowed_unplaced (ns : List (Node π)) :
    tagsAll (hollowedAll (unplacedAll ns)) = tagsAll (hollowedAll ns) := by
  induction ns using forest_induction with
  | nil => rfl
  | text content ns ih => exact ih
  | element tag place children ns ihc ihs =>
    rw [unplacedAll, unplaced, hollowedAll, hollowedAll, hollowed, hollowed, tagsAll_element,
      tagsAll_element, ihs]
    by_cases hvoid : isVoid tag.name = true
    · simp [hvoid]
    · simp [hvoid, ihc]

end Node

open Node

/-! ## Tags as they are written -/

namespace Tag

/-- The tag of an element that closes itself if it did before or is void. -/
def sealed (tag : Tag) : Tag :=
  { tag with selfClosed := isChildless tag }

structure Counterpart (a b : Tag) : Prop where
  name : b.name = a.name
  attrs : b.attrs = a.attrs
  selfClosed : isVoid b.name = false → (b.selfClosed = true ↔ a.selfClosed = true)

theorem counterpart_sealed (tag : Tag) : tag.Counterpart tag.sealed := by
  refine ⟨rfl, rfl, fun hvoid => ?_⟩
  have hname : isVoid tag.name = false := hvoid
  simp [Tag.sealed, isChildless, hname]

end Tag

theorem tagsAll_sealedAll {ns : List (Node π)} (h : WellFormedAll Q ns) :
    tagsAll (sealedAll ns) = (tagsAll (hollowedAll ns)).map Tag.sealed := by
  induction ns using forest_induction with
  | nil => rfl
  | text content ns ih =>
    rw [sealedAll, sealed, hollowedAll, hollowed, tagsAll_text, tagsAll_text]
    exact ih (wellFormedAll_cons.1 h).2.2
  | element tag place children ns ihc ihs =>
    obtain ⟨hn, -, hns⟩ := wellFormedAll_cons.1 h
    obtain ⟨-, -, hclosed, hchildren⟩ := wellFormed_element_iff.1 hn
    have hrest := ihs hns
    rw [sealedAll, sealed, hollowedAll, hollowed, tagsAll_element, List.map_cons, List.map_append,
      ← hrest]
    cases hvoid : isVoid tag.name with
    | true => simp [Tag.sealed, isChildless, hvoid]
    | false =>
      cases hself : tag.selfClosed with
      | true => simp [Tag.sealed, isChildless, hself, hclosed hself, hollowedAll]
      | false =>
        have hopen : tag.sealed = tag := by
          rw [Tag.sealed, isChildless, hvoid, Bool.or_false]
        have hchildless : isChildless tag = false := isChildless_eq_false_iff.2 ⟨hself, hvoid⟩
        simp [hchildless, hopen, ihc hchildren]

/-! ## Tags of lines -/

mutual

def Line.tags : Line → List Tag
  | .block tag inner => tag :: Line.tagsAll inner
  | .inline nodes => Node.tagsAll nodes

def Line.tagsAll : List Line → List Tag
  | [] => []
  | l :: ls => l.tags ++ Line.tagsAll ls

end

theorem Line.tagsAll_eq_flatMap (ls : List Line) : Line.tagsAll ls = ls.flatMap Line.tags := by
  induction ls with
  | nil => rfl
  | cons l ls ih => rw [Line.tagsAll, ih, List.flatMap_cons]

/-- A line has the tags of what is on it, whether it is shared or not. -/
theorem tags_ofItems {items : List LineItem}
    (h : ∀ i ∈ items, i.alone.tags = tagsAll [i.shared]) :
    (Line.ofItems items).tags = items.flatMap fun i => tagsAll [i.shared] := by
  have hshared : ∀ is : List LineItem,
      tagsAll (is.map (·.shared)) = is.flatMap fun i => tagsAll [i.shared] := by
    intro is
    induction is with
    | nil => rfl
    | cons i is ih => rw [List.map_cons, tagsAll_cons, ih, List.flatMap_cons]
  rcases items with _ | ⟨i, _ | ⟨j, items⟩⟩
  · rfl
  · simpa [Line.ofItems] using h i List.mem_cons_self
  · exact hshared (i :: j :: items)

theorem tags_shared (n : Node Unit) : tagsAll [n.item.shared] = tagsAll [n.sealed] := by
  cases n with
  | text content => rfl
  | element tag place children => rfl

/-- A blank text has no tags. -/
theorem tagsAll_filter_isBlank (ns : List (Node Unit)) :
    (ns.filter (!·.isBlank)).flatMap (fun n => tagsAll [n.sealed]) = tagsAll (sealedAll ns) := by
  induction ns with
  | nil => rfl
  | cons n ns ih =>
    rw [sealedAll, tagsAll_cons, ← ih, List.filter_cons]
    cases n with
    | text content =>
      split
      · rw [List.flatMap_cons]
      · rfl
    | element tag place children => rfl

theorem tags_of_items {ns : List (Node Unit)}
    (h : ∀ n ∈ ns, n.item.alone.tags = tagsAll [n.sealed]) :
    Line.tagsAll (layout ns) = tagsAll (sealedAll ns) := by
  have hline : ∀ st : List LineItem, (∀ i ∈ st, ∃ n ∈ ns, n.item = i) →
      (Line.ofItems st).tags = st.flatMap fun i => tagsAll [i.shared] := by
    intro st hst
    refine tags_ofItems fun i hi => ?_
    obtain ⟨n, hn, rfl⟩ := hst i hi
    rw [h n hn, tags_shared]
  rw [Line.tagsAll_eq_flatMap, flatMap_layout hline, ← tagsAll_filter_isBlank]
  exact List.flatMap_congr fun n _ => tags_shared n

theorem tags_item (ns : List (Node Unit)) :
    ∀ n ∈ ns, n.item.alone.tags = tagsAll [n.sealed] := by
  induction ns using forest_induction with
  | nil => simp
  | text content ns ih => exact List.forall_mem_cons.2 ⟨rfl, ih⟩
  | element tag place children ns ihc ihs =>
    refine List.forall_mem_cons.2 ⟨?_, ihs⟩
    rw [item]
    cases hblock : isBlock tag children with
    | true =>
      have hchildless := (isBlock_iff.1 hblock).1
      simp [Line.tags, tags_of_items ihc, sealed, hchildless]
    | false => simp [Line.tags]

theorem tagsAll_layout (ns : List (Node Unit)) :
    Line.tagsAll (layout ns) = tagsAll (sealedAll ns) :=
  tags_of_items (tags_item ns)

theorem tagsAll_relaid (hq : Loose Q) {ns : List (Node Unit)} (h : WellFormedAll Q ns) (d : Nat) :
    tagsAll (relaid d (layout ns)) = (tagsAll (hollowedAll ns)).map Tag.sealed := by
  obtain ⟨-, hsealed, hlayout⟩ := layout_relaid hq h d
  calc tagsAll (relaid d (layout ns))
    _ = tagsAll (sealedAll (relaid d (layout ns))) := by rw [hsealed]
    _ = Line.tagsAll (layout ns) := by rw [← tagsAll_layout, hlayout]
    _ = (tagsAll (hollowedAll ns)).map Tag.sealed := by rw [tagsAll_layout, tagsAll_sealedAll h]

/-! ## Blocks -/

/-- In a sealed forest no void element has children. -/
theorem selfClosed_of_isVoid {ns : List (Node π)}
    (h : sealedAll (unplacedAll ns) = unplacedAll ns) :
    ∀ tag p children, .element tag p children ∈ postorderAll ns → isVoid tag.name = true →
      tag.selfClosed = true ∧ children = [] := by
  induction ns using forest_induction with
  | nil =>
    intro tag p children hmem
    cases hmem
  | text content ns ih => exact ih (List.cons.inj h).2
  | element tag place children ns ihc ihs =>
    obtain ⟨hn, hns⟩ := List.cons.inj h
    rw [unplaced, sealed] at hn
    have hself : isVoid tag.name = true → tag.selfClosed = true ∧ children = [] := by
      intro hvoid
      rw [if_pos (by simp [isChildless, hvoid])] at hn
      injection hn with htag _ hchildren
      rw [unplacedAll_eq_map] at hchildren
      exact ⟨(congrArg Tag.selfClosed htag).symm, List.map_eq_nil_iff.1 hchildren.symm⟩
    have hinside : sealedAll (unplacedAll children) = unplacedAll children := by
      split at hn
      · injection hn with _ _ hchildren
        rw [← hchildren]
        rfl
      · injection hn
    intro tag' p children' hmem hvoid
    rcases List.mem_append.1 hmem with hmem | hmem
    · rcases List.mem_append.1 hmem with hmem | hmem
      · exact ihc hinside tag' p children' hmem hvoid
      · cases List.mem_singleton.1 hmem
        exact hself hvoid
    · exact ihs hns tag' p children' hmem hvoid

structure Templ.Sealed (t u : Templ) : Prop where
  voids : ∀ tag p children, .element tag p children ∈ postorderAll u.body →
    isVoid tag.name = true → tag.selfClosed = true ∧ children = []
  tags : List.Forall₂ Tag.Counterpart (tagsAll (hollowedAll t.body)) (tagsAll u.body)

theorem Templ.Rewritten.sealed {t u : Templ} (h : t.Rewritten u) (ht : t.WellFormed) :
    t.Sealed u := by
  have hbody := ht.body.unplaced
  have hloose := pattern_opensDirective.loose
  refine ⟨selfClosed_of_isVoid ?_, ?_⟩
  · rw [h.body]
    exact (layout_relaid hloose hbody 0).2.1
  · have htags : tagsAll u.body = (tagsAll (hollowedAll t.body)).map Tag.sealed := by
      rw [← tagsAll_unplacedAll, h.body, tagsAll_relaid hloose hbody, tags_hollowed_unplaced]
    rw [htags, List.forall₂_map_right_iff, List.forall₂_same]
    exact fun tag _ => tag.counterpart_sealed

theorem sealed_format {source : Text} {d : Document} (h : parse source = .ok d) :
    ∃ output d', format source = .ok output ∧ parse output = .ok d' ∧ d'.warnings = [] ∧
      List.Forall₂ Templ.Sealed d.templates d'.templates := by
  obtain ⟨output, d', hformat, hparse, hrewritten, -⟩ := format_readBack h
  refine ⟨output, d', hformat, hparse, hrewritten.warnings, ?_⟩
  have hd := wellFormed_parse h
  have hblocks : ∀ t ∈ d.templates, t.WellFormed :=
    fun t ht => hd.declarations _ (Document.mem_templates ht)
  refine ((List.forall₂_and_left _ _).2 ⟨hblocks, hrewritten.templates⟩).imp ?_
  rintro t u ⟨ht, htu⟩
  exact htu.sealed ht

/-- Void elements that close themselves, that are closed, that a tag around them closes and that are open
at the end, with attributes that end in slashes, in a line, in a block and where blanks count. -/
def voidSlashes : Text :=
  Directive.spell "package p".toList ++ Directive.spell "templ t()".toList ++
    "<BR a=/ /><p> <b/><img src='/'>x</IMG><i> <hr> y</i> </p><pre>\n<wbr><u></u> </pre><col>".toList ++
    Directive.spell "endtempl".toList

theorem sealed_format_voidSlashes :
    ∃ d output d', parse voidSlashes = .ok d ∧ d.warnings.length = 1 ∧
      d.templates.map (fun t => (tagsAll (hollowedAll t.body)).map (·.selfClosed)) =
        [[true, false, true, false, false, false, false, false, false, false]] ∧
      format voidSlashes = .ok output ∧ parse output = .ok d' ∧ d'.warnings = [] ∧
      List.Forall₂ Templ.Sealed d.templates d'.templates := by
  have hvalue : (parse voidSlashes).toOption.map (fun d => (d.warnings.length,
      d.templates.map fun t => (tagsAll (hollowedAll t.body)).map (·.selfClosed))) =
      some (1, [[true, false, true, false, false, false, false, false, false, false]]) := by
    decide +kernel
  obtain ⟨d, h, hd⟩ := exists_of_map_toOption hvalue
  obtain ⟨hwarnings, htags⟩ := Prod.mk.inj hd
  obtain ⟨output, d', hformat⟩ := sealed_format h
  exact ⟨d, output, d', h, hwarnings, htags, hformat⟩

end TemplLayout
