import TemplLayout.Proofs.Markup.Joined

/-!
# TemplLayout.Proofs.Markup.Relayout

The forest that a layout is read back as.

* `Line.nodes d l`  — the nodes of a line that stands at depth `d`.
* `lined d ls`      — the nodes of the lines inside an element at depth `d`, a line break before each
  line and before the end of the element.
* `relaid d ls`     — the same with texts that meet joined.

It spells the rows of the lines (`spellAll_relaid`), and its layout is the lines it was made of
(`layout_relaid`).
-/

namespace TemplLayout

open Text Node

variable {Q : Text → Prop}

/-- A line break, and the tabs of the line behind it. -/
def lineBreak (d : Nat) : Text :=
  '\n' :: List.replicate d '\t'

mutual

def Line.nodes (d : Nat) : Line → List (Node Unit)
  | .block tag inner => [.element tag () (joined (lined d inner))]
  | .inline nodes => nodes

def lined (d : Nat) : List Line → List (Node Unit)
  | [] => [.text (lineBreak d)]
  | l :: ls => .text (lineBreak (d + 1)) :: (l.nodes (d + 1) ++ lined d ls)

end

def relaid (d : Nat) (ls : List Line) : List (Node Unit) :=
  joined (lined d ls)

theorem isBlank_lineBreak (d : Nat) : (lineBreak d).isBlank = true := by
  rw [lineBreak, isBlank_cons, isBlank_iff.2]
  · decide
  · intro c hc
    rw [List.eq_of_mem_replicate hc]
    decide

theorem lined_eq_concat (d : Nat) (ls : List Line) :
    ∃ ns, lined d ls = ns ++ [.text (lineBreak d)] := by
  induction ls with
  | nil => exact ⟨[], rfl⟩
  | cons l ls ih =>
    obtain ⟨ns, h⟩ := ih
    refine ⟨.text (lineBreak (d + 1)) :: (l.nodes (d + 1) ++ ns), ?_⟩
    rw [lined, h, List.cons_append, List.append_assoc]

theorem lined_eq_cons (d : Nat) (ls : List Line) :
    ∃ k ns, lined d ls = .text (lineBreak k) :: ns := by
  cases ls with
  | nil => exact ⟨d, [], rfl⟩
  | cons l ls => exact ⟨d + 1, _, rfl⟩

theorem blankAtStart_relaid (d : Nat) (ls : List Line) : blankAtStart (relaid d ls) = true := by
  obtain ⟨k, ns, h⟩ := lined_eq_cons d ls
  rw [relaid, h]
  exact blankAtStart_join rfl _

theorem blankAtEnd_relaid (d : Nat) (ls : List Line) : blankAtEnd (relaid d ls) = true := by
  obtain ⟨ns, h⟩ := lined_eq_concat d ls
  rw [relaid, h]
  have hends := endsBlank_of_isBlank (isBlank_lineBreak d) (by simp [lineBreak])
  exact blankAtEnd_joined_concat hends ns

/-! ## One line -/

/-- The nodes of a line make up that line, at whatever depth they stand. -/
structure Line.Returns (Q : Text → Prop) (l : Line) (d : Nat) : Prop where
  each : ∀ n ∈ l.nodes d, n.WellFormed Q
  stays : ∀ n ∈ l.nodes d, n.sealed = n
  kinds : ((l.nodes d).filter (!·.isBlank)).map (·.isElement) = l.kinds
  items : ∃ st, st ≠ [] ∧ itemsAll (l.nodes d) = st.map some ∧ Line.ofItems st = l

theorem kinds_lined {d : Nat} {ls : List Line} (h : ∀ l ∈ ls, l.Returns Q (d + 1)) :
    ((lined d ls).filter (!·.isBlank)).map (·.isElement) = ls.flatMap Line.kinds := by
  induction ls with
  | nil =>
    rw [lined, List.filter_cons, Node.isBlank, isBlank_lineBreak]
    rfl
  | cons l ls ih =>
    rw [List.forall_mem_cons] at h
    rw [lined, List.filter_cons, Node.isBlank, isBlank_lineBreak, Bool.not_true, if_neg (by simp),
      List.filter_append, List.map_append, h.1.kinds, ih h.2, List.flatMap_cons]

theorem wellFormed_lined (hq : Loose Q) {d : Nat} {ls : List Line}
    (h : ∀ l ∈ ls, l.Returns Q (d + 1)) :
    ∀ n ∈ lined d ls, n.WellFormed Q ∧ n.sealed = n := by
  have hbreak : ∀ k, (Node.text (π := Unit) (lineBreak k)).WellFormed Q ∧
      (Node.text (π := Unit) (lineBreak k)).sealed = .text (lineBreak k) := by
    intro k
    refine ⟨.text (by simp [lineBreak]) ?_ (hq.of_isBlank (isBlank_lineBreak k)), rfl⟩
    exact pattern_startsTag.lacks_of_isBlank (isBlank_lineBreak k)
  induction ls with
  | nil => exact List.forall_mem_cons.2 ⟨hbreak d, by simp⟩
  | cons l ls ih =>
    rw [List.forall_mem_cons] at h
    refine List.forall_mem_cons.2 ⟨hbreak (d + 1), fun n hn => ?_⟩
    rcases List.mem_append.1 hn with hn | hn
    · exact ⟨h.1.each n hn, h.1.stays n hn⟩
    · exact ih h.2 n hn

theorem stretches_lined {d : Nat} {ls : List Line} (h : ∀ l ∈ ls, l.Returns Q (d + 1)) :
    (stretches (itemsAll (lined d ls))).map Line.ofItems = ls := by
  have hbreak : ∀ k, (Node.text (lineBreak k)).items = [none] := by
    intro k
    exact items_of_isBlank (n := .text (lineBreak k)) (isBlank_lineBreak k)
  induction ls with
  | nil =>
    rw [lined, itemsAll, hbreak]
    rfl
  | cons l ls ih =>
    rw [List.forall_mem_cons] at h
    obtain ⟨st, hne, hitems, hline⟩ := h.1.items
    -- The line behind, or the end, begins with a line break of its own.
    obtain ⟨k, ns, hns⟩ := lined_eq_cons d ls
    have hrest := ih h.2
    rw [hns, itemsAll, hbreak, List.singleton_append, stretches_none] at hrest
    rw [lined, itemsAll, hbreak, itemsAll_append, hitems, hns, itemsAll, hbreak,
      List.singleton_append, List.singleton_append, stretches_none, stretches_append_none,
      stretches_map_some hne, List.singleton_append, List.map_cons, hline, hrest]

theorem relaid_spec (hq : Loose Q) {d : Nat} {ls : List Line}
    (h : ∀ l ∈ ls, l.Returns Q (d + 1))
    (hchain : (ls.flatMap Line.kinds).IsChain fun a b => a = true ∨ b = true) :
    WellFormedAll Q (relaid d ls) ∧ sealedAll (relaid d ls) = relaid d ls ∧
      layout (relaid d ls) = ls := by
  have hlined := wellFormed_lined hq h
  rw [← kinds_lined h] at hchain
  obtain ⟨hwf, hcut⟩ := joined_spec hq (fun n hn => (hlined n hn).1) hchain
  refine ⟨hwf, sealedAll_joined fun n hn => (hlined n hn).2, ?_⟩
  rw [layout, relaid, hcut.stretches_eq, stretches_lined h]

/-- A block is one again, as what stands inside it returns. -/
theorem returns_block (hq : Loose Q) {tag : Tag} {inner : List Line} {d : Nat}
    (htag : tag.WellFormed) (hattrs : Q tag.attrs) (hchildless : isChildless tag = false)
    (hpre : isPreformatted tag.name = false) (hany : true ∈ inner.flatMap Line.kinds)
    (hchain : (inner.flatMap Line.kinds).IsChain fun a b => a = true ∨ b = true)
    (hinner : ∀ l ∈ inner, l.Returns Q (d + 1)) : (Line.block tag inner).Returns Q d := by
  obtain ⟨hwf, hsealed, hlayout⟩ := relaid_spec hq hinner hchain
  have hopen : tag.selfClosed = false := (isChildless_eq_false_iff.1 hchildless).1
  have hanyElement : (relaid d inner).any (·.isElement) = true := by
    rw [← kinds_lined hinner] at hany
    obtain ⟨n, hn, helement⟩ := List.mem_map.1 hany
    rw [relaid, any_isElement_joined, List.any_eq_true]
    exact ⟨n, (List.mem_filter.1 hn).1, helement⟩
  have hblock : isBlock tag (relaid d inner) = true :=
    isBlock_iff.2 ⟨hchildless, hpre, hanyElement, blankAtStart_relaid d inner,
      blankAtEnd_relaid d inner⟩
  refine ⟨?_, ?_, rfl, ⟨[(Node.element tag () (relaid d inner)).item], by simp, ?_, ?_⟩⟩
  · simp only [Line.nodes, List.mem_singleton, forall_eq]
    exact wellFormed_element_iff.2 ⟨htag, hattrs, by simp [hopen], hwf⟩
  · simp only [Line.nodes, List.mem_singleton, forall_eq]
    rw [Node.sealed, if_neg (by simp [hchildless])]
    exact congrArg (Node.element tag ()) hsealed
  · rw [Line.nodes, itemsAll, itemsAll, List.append_nil]
    exact items_element tag () (relaid d inner)
  · rw [Line.ofItems, item, if_pos hblock, hlayout]

/-- Nodes that share a line return, as each of them is its own item. -/
theorem returns_inline {nodes : List (Node Unit)} {d : Nat} (hne : nodes ≠ [])
    (heach : ∀ n ∈ nodes, n.WellFormed Q)
    (hstays : ∀ n ∈ nodes, n.sealed = n ∧ n.items = [some n.item] ∧ n.item.shared = n)
    (halone : ∀ n, nodes = [n] → n.item.alone = .inline [n]) :
    (Line.inline nodes).Returns Q d := by
  have hitems : itemsAll nodes = (nodes.map item).map some := by
    clear hne halone heach
    induction nodes with
    | nil => rfl
    | cons n ns ih =>
      rw [List.forall_mem_cons] at hstays
      rw [itemsAll, hstays.1.2.1, ih hstays.2]
      rfl
  have hshown : ∀ n ∈ nodes, n.isBlank = false := by
    intro n hn
    cases hb : n.isBlank with
    | false => rfl
    | true =>
      have hnone := (hstays n hn).2.1
      rw [items_of_isBlank hb] at hnone
      cases hnone
  refine ⟨heach, fun n hn => (hstays n hn).1, ?_, nodes.map item, by simpa using hne, hitems, ?_⟩
  · rw [Line.nodes, Line.kinds, List.filter_eq_self.2 fun n hn => by simp [hshown n hn]]
  · rcases nodes with _ | ⟨n, _ | ⟨m, ns⟩⟩
    · exact absurd rfl hne
    · exact halone n rfl
    · have hshared : ((n :: m :: ns).map item).map (·.shared) = n :: m :: ns := by
        rw [List.map_map]
        refine (List.map_congr_left fun k hk => ?_).trans (List.map_id _)
        exact (hstays k hk).2.2
      exact congrArg Line.inline hshared

theorem Line.WellFormed.returns (hq : Loose Q) {l : Line} (h : l.WellFormed Q) (d : Nat) :
    l.Returns Q d := by
  induction h generalizing d with
  | block htag hattrs hchildless hpre hany hchain _ ih =>
    exact returns_block hq htag hattrs hchildless hpre hany hchain fun l hl => ih l hl (d + 1)
  | inline hne heach hstays halone => exact returns_inline hne heach hstays halone

/-! ## The layout of a forest, read back -/

theorem layout_relaid (hq : Loose Q) {ns : List (Node Unit)} (h : WellFormedAll Q ns) (d : Nat) :
    WellFormedAll Q (relaid d (layout ns)) ∧
      sealedAll (relaid d (layout ns)) = relaid d (layout ns) ∧
      layout (relaid d (layout ns)) = layout ns :=
  relaid_spec hq (fun l hl => (wellFormed_layout hq h l hl).returns hq (d + 1))
    (isChain_kinds_layout h.apart)

/-! ## What it spells -/

theorem spellAll_append (ms ns : List (Node Unit)) :
    spellAll (ms ++ ns) = spellAll ms ++ spellAll ns := by
  rw [spellAll_eq_flatMap, spellAll_eq_flatMap, spellAll_eq_flatMap, List.flatMap_append]

theorem spellAll_lined {d : Nat} {ls : List Line}
    (h : ∀ l ∈ ls, (l.rows (d + 1)).flatMap Row.spell =
      List.replicate (d + 1) '\t' ++ spellAll (l.nodes (d + 1)) ++ ['\n']) :
    spellAll (lined d ls) =
      '\n' :: (Line.rowsAll (d + 1) ls).flatMap Row.spell ++ List.replicate d '\t' := by
  induction ls with
  | nil => simp [lined, spellAll, spell, lineBreak, Line.rowsAll]
  | cons l ls ih =>
    rw [List.forall_mem_cons] at h
    rw [lined, spellAll, spellAll_append, ih h.2, Line.rowsAll, List.flatMap_append, h.1]
    simp [spell, lineBreak]

/-- A line as it is written, with its tabs and its newline. -/
theorem Line.WellFormed.spell_rows {l : Line} (h : l.WellFormed Q) (d : Nat) :
    (l.rows d).flatMap Row.spell =
      List.replicate d '\t' ++ spellAll (l.nodes d) ++ ['\n'] := by
  induction h generalizing d with
  | @block tag inner htag hattrs hchildless hpre hany hchain hinner ih =>
    have hopen : tag.selfClosed = false := (isChildless_eq_false_iff.1 hchildless).1
    have hlined := spellAll_lined fun l hl => ih l hl (d + 1)
    simp [Line.rows, Line.nodes, Row.spell, spellAll, spell, hopen, spellAll_joined, hlined]
  | inline => simp [Line.rows, Line.nodes, Row.spell]

theorem spellAll_relaid (hq : Loose Q) {ns : List (Node Unit)} (h : WellFormedAll Q ns) (d : Nat) :
    spellAll (relaid d (layout ns)) =
      '\n' :: (Line.rowsAll (d + 1) (layout ns)).flatMap Row.spell ++ List.replicate d '\t' := by
  rw [relaid, spellAll_joined]
  exact spellAll_lined fun l hl => (wellFormed_layout hq h l hl).spell_rows (d + 1)

end TemplLayout
