import TemplLayout.Proofs.Document.Format

/-!
# TemplLayout.Proofs.Document.Indentation

How the markup that was formatted is indented.

* `Strip`              — the blank characters at one end of a text, or a node without them.
* `Node.stripsAll ns`  — the siblings `ns` cut into strips. The layout sees no more of the blank strips
  than where they are (`itemsAll_eq_strips`).
* `Indented d ns`      — the siblings stand at depth `d`: in front of each of their lines there is a
  newline with `d` tabs behind it and nothing else, at the end there are `d - 1` tabs, and what is in a
  block stands one level deeper.

A forest that is read back from its layout has its lines and one line break in front of each
(`stripsAll_relaid`), so every block of a formatted text is indented (`indented_format`).
-/

namespace TemplLayout

open Text Node

variable {Q : Text → Prop}

/-! ## Strips -/

inductive Strip where
  | blank (space : Text)
  | shown (n : Node Unit)
deriving DecidableEq

def Strip.item? : Strip → Option LineItem
  | .blank _ => none
  | .shown n => some n.item

/-- Blank characters, when there are any. -/
def Strip.space (w : Text) : List Strip :=
  if w.isEmpty then [] else [.blank w]

theorem Strip.space_of_ne_nil {w : Text} (h : w ≠ []) : Strip.space w = [.blank w] :=
  if_neg (by simpa using h)

namespace Node

def strips : Node Unit → List Strip
  | .text content =>
    if content.isBlank then [.blank content]
    else
      Strip.space content.leadingBlanks ++
        .shown (.text content.trim) :: Strip.space content.trailingBlanks
  | .element tag place children => [.shown (.element tag place children)]

def stripsAll (ns : List (Node Unit)) : List Strip :=
  ns.flatMap strips

theorem stripsAll_cons (n : Node Unit) (ns : List (Node Unit)) :
    stripsAll (n :: ns) = n.strips ++ stripsAll ns :=
  List.flatMap_cons

theorem stripsAll_append (ms ns : List (Node Unit)) :
    stripsAll (ms ++ ns) = stripsAll ms ++ stripsAll ns :=
  List.flatMap_append

theorem strips_of_isBlank {content : Text} (h : content.isBlank = true) :
    (Node.text content).strips = [.blank content] :=
  if_pos h

theorem strips_of_not_isBlank {content : Text} (h : content.isBlank = false) :
    (Node.text content).strips = Strip.space content.leadingBlanks ++
      .shown (.text content.trim) :: Strip.space content.trailingBlanks :=
  if_neg (by rw [h]; exact Bool.false_ne_true)

theorem item?_space {w : Text} {b : Bool} (h : w = [] ↔ b = false) :
    (Strip.space w).map Strip.item? = if b then [none] else [] := by
  cases b with
  | false =>
    rw [h.2 rfl]
    rfl
  | true =>
    rw [Strip.space_of_ne_nil fun hnil => absurd (h.1 hnil) (by simp)]
    rfl

theorem items_eq_strips (n : Node Unit) : n.items = n.strips.map Strip.item? := by
  cases n with
  | text content =>
    cases hb : content.isBlank with
    | true => rw [items_of_isBlank (n := .text content) hb, strips_of_isBlank hb]; rfl
    | false =>
      rw [items_text hb, strips_of_not_isBlank hb, List.map_append, List.map_cons,
        item?_space leadingBlanks_eq_nil_iff, item?_space trailingBlanks_eq_nil_iff, Strip.item?,
        item_text_congr (trimmed_trim content).trim_eq]
  | element tag place children => exact items_element tag place children

theorem itemsAll_eq_strips (ns : List (Node Unit)) :
    itemsAll ns = (stripsAll ns).map Strip.item? := by
  induction ns with
  | nil => rfl
  | cons n ns ih => rw [itemsAll, ih, items_eq_strips, stripsAll_cons, List.map_append]

/-- A text that is not blank falls into its strips wherever it is cut so that its core is trimmed. -/
theorem strips_text {s t u : Text} (hs : s.isBlank = true) (ht : t.Trimmed) (hne : t ≠ [])
    (hu : u.isBlank = true) :
    (Node.text (s ++ t ++ u)).strips = Strip.space s ++ .shown (.text t) :: Strip.space u := by
  have hblank : (s ++ t ++ u).isBlank = false := by simp [ht.not_isBlank hne]
  have hlead : (s ++ t ++ u).leadingBlanks = s := by
    have hstart : (t ++ u).startsBlank = false := by rw [startsBlank_append hne, ht.start]
    have h := leadingBlanks_append (s ++ t ++ u)
    rw [List.append_assoc, trimStart_append hs, trimStart_eq hstart, List.append_left_inj] at h
    rwa [List.append_assoc]
  have htrail : (s ++ t ++ u).trailingBlanks = u := by
    have hends : (s ++ t).endsBlank = false := by rw [endsBlank_append hne, ht.ends]
    have h := trimEnd_append (s ++ t ++ u)
    rwa [trimEnd_append_blank _ hu, trimEnd_eq hends, List.append_right_inj] at h
  rw [strips_of_not_isBlank hblank, hlead, htrail, ht.trim_append hs hu]

theorem strips_of_trimmed {t : Text} (ht : t.Trimmed) (hne : t ≠ []) :
    (Node.text t).strips = [.shown (.text t)] := by
  have h := strips_text (s := []) (u := []) rfl ht hne rfl
  rwa [List.append_nil] at h

theorem strips_blank_append {s t : Text} (hs : s.isBlank = true) (hsne : s ≠ [])
    (ht : t.startsBlank = false) (hne : t ≠ []) :
    (Node.text (s ++ t)).strips = .blank s :: (Node.text t).strips := by
  have hblank : t.isBlank = false := by
    rw [Bool.eq_false_iff]
    intro h
    rw [startsBlank_of_isBlank h hne] at ht
    cases ht
  have hcut : t.trim ++ t.trailingBlanks = t := by
    have h := leadingBlanks_append_trim_append t
    rwa [leadingBlanks_eq_nil_iff.2 ht, List.nil_append, trimStart_eq ht] at h
  have hcore := strips_text hs (trimmed_trim t) (trim_ne_nil hblank) (isBlank_trailingBlanks t)
  rw [List.append_assoc, hcut, Strip.space_of_ne_nil hsne] at hcore
  rw [hcore, strips_of_not_isBlank hblank, leadingBlanks_eq_nil_iff.2 ht]
  rfl

theorem strips_append_blank {s t : Text} (hs : s.Trimmed) (hsne : s ≠ []) (ht : t.isBlank = true)
    (hne : t ≠ []) : (Node.text (s ++ t)).strips = [.shown (.text s), .blank t] := by
  have h := strips_text (s := []) rfl hs hsne ht
  rwa [List.nil_append, Strip.space_of_ne_nil hne] at h

/-! ## Joining strips -/

/-- A text that is one strip, or an element. -/
def Single : Node Unit → Prop
  | .text content => content ≠ [] ∧ (content.isBlank = true ∨ content.Trimmed)
  | .element _ _ _ => True

/-- Two texts are joined without a loss, when one of them is blank and they do not meet in blanks. -/
theorem strips_append {s t : Text} (hs : (Node.text s).Single) (hne : t ≠ [])
    (hstart : s.isBlank = true → t.startsBlank = false)
    (hblank : s.isBlank = true ∨ t.isBlank = true) :
    (Node.text (s ++ t)).strips = (Node.text s).strips ++ (Node.text t).strips := by
  rcases hs.2 with hsb | htrimmed
  · rw [strips_blank_append hsb hs.1 (hstart hsb) hne, strips_of_isBlank hsb]
    rfl
  · have ht : t.isBlank = true := hblank.resolve_left (by simp [htrimmed.not_isBlank hs.1])
    rw [strips_append_blank htrimmed hs.1 ht hne, strips_of_trimmed htrimmed hs.1,
      strips_of_isBlank ht]
    rfl

/-- Joining lengthens the first text at its end only. -/
theorem exists_of_joined_eq_cons {ns : List (Node Unit)} {t : Text} {rest : List (Node Unit)}
    (h : joined ns = .text t :: rest) : ∃ s ms, ns = .text s :: ms ∧ s <+: t := by
  cases ns with
  | nil => cases h
  | cons n ns =>
    rw [joined_cons] at h
    rcases join_cases n (joined ns) with ⟨s, u, rest', rfl, -, heq⟩ | ⟨heq, -⟩
    · rw [heq] at h
      cases h
      exact ⟨s, ns, rfl, List.prefix_append s u⟩
    · rw [heq] at h
      cases h
      exact ⟨t, ns, rfl, List.prefix_refl t⟩

/-- Joining keeps the strips, as long as no two of one kind meet. -/
theorem stripsAll_joined {ns : List (Node Unit)} (h : ∀ n ∈ ns, n.Single)
    (hblank : ns.IsChain fun m n => m.isBlank = true → n.isBlank = false)
    (hshown : ((ns.filter (!·.isBlank)).map (·.isElement)).IsChain
      fun a b => a = true ∨ b = true) :
    stripsAll (joined ns) = stripsAll ns := by
  induction ns with
  | nil => rfl
  | cons n ns ih =>
    rw [List.forall_mem_cons] at h
    rw [List.isChain_cons] at hblank
    have hns := ih h.2 hblank.2 (isChain_kinds_tail hshown)
    rw [joined_cons]
    rcases join_cases n (joined ns) with ⟨s, t, rest, rfl, hjoined, heq⟩ | ⟨heq, -⟩
    · -- The text behind begins like the one that it was made of.
      obtain ⟨u, ms, rfl, hprefix⟩ := exists_of_joined_eq_cons hjoined
      have hu : (Node.text u).Single := h.2 _ (List.mem_cons_self ..)
      have hne : t ≠ [] := fun hnil => hu.1 (List.prefix_nil.1 (hnil ▸ hprefix))
      have hstart : s.isBlank = true → t.startsBlank = false := by
        intro hs
        have hub : u.isBlank = false := hblank.1 _ rfl hs
        obtain ⟨v, rfl⟩ := hprefix
        rw [startsBlank_append hu.1]
        exact (hu.2.resolve_left (by simp [hub])).start
      have hcut := strips_append h.1 hne hstart (isBlank_of_joined hshown hjoined)
      rw [hjoined, stripsAll_cons] at hns
      rw [heq, stripsAll_cons, hcut, List.append_assoc, hns, stripsAll_cons (.text s)]
    · rw [heq, stripsAll_cons, hns, stripsAll_cons]

/-- A text that is an item as it stands has no blank ends. -/
theorem trimmed_of_items {content : Text}
    (h : (Node.text content).items = [some (Node.text content).item]) :
    content.isBlank = false ∧ content.Trimmed := by
  cases hb : content.isBlank with
  | true =>
    rw [items_of_isBlank (n := .text content) hb] at h
    cases h
  | false =>
    rw [items_text hb] at h
    cases hs : content.startsBlank <;> cases he : content.endsBlank <;> simp [hs, he] at h
    exact ⟨rfl, hs, he⟩

end Node

/-! ## Lines -/

/-- Each node of the line is a strip that shows. -/
structure Line.Solid (l : Line) (d : Nat) : Prop where
  ne_nil : l.nodes d ≠ []
  single : ∀ n ∈ l.nodes d, n.Single
  shown : ∀ n ∈ l.nodes d, n.isBlank = false
  strips : stripsAll (l.nodes d) = (l.nodes d).map .shown

theorem Line.WellFormed.solid {l : Line} (h : l.WellFormed Q) (d : Nat) : l.Solid d := by
  cases h with
  | block =>
    refine ⟨?_, ?_, ?_, rfl⟩
    · simp [Line.nodes]
    · simp [Line.nodes, Single]
    · simp [Line.nodes, Node.isBlank]
  | @inline nodes hne heach hstays halone =>
    have hsolid : ∀ n ∈ nodes, n.Single ∧ n.isBlank = false ∧ n.strips = [.shown n] := by
      intro n hn
      cases n with
      | text content =>
        obtain ⟨hb, ht⟩ := trimmed_of_items (hstays _ hn).2.1
        have hnil := (heach _ hn).ne_nil
        exact ⟨⟨hnil, .inr ht⟩, hb, strips_of_trimmed ht hnil⟩
      | element tag place children => exact ⟨trivial, rfl, rfl⟩
    refine ⟨hne, fun n hn => (hsolid n hn).1, fun n hn => (hsolid n hn).2.1, ?_⟩
    rw [List.map_eq_flatMap]
    exact List.flatMap_congr fun n hn => (hsolid n hn).2.2

section Lined

variable {d : Nat} {ls : List Line}

theorem single_lined (h : ∀ l ∈ ls, l.Solid (d + 1)) : ∀ n ∈ lined d ls, n.Single := by
  have hbreak : ∀ k, (Node.text (lineBreak k)).Single := fun k =>
    ⟨List.cons_ne_nil _ _, .inl (isBlank_lineBreak k)⟩
  induction ls with
  | nil => exact List.forall_mem_cons.2 ⟨hbreak d, by simp⟩
  | cons l ls ih =>
    rw [List.forall_mem_cons] at h
    rw [lined, List.forall_mem_cons, List.forall_mem_append]
    exact ⟨hbreak (d + 1), h.1.single, ih h.2⟩

/-- Something that shows stands between two line breaks. -/
theorem isChain_lined (h : ∀ l ∈ ls, l.Solid (d + 1)) :
    (lined d ls).IsChain fun m n => m.isBlank = true → n.isBlank = false := by
  induction ls with
  | nil => exact .singleton _
  | cons l ls ih =>
    rw [List.forall_mem_cons] at h
    obtain ⟨hl, hls⟩ := h
    rw [lined, List.isChain_cons, List.isChain_append]
    refine ⟨fun n hn _ => ?_, ?_, ih hls, fun m hm _ _ hb => ?_⟩
    · rw [List.head?_append_of_ne_nil _ hl.ne_nil] at hn
      exact hl.shown n (List.mem_of_head? hn)
    · exact List.Pairwise.isChain (List.pairwise_of_forall_mem_list fun _ _ n hn _ => hl.shown n hn)
    · rw [hl.shown m (List.mem_of_getLast? hm)] at hb
      cases hb

theorem stripsAll_lined (h : ∀ l ∈ ls, l.Solid (d + 1)) :
    stripsAll (lined d ls) =
      ls.flatMap (fun l => .blank (lineBreak (d + 1)) :: (l.nodes (d + 1)).map .shown) ++
        [.blank (lineBreak d)] := by
  have hbreak : ∀ k ns, stripsAll (.text (lineBreak k) :: ns) =
      .blank (lineBreak k) :: stripsAll ns := by
    intro k ns
    rw [stripsAll_cons, strips_of_isBlank (isBlank_lineBreak k), List.singleton_append]
  induction ls with
  | nil => exact hbreak d []
  | cons l ls ih =>
    rw [List.forall_mem_cons] at h
    rw [lined, hbreak, stripsAll_append, h.1.strips, ih h.2]
    simp

/-- Each line of a forest that was laid out stands behind one line break, and one stands at the end. -/
theorem stripsAll_relaid (hq : Loose Q) (h : ∀ l ∈ ls, l.WellFormed Q)
    (hchain : (ls.flatMap Line.kinds).IsChain fun a b => a = true ∨ b = true) :
    stripsAll (relaid d ls) =
      ls.flatMap (fun l => .blank (lineBreak (d + 1)) :: (l.nodes (d + 1)).map .shown) ++
        [.blank (lineBreak d)] := by
  have hsolid : ∀ l ∈ ls, l.Solid (d + 1) := fun l hl => (h l hl).solid (d + 1)
  rw [← kinds_lined fun l hl => (h l hl).returns hq (d + 1)] at hchain
  rw [relaid, stripsAll_joined (single_lined hsolid) (isChain_lined hsolid) hchain,
    stripsAll_lined hsolid]

end Lined

/-! ## Indentation -/

inductive Indented : Nat → List (Node Unit) → Prop
  | mk {d : Nat} {ns : List (Node Unit)} {lines : List (List (Node Unit))} :
      stretches (itemsAll ns) = lines.map (·.map item) →
      stripsAll ns = lines.flatMap (fun line => .blank (lineBreak (d + 1)) :: line.map .shown) ++
        [.blank (lineBreak d)] →
      (∀ tag place children, [.element tag place children] ∈ lines → isBlock tag children = true →
        Indented (d + 1 + 1) children) →
      Indented (d + 1) ns

theorem indented_relaid (hq : Loose Q) {d : Nat} {ls : List Line} (h : ∀ l ∈ ls, l.WellFormed Q)
    (hchain : (ls.flatMap Line.kinds).IsChain fun a b => a = true ∨ b = true)
    (hinner : ∀ l ∈ ls, ∀ tag place children, l.nodes (d + 1) = [.element tag place children] →
      isBlock tag children = true → Indented (d + 1 + 1) children) :
    Indented (d + 1) (relaid d ls) := by
  have hstrips := stripsAll_relaid hq (d := d) h hchain
  have hlines : stretches (itemsAll (relaid d ls)) =
      (ls.map (·.nodes (d + 1))).map (·.map item) := by
    have hne : ∀ line ∈ (ls.map (·.nodes (d + 1))).map (·.map item), line ≠ [] := by
      simpa using fun l hl => ((h l hl).solid (d + 1)).ne_nil
    rw [← stretches_flatMap hne, itemsAll_eq_strips, hstrips]
    simp [List.map_flatMap, List.flatMap_map, Strip.item?, Function.comp_def]
  refine .mk hlines ?_ ?_
  · rw [hstrips, List.flatMap_map]
  · intro tag place children hmem hblock
    obtain ⟨l, hl, hnodes⟩ := List.mem_map.1 hmem
    exact hinner l hl tag place children hnodes hblock

/-- What is in a block line stands one level deeper than the line. -/
theorem Line.WellFormed.indented (hq : Loose Q) {l : Line} (h : l.WellFormed Q) (d : Nat) :
    ∀ tag place children, l.nodes d = [.element tag place children] →
      isBlock tag children = true → Indented (d + 1) children := by
  induction h generalizing d with
  | @block tag inner htag hattrs hchildless hpre hany hchain hinner ih =>
    intro tag' place children hnodes hblock
    cases hnodes
    exact indented_relaid hq hinner hchain fun l hl => ih l hl (d + 1)
  | @inline nodes hne heach hstays halone =>
    intro tag place children hnodes hblock
    have halone := halone _ hnodes
    rw [item, if_pos hblock] at halone
    cases halone

theorem indented_layout (hq : Loose Q) {ns : List (Node Unit)} (h : WellFormedAll Q ns) (d : Nat) :
    Indented (d + 1) (relaid d (layout ns)) := by
  have hlines := wellFormed_layout hq h
  exact indented_relaid hq hlines (isChain_kinds_layout h.apart) fun l hl =>
    (hlines l hl).indented hq (d + 1)

/-- The block is what its layout is read back as, since the block that it was rewritten from has the same
layout. -/
theorem Templ.Rewritten.body_eq {t u : Templ} (h : t.Rewritten u) :
    unplacedAll u.body = relaid 0 (layout (unplacedAll u.body)) := by
  rw [h.lines, ← h.body]

theorem Document.Rewritten.bodies_eq {d d' : Document} (h : d.Rewritten d') :
    ∀ u ∈ d'.templates, unplacedAll u.body = relaid 0 (layout (unplacedAll u.body)) := by
  have hflip : List.Forall₂ (flip Templ.Rewritten) d'.templates d.templates := h.templates.flip
  exact ((List.forall₂_and_left (R := fun _ _ => True) _ _).1
    (hflip.imp fun u t htu => ⟨Templ.Rewritten.body_eq htu, trivial⟩)).1

/-- The markup of each block of a formatted text stands indented at the first level. -/
theorem indented_format {source : Text} {d : Document} (h : parse source = .ok d) :
    ∃ output d', format source = .ok output ∧ parse output = .ok d' ∧
      ∀ t ∈ d'.templates, Indented 1 (unplacedAll t.body) := by
  obtain ⟨output, d', hformat, hparse, hrewritten, -⟩ := format_readBack h
  refine ⟨output, d', hformat, hparse, fun t ht => ?_⟩
  have hwf : t.WellFormed := (wellFormed_parse hparse).declarations _ (Document.mem_templates ht)
  rw [hrewritten.bodies_eq t ht]
  exact indented_layout pattern_opensDirective.loose hwf.body.unplaced 0

/-- Blocks in a block, an element that stays on its line with the newlines in it, and a block without
lines. -/
def nested : Text :=
  Directive.spell "package p".toList ++ Directive.spell "templ t()".toList ++
    "a <ul> <li> b<i>c</i> <pre>\n\n</pre></li>\n\n<li> <p> <br> </p>  </li>   </ul>".toList ++
    Directive.spell "endtempl".toList ++ Directive.spell "templ u()".toList ++
    Directive.spell "endtempl".toList

def stepped : Text :=
  Directive.spell "package p".toList ++ "\n\n".toList ++ Directive.spell "templ t()".toList ++
    "\n\ta\n\t<ul>\n\t\t<li> b<i>c</i> <pre>\n\n</pre></li>".toList ++
    "\n\t\t<li>\n\t\t\t<p>\n\t\t\t\t<br/>\n\t\t\t</p>\n\t\t</li>\n\t</ul>\n".toList ++
    Directive.spell "endtempl".toList ++ "\n\n".toList ++ Directive.spell "templ u()".toList ++
    "\n".toList ++ Directive.spell "endtempl".toList ++ "\n\n".toList

theorem indented_format_nested :
    ∃ d, format nested = .ok stepped ∧ parse stepped = .ok d ∧
      d.templates.map (fun t => (stretches (itemsAll (unplacedAll t.body))).length) = [2, 0] ∧
      ∀ t ∈ d.templates, Indented 1 (unplacedAll t.body) := by
  have hformat : (format nested).toOption.map id = some stepped := by decide +kernel
  have hlines : (parse stepped).toOption.map (fun d =>
      d.templates.map fun t => (stretches (itemsAll (unplacedAll t.body))).length) =
      some [2, 0] := by
    decide +kernel
  obtain ⟨output, hformat, rfl⟩ := exists_of_map_toOption hformat
  obtain ⟨d', hparse, hlines⟩ := exists_of_map_toOption hlines
  obtain ⟨d, h, -⟩ := exists_parse_of_format hformat
  obtain ⟨output', d'', hformat', hparse', hindented⟩ := indented_format h
  rw [hformat] at hformat'
  cases hformat'
  rw [hparse] at hparse'
  cases hparse'
  exact ⟨d', hformat, hparse, hlines, hindented⟩

end TemplLayout
