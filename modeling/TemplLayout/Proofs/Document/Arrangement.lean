import TemplLayout.Proofs.Document.Format
import TemplLayout.Proofs.Segment.Row

/-!
# TemplLayout.Proofs.Document.Arrangement

Where everything stands in a formatted text, apart from the markup.

* `Heading.Written h ps`  — `ps` are the pieces of a heading: its directive, one space at each place
  where there can be any, and for a block the markup and the directive that ends it.
* `Arranged c hs ps`      — `ps` are the pieces of a text with the headings `hs` and the trailing text
  `c`: what stands between two headings is settled by the two and by the comment of the second.
* `Heading.WrittenAs h t` — `t` is a heading as a document writes it, with its comment and the end of
  its line.
* `WrittenBehind c h hs t` — `t` is what stands behind the heading `h`, up to the end.

What a document writes is put together from its end to its front, as the end of a line belongs to the
piece of text behind it.
-/

namespace TemplLayout

open Text Piece

namespace Heading

def comment : Heading → Option Text
  | .package _ c => c
  | .importPath _ c => c
  | .templ _ c => c

inductive Written : Heading → List Piece → Prop where
  | package (name : Text) (c : Option Text) :
      Written (.package name c) [.directive (" package ".toList ++ name ++ [' '])]
  | importPath (path : Text) (c : Option Text) :
      Written (.importPath path c) [.directive (" import ".toList ++ path ++ [' '])]
  | templ (s : Signature) (c : Option Text) (markup : Text) :
      Written (.templ s c)
        [.directive (" templ ".toList ++ s.name ++ '(' :: s.params ++ ") ".toList), .literal markup,
          .directive " endtempl ".toList]

/-- Two imports stand on neighbouring lines. All else is parted by a blank line. -/
def between : Heading → Heading → Text
  | .importPath _ _, .importPath _ _ => ['\n']
  | _, _ => ['\n', '\n']

end Heading

/-- A comment, on lines of its own. -/
def above : Option Text → Text
  | none => []
  | some c => c ++ ['\n']

/-- The pieces behind a heading. -/
inductive Behind (trailing : Option Text) : Heading → List Heading → List Piece → Prop where
  | last {h : Heading} : trailing = none → Behind trailing h [] [.literal ['\n', '\n']]
  | trailing {h : Heading} {c : Text} : trailing = some c →
      Behind trailing h [] [.literal (['\n', '\n'] ++ c ++ ['\n', '\n'])]
  | next {h h' : Heading} {hs : List Heading} {written ps : List Piece} : h'.Written written →
      Behind trailing h' hs ps →
      Behind trailing h (h' :: hs) (.literal (h.between h' ++ above h'.comment) :: (written ++ ps))

inductive Arranged (trailing : Option Text) : List Heading → List Piece → Prop where
  | bare {h : Heading} {hs : List Heading} {written ps : List Piece} : h.comment = none →
      h.Written written → Behind trailing h hs ps → Arranged trailing (h :: hs) (written ++ ps)
  | commented {h : Heading} {hs : List Heading} {written ps : List Piece} {c : Text} :
      h.comment = some c → h.Written written → Behind trailing h hs ps →
      Arranged trailing (h :: hs) (.literal (c ++ ['\n']) :: (written ++ ps))

namespace Heading

variable {h : Heading} {written ps : List Piece}

/-! ## The pieces of a heading -/

theorem Written.isRow_append (hw : h.Written written) (heach : ∀ x ∈ written, x.WellFormed)
    (hps : IsRow ps) : IsRow (written ++ ps) := by
  cases hw with
  | package | importPath => exact isRow_cons.2 ⟨heach _ (by simp), fun _ _ => .inl rfl, hps⟩
  | templ =>
    refine isRow_cons.2 ⟨heach _ (by simp), fun _ _ => .inl rfl, ?_⟩
    refine isRow_cons.2 ⟨heach _ (by simp), by simp [isLiteral], ?_⟩
    exact isRow_cons.2 ⟨heach _ (by simp), fun _ _ => .inl rfl, hps⟩

theorem Written.isRow_literal (hw : h.Written written) (heach : ∀ x ∈ written, x.WellFormed)
    (hps : IsRow ps) {t : Text} (hne : t ≠ []) (ht : Lacks opensDirective t) :
    IsRow (.literal t :: (written ++ ps)) := by
  refine isRow_cons.2 ⟨⟨hne, lacks_opensDirective_iff.1 ht⟩, ?_, hw.isRow_append heach hps⟩
  cases hw <;> simp [isLiteral]

/-- A heading ends in a directive. -/
theorem Written.exists_concat (hw : h.Written written) :
    ∃ ps body, written = ps ++ [.directive body] := by
  cases hw with
  | package => exact ⟨[], _, rfl⟩
  | importPath => exact ⟨[], _, rfl⟩
  | templ => exact ⟨[_, _], _, rfl⟩

theorem Written.endsBlank_append (hw : h.Written written) (t : Text) :
    (t ++ spellAll written).endsBlank = false := by
  obtain ⟨ps, body, rfl⟩ := hw.exists_concat
  have hspell : t ++ spellAll (ps ++ [.directive body]) =
      t ++ spellAll ps ++ '{' :: '%' :: body ++ ['%', '}'] := by
    simp [spellAll, spell]
  rw [hspell, Text.endsBlank_append (by simp)]
  rfl

def WrittenAs (h : Heading) (t : Text) : Prop :=
  Lacks opensDirective (above h.comment) ∧
    ∃ written, h.Written written ∧ (∀ x ∈ written, x.WellFormed) ∧
      t = above h.comment ++ spellAll written ++ ['\n']

end Heading

/-! ## The parts of a document -/

theorem Gap.render_eq (g : Gap) : g.render = above g.comment := by
  rw [render]
  cases g.comment <;> rfl

theorem Gap.lacks_above {g : Gap} (h : g.WellFormed) : Lacks opensDirective (above g.comment) := by
  rw [← render_eq]
  exact lacks_render (w := []) rfl h

theorem wellFormed_directive {text : Text} (h : Lacks closesDirective text) :
    (Piece.directive (' ' :: text ++ [' '])).WellFormed :=
  lacks_closesDirective_iff.1
    (Passage.wellFormed_ofDirective pattern_opensDirective.lacks_nil h).body

theorem spell_directive (text : Text) :
    (Piece.directive (' ' :: text ++ [' '])).spell = Directive.spell text :=
  Passage.spell_ofDirective [] text

/-- A heading that is one directive. -/
theorem Heading.writtenAs_directive {h : Heading} {g : Gap} (hg : g.WellFormed)
    (hc : h.comment = g.comment) (k : Keyword) {argument : Text}
    (ha : Lacks closesDirective argument)
    (hw : h.Written [.directive (' ' :: (k.spelling ++ ' ' :: argument) ++ [' '])]) :
    h.WrittenAs (g.render ++ k.directive argument ++ ['\n']) := by
  refine ⟨hc ▸ Gap.lacks_above hg, _, hw, ?_, ?_⟩
  · rw [List.forall_mem_singleton]
    exact wellFormed_directive (lacks_directive k ha)
  · rw [spellAll, List.flatMap_singleton, spell_directive, Gap.render_eq, hc]
    rfl

theorem Package.writtenAs {p : Package} (hp : p.WellFormed) : p.heading.WrittenAs p.render :=
  Heading.writtenAs_directive hp.gap rfl .package hp.lacks (.package p.name p.gap.comment)

theorem Import.writtenAs {i : Import} (hi : i.WellFormed) : i.heading.WrittenAs i.render :=
  Heading.writtenAs_directive hi.gap rfl .importPath hi.lacks (.importPath i.path i.gap.comment)

theorem spaced_templ (s : Signature) :
    " templ ".toList ++ s.name ++ '(' :: s.params ++ ") ".toList =
      ' ' :: (Keyword.templ.spelling ++ ' ' :: s.spell) ++ [' '] := by
  have hspaced : " templ ".toList ++ s.spell ++ [' '] =
      ' ' :: (Keyword.templ.spelling ++ ' ' :: s.spell) ++ [' '] := rfl
  have hclose : ") ".toList = [')'] ++ [' '] := rfl
  rw [← hspaced, hclose, Signature.spell]
  simp only [List.append_assoc]

theorem spaced_endtempl : " endtempl ".toList = ' ' :: Keyword.endtempl.spelling ++ [' '] := rfl

/-- The markup of a block is what it writes between its two directives. -/
theorem Templ.exists_markup {t : Templ} (ht : t.WellFormed) :
    ∃ markup, markup ≠ [] ∧ Lacks opensDirective markup ∧
      t.rows.flatMap Row.spell = Keyword.templ.directive t.signature.spell ++ markup ++
        Directive.spell Keyword.endtempl.spelling ++ ['\n'] := by
  have hloose := pattern_opensDirective.loose
  obtain ⟨hbody, -, -⟩ := layout_relaid hloose ht.body.unplaced 0
  have hlacks := (written_spellAll hbody).lacks hbody
  rw [spellAll_relaid hloose ht.body.unplaced 0, List.replicate_zero, List.append_nil] at hlacks
  exact ⟨_, List.cons_ne_nil _ _, hlacks, by simp [rows, Row.spell]⟩

theorem Templ.writtenAs {t : Templ} (ht : t.WellFormed) : t.heading.WrittenAs t.render := by
  obtain ⟨markup, hne, hmarkup, hrows⟩ := exists_markup ht
  have hopen := lacks_directive .templ (Signature.lacks_spell ht.signature)
  have hend : Lacks closesDirective Keyword.endtempl.spelling :=
    pattern_closesDirective.lacks_of_not_mem (by decide)
  refine ⟨Gap.lacks_above ht.gap, _, .templ t.signature t.gap.comment markup, ?_, ?_⟩
  · rw [spaced_templ, spaced_endtempl, List.forall_mem_cons, List.forall_mem_cons,
      List.forall_mem_singleton]
    exact ⟨wellFormed_directive hopen, ⟨hne, lacks_opensDirective_iff.1 hmarkup⟩,
      wellFormed_directive hend⟩
  · rw [spaced_templ, spaced_endtempl, render, hrows, Gap.render_eq, spellAll, List.flatMap_cons,
      List.flatMap_cons, List.flatMap_singleton, spell_directive, spell_directive, Piece.spell]
    simp only [List.append_assoc]
    rfl

/-! ## What stands behind a heading -/

def WrittenBehind (trailing : Option Text) (h : Heading) (hs : List Heading) (t : Text) : Prop :=
  ∃ ps, Behind trailing h hs ps ∧ IsRow ps ∧ spellAll ps = t

variable {trailing : Option Text} {h h' : Heading} {hs : List Heading} {t u : Text}

theorem Heading.between_cases (h h' : Heading) :
    h.between h' = ['\n'] ∨ h.between h' = ['\n', '\n'] := by
  cases h <;> cases h' <;> simp [between]

theorem WrittenBehind.next (ht : h'.WrittenAs t) (hu : WrittenBehind trailing h' hs ('\n' :: u)) :
    WrittenBehind trailing h (h' :: hs) (h.between h' ++ (t ++ u)) := by
  obtain ⟨habove, written, hwritten, heach, rfl⟩ := ht
  obtain ⟨ps, hbehind, hrow, hspell⟩ := hu
  have hblank : (h.between h').isBlank = true := by
    rcases h.between_cases h' with hb | hb <;> rw [hb] <;> rfl
  have hne : h.between h' ++ above h'.comment ≠ [] := by
    rcases h.between_cases h' with hb | hb <;> rw [hb] <;> simp
  refine ⟨_, .next hwritten hbehind, hwritten.isRow_literal heach hrow hne ?_, ?_⟩
  · exact (pattern_opensDirective.loose.blank_append hblank).2 habove
  · rw [spellAll] at hspell ⊢
    rw [List.flatMap_cons, List.flatMap_append, hspell, Piece.spell, spellAll]
    simp only [List.append_assoc, List.singleton_append]

theorem writtenBehind_nil (h : Heading) {d : Document} (hd : d.WellFormed) :
    WrittenBehind d.trailing h [] (['\n', '\n'] ++ d.renderTrailing) := by
  have hloose := pattern_opensDirective.loose
  rw [Document.renderTrailing]
  cases htrailing : d.trailing with
  | none =>
    refine ⟨_, .last rfl, isRow_cons.2 ⟨⟨by simp, ?_⟩, by simp, isRow_nil⟩, rfl⟩
    exact lacks_opensDirective_iff.1 (hloose.of_isBlank rfl)
  | some c =>
    have hlacks := (hd.trailing c htrailing).lacks
    refine ⟨_, .trailing rfl, isRow_cons.2 ⟨⟨by simp, ?_⟩, by simp, isRow_nil⟩,
      by simp [spellAll, spell]⟩
    rw [← lacks_opensDirective_iff]
    exact (hloose.append_blank rfl).2 ((hloose.blank_append rfl).2 hlacks)

theorem writtenBehind_templates (h : Heading) {d : Document} (hd : d.WellFormed) {ts : List Templ}
    (hts : ∀ t ∈ ts, t.WellFormed) :
    WrittenBehind d.trailing h (ts.map Templ.heading)
      (['\n', '\n'] ++ (ts.flatMap (fun t => t.render ++ ['\n']) ++ d.renderTrailing)) := by
  induction ts generalizing h with
  | nil => exact writtenBehind_nil h hd
  | cons t ts ih =>
    rw [List.forall_mem_cons] at hts
    have hbetween : h.between t.heading = ['\n', '\n'] := by cases h <;> rfl
    rw [← hbetween, List.map_cons, List.flatMap_cons, List.append_assoc, List.append_assoc]
    exact .next (Templ.writtenAs hts.1) (ih t.heading hts.2)

/-- Behind an import the next import follows at once, and a blank line behind the last. -/
theorem writtenBehind_imports (path : Text) (c : Option Text) {is : List Import}
    (his : ∀ i ∈ is, i.WellFormed)
    (hrest : ∀ h : Heading, WrittenBehind trailing h hs (['\n', '\n'] ++ u)) :
    WrittenBehind trailing (.importPath path c) (is.map Import.heading ++ hs)
      ('\n' :: (is.flatMap Import.render ++ '\n' :: u)) := by
  induction is generalizing path c with
  | nil => exact hrest _
  | cons i is ih =>
    rw [List.forall_mem_cons] at his
    rw [List.map_cons, List.cons_append, List.flatMap_cons, List.append_assoc]
    exact .next (Import.writtenAs his.1) (ih _ _ his.2)

theorem writtenBehind_package {p : Package} {d : Document} (hd : d.WellFormed) :
    WrittenBehind d.trailing p.heading
      (d.imports.map Import.heading ++ d.templates.map Templ.heading)
      (['\n', '\n'] ++ (d.renderImports ++
        (d.templates.flatMap (fun t => t.render ++ ['\n']) ++ d.renderTrailing))) := by
  have htemplates := fun h => writtenBehind_templates h hd
    fun t ht => hd.declarations _ (Document.mem_templates ht)
  have himports : ∀ i ∈ d.imports, i.WellFormed :=
    fun i hi => hd.declarations _ (Document.mem_imports hi)
  rw [Document.renderImports]
  cases hi : d.imports with
  | nil => exact htemplates p.heading
  | cons i is =>
    rw [hi, List.forall_mem_cons] at himports
    have hbehind := writtenBehind_imports i.path i.gap.comment himports.2 htemplates
    simp only [List.flatMap_cons, List.append_assoc]
    exact .next (Import.writtenAs himports.1) hbehind

/-! ## The whole text -/

theorem exists_arranged {d : Document} (hd : d.WellFormed) :
    ∃ ps, Arranged d.trailing
        (d.package.heading :: (d.imports.map Import.heading ++ d.templates.map Templ.heading)) ps ∧
      IsRow ps ∧ spellAll ps = d.render := by
  obtain ⟨habove, written, hwritten, heach, hspell⟩ := Package.writtenAs hd.package
  obtain ⟨ps, hbehind, hrow, hps⟩ := writtenBehind_package (p := d.package) hd
  have hrender : d.render = above d.package.heading.comment ++ spellAll (written ++ ps) := by
    rw [spellAll, List.flatMap_append, ← spellAll, ← spellAll, hps, Document.render, hspell]
    simp only [List.append_assoc]
    rfl
  rw [hrender]
  cases hc : d.package.heading.comment with
  | none => exact ⟨_, .bare hc hwritten hbehind, hwritten.isRow_append heach hrow, rfl⟩
  | some c =>
    rw [hc] at habove
    refine ⟨_, .commented hc hwritten hbehind, ?_, rfl⟩
    exact hwritten.isRow_literal heach hrow (by simp) habove

/-- Two line breaks behind a text that does not end in one are not three. -/
theorem not_suffix_blankLines {u : Text} (h : u.endsBlank = false) :
    ¬ ['\n', '\n', '\n'] <:+ u ++ ['\n', '\n'] := by
  rintro ⟨v, hv⟩
  have hu : v ++ ['\n'] = u := by
    rw [← List.append_left_inj ['\n', '\n'], ← hv]
    simp
  rw [← hu, Text.endsBlank_append (by simp)] at h
  cases h

theorem Behind.ends {ps : List Piece} (hb : Behind trailing h hs ps)
    (htrailing : ∀ c ∈ trailing, IsComment c) {t : Text} (ht : t.endsBlank = false) :
    ∃ u : Text, u.endsBlank = false ∧ t ++ spellAll ps = u ++ ['\n', '\n'] := by
  induction hb generalizing t with
  | last => exact ⟨t, ht, rfl⟩
  | @trailing h c hc =>
    have hcomment := htrailing c hc
    refine ⟨t ++ ['\n', '\n'] ++ c, ?_, by simp [spellAll, spell]⟩
    rw [Text.endsBlank_append hcomment.ne_nil]
    exact hcomment.trimmed.ends
  | @next h h' hs written ps hwritten _ ih =>
    have hends := hwritten.endsBlank_append (t ++ (h.between h' ++ above h'.comment))
    obtain ⟨u, hu, hspell⟩ := ih hends
    refine ⟨u, hu, ?_⟩
    rw [← hspell]
    simp [spellAll, spell]

theorem Arranged.ends {ps : List Piece} (ha : Arranged trailing hs ps)
    (htrailing : ∀ c ∈ trailing, IsComment c) :
    ['\n', '\n'] <:+ spellAll ps ∧ ¬ ['\n', '\n', '\n'] <:+ spellAll ps := by
  have hends : ∃ u : Text, u.endsBlank = false ∧ spellAll ps = u ++ ['\n', '\n'] := by
    cases ha with
    | bare _ hwritten hbehind =>
      obtain ⟨u, hu, hspell⟩ := hbehind.ends htrailing (hwritten.endsBlank_append [])
      exact ⟨u, hu, by rw [← hspell, spellAll, List.flatMap_append]; rfl⟩
    | @commented _ _ _ _ c _ hwritten hbehind =>
      obtain ⟨u, hu, hspell⟩ := hbehind.ends htrailing (hwritten.endsBlank_append (c ++ ['\n']))
      refine ⟨u, hu, ?_⟩
      rw [← hspell]
      simp [spellAll, spell]
  obtain ⟨u, hu, hspell⟩ := hends
  rw [hspell]
  exact ⟨List.suffix_append u _, not_suffix_blankLines hu⟩

/-- A formatted text is scanned without a fault, and its pieces are arranged in the one way. -/
theorem arranged_format {source : Text} {d : Document} (h : parse source = .ok d) :
    ∃ output d' ps, format source = .ok output ∧ parse output = .ok d' ∧
      d'.headings =
        d.package.heading :: (d.imports.map Import.heading ++ d.templates.map Templ.heading) ∧
      d'.trailing = d.trailing ∧
      IsRow ps ∧ output = spellAll ps ∧ scan output = (placedAll .start ps).map .ok ∧
      Arranged d'.trailing d'.headings ps ∧
      ['\n', '\n'] <:+ output ∧ ¬ ['\n', '\n', '\n'] <:+ output := by
  have hd := wellFormed_parse h
  obtain ⟨output, d', hformat, hparse, hrewritten, hrender⟩ := format_readBack h
  obtain ⟨ps, harranged, hrow, hspell⟩ := exists_arranged hd
  rw [hrewritten.render_eq] at hrender
  obtain rfl : spellAll ps = output := hspell.trans hrender
  refine ⟨_, d', ps, hformat, hparse, hrewritten.headings_eq, hrewritten.trailing, hrow, rfl,
    scan_row hrow, ?_, harranged.ends hd.trailing⟩
  rw [hrewritten.trailing, hrewritten.headings_eq]
  exact harranged

/-- A comment above the import that is moved in front of the block, and a text behind the last
directive. -/
theorem arranged_format_scattered :
    ∃ output d' ps, format scattered = .ok output ∧ parse output = .ok d' ∧
      d'.headings = [.package "p".toList none, .importPath "\"q\"".toList (some "note".toList),
        .templ ⟨"t".toList, "x".toList⟩ none] ∧
      d'.trailing = some "end".toList ∧
      IsRow ps ∧ output = spellAll ps ∧ scan output = (placedAll .start ps).map .ok ∧
      Arranged d'.trailing d'.headings ps ∧
      ['\n', '\n'] <:+ output ∧ ¬ ['\n', '\n', '\n'] <:+ output := by
  have hvalue : (parse scattered).toOption.map (fun d =>
      (d.package.heading :: (d.imports.map Import.heading ++ d.templates.map Templ.heading),
        d.trailing)) =
      some ([.package "p".toList none, .importPath "\"q\"".toList (some "note".toList),
        .templ ⟨"t".toList, "x".toList⟩ none], some "end".toList) := by
    decide +kernel
  obtain ⟨d, h, hd⟩ := exists_of_map_toOption hvalue
  obtain ⟨hheadings, htrailing⟩ := Prod.mk.inj hd
  rw [← hheadings, ← htrailing]
  exact arranged_format h

end TemplLayout
