import TemplLayout.Proofs.Document.Reading
import TemplLayout.Proofs.Markup.ReadBack
import TemplLayout.Proofs.Markup.Relayout

/-!
# TemplLayout.Proofs.Document.ReadBack

A document that has been written is read back.

* `Import.Same i j`          — the same import, apart from where it stands.
* `Templ.Rewritten t u`      — `u` is the block `t` as it is written: its markup is laid out again.
* `Document.Rewritten d d'`  — `d'` is the document `d` as it is written: the imports first, then the
  blocks.

What is written of a well-formed document is read back as the document rewritten (`parse_render`),
and that is written in the same way (`Rewritten.render_eq`).
-/

namespace TemplLayout

open Text

structure Import.Same (i j : Import) : Prop where
  path : j.path = i.path
  comment : j.gap.comment = i.gap.comment

structure Templ.Rewritten (t u : Templ) : Prop where
  signature : u.signature = t.signature
  comment : u.gap.comment = t.gap.comment
  body : Node.unplacedAll u.body = relaid 0 (layout (Node.unplacedAll t.body))
  lines : layout (Node.unplacedAll u.body) = layout (Node.unplacedAll t.body)

structure Document.Rewritten (d d' : Document) : Prop where
  name : d'.package.name = d.package.name
  comment : d'.package.gap.comment = d.package.gap.comment
  declarations : d'.declarations = d'.imports.map .importPath ++ d'.templates.map .templ
  imports : List.Forall₂ Import.Same d.imports d'.imports
  templates : List.Forall₂ Templ.Rewritten d.templates d'.templates
  trailing : d'.trailing = d.trailing
  warnings : d'.warnings = []

/-! ## Gaps -/

theorem Gap.comment_ofText {w : Text} {g : Gap} (hw : w.isBlank = true) (hg : g.WellFormed) :
    (ofText (w ++ g.render)).comment = g.comment := by
  rw [Gap.render]
  cases hc : g.comment with
  | none => simp [ofText, hw]
  | some c =>
    have hcomment := hg c hc
    have hblank := hcomment.trimmed.not_isBlank hcomment.ne_nil
    have htrim := hcomment.trimmed.trim_append (s := w) (u := ['\n']) hw rfl
    rw [List.append_assoc] at htrim
    simp [ofText, hblank, htrim]

theorem Gap.comment_ofText_append {w : Text} (t : Text) (hw : w.isBlank = true) :
    (ofText (t ++ w)).comment = (ofText t).comment := by
  simp [ofText, hw, trim_append_blank t hw]

theorem Gap.lacks_render {w : Text} {g : Gap} (hw : w.isBlank = true) (hg : g.WellFormed) :
    Lacks opensDirective (w ++ g.render) := by
  have hloose := pattern_opensDirective.loose
  rw [hloose.blank_append hw, Gap.render]
  cases hc : g.comment with
  | none => exact pattern_opensDirective.lacks_nil
  | some c => exact (hloose.append_blank rfl).2 (hg c hc).lacks

namespace Reading

variable (package : Package) (ds : List Declaration) (ws : List Warning) {w : Text}

/-! ## One part at a time -/

/-- A directive outside a block, with the comment in front of it. -/
theorem feed_directive {r : Reading} (hgap : r.gap = .empty)
    (hstage : ∀ package t n, r.stage ≠ .block package t n) (k : Keyword) {argument : Text}
    (ha : argument.Trimmed) (hne : argument ≠ []) (hlacks : Lacks closesDirective argument)
    (hw : w.isBlank = true) {g : Gap} (hg : g.WellFormed) (p : Position) (u : Text) :
    ∃ q p', feed step r (scanFrom p (w ++ (g.render ++ k.directive argument ++ ['\n'] ++ u))) =
      feed step { r with gap := .ofText (w ++ g.render) }
        (.ok (.directive (k.spelling ++ ' ' :: argument) q) :: scanFrom p' (['\n'] ++ u)) := by
  refine ⟨p.after (w ++ g.render), p.after (w ++ g.render ++ k.directive argument), ?_⟩
  rw [← feed_gap hgap hstage p, Keyword.directive,
    ← scanFrom_ofDirective (Gap.lacks_render hw hg) (lacks_directive k hlacks)
      (trimmed_directive k ha hne)]
  simp only [List.append_assoc]

theorem feed_package {q : Package} (hq : q.WellFormed) (p : Position) (u : Text) :
    ∃ q' p', q'.name = q.name ∧ q'.gap.comment = q.gap.comment ∧
      feed step start (scanFrom p (q.render ++ u)) =
        feed step ⟨.top q', [], .empty, []⟩ (scanFrom p' (['\n'] ++ u)) := by
  have hname := trimmed_of_isWord hq.name
  obtain ⟨q', p', hfeed⟩ := feed_directive (r := start) rfl (by simp [start]) .package hname
    (ne_nil_of_isWord hq.name) hq.lacks (w := []) rfl hq.gap p u
  obtain ⟨hk, ha⟩ := read_directive .package hname q'
  refine ⟨⟨q.name, .ofText q.gap.render, q'⟩, p', rfl, Gap.comment_ofText (w := []) rfl hq.gap, ?_⟩
  refine hfeed.trans (feed_cons _ ?_)
  simp [step, start, packageStep, hk, ha, hq.name]

theorem feed_import {i : Import} (hi : i.WellFormed) (hw : w.isBlank = true) (p : Position)
    (u : Text) :
    ∃ j p', i.Same j ∧
      feed step ⟨.top package, ds, .empty, ws⟩ (scanFrom p (w ++ (i.render ++ u))) =
        feed step ⟨.top package, .importPath j :: ds, .empty, ws⟩ (scanFrom p' (['\n'] ++ u)) := by
  obtain ⟨q, p', hfeed⟩ := feed_directive (r := ⟨.top package, ds, .empty, ws⟩) rfl (by simp)
    .importPath hi.trimmed hi.ne_nil hi.lacks hw hi.gap p u
  obtain ⟨hk, ha⟩ := read_directive .importPath hi.trimmed q
  refine ⟨⟨i.path, .ofText (w ++ i.gap.render), q⟩, p', ⟨rfl, Gap.comment_ofText hw hi.gap⟩, ?_⟩
  refine hfeed.trans (feed_cons _ ?_)
  simp [step, topStep, hk, ha, hi.ne_nil]

/-- The text of a block, and the directive that ends it. -/
theorem feed_body (t : OpenTempl) {ns : List (Node Unit)}
    (hns : Node.WellFormedAll (Lacks opensDirective) ns) (hsealed : Node.sealedAll ns = ns)
    (p : Position) (u : Text) :
    ∃ f p', Node.unplacedAll f = ns ∧
      feed step ⟨.block package t .empty, ds, .empty, ws⟩
          (scanFrom p (Node.spellAll ns ++ (Directive.spell Keyword.endtempl.spelling ++ u))) =
        feed step ⟨.top package, .templ ⟨t.signature, f, t.gap, t.position⟩ :: ds, .empty, ws⟩
          (scanFrom p' u) := by
  have hwritten := written_spellAll hns
  obtain ⟨f, hf, hfeed⟩ := feed_written_all hwritten hns p
  rw [Node.unplacedAll_unit] at hf
  have hwarnings : Forest.warnings f = [] := by
    rw [Forest.warnings_eq_nil_iff, hf, ← hsealed, Node.loadedAll_sealedAll]
  have htrim : Keyword.endtempl.spelling.Trimmed := ⟨rfl, rfl⟩
  have hk : ∀ q, (Directive.mk Keyword.endtempl.spelling q).keyword? = some .endtempl :=
    fun _ => rfl
  have ha : ∀ q, (Directive.mk Keyword.endtempl.spelling q).argument = [] := fun _ => rfl
  refine ⟨f, p.after (Node.spellAll ns ++ Directive.spell Keyword.endtempl.spelling), hf, ?_⟩
  rw [scanFrom_ofDirective (hwritten.lacks hns)
      (pattern_closesDirective.lacks_of_not_mem (by decide)) htrim, feed_markup rfl hfeed]
  refine feed_cons _ ?_
  simp [step, blockStep, hk, ha, Nesting.finish_extend_empty, Nesting.warnings_extend_empty,
    hwarnings]

theorem feed_templ {t : Templ} (ht : t.WellFormed) (hw : w.isBlank = true) (p : Position)
    (u : Text) :
    ∃ t' p', t.Rewritten t' ∧
      feed step ⟨.top package, ds, .empty, ws⟩ (scanFrom p (w ++ (t.render ++ u))) =
        feed step ⟨.top package, .templ t' :: ds, .empty, ws⟩ (scanFrom p' (['\n'] ++ u)) := by
  have hloose := pattern_opensDirective.loose
  obtain ⟨hbody, hsealed, hlayout⟩ := layout_relaid hloose ht.body.unplaced 0
  have hspell := spellAll_relaid hloose ht.body.unplaced 0
  have hs := Signature.trimmed_spell ht.signature
  have hne : t.signature.spell ≠ [] := by simp [Signature.spell]
  have hrender : t.render ++ u = t.gap.render ++ Keyword.templ.directive t.signature.spell ++
      ['\n'] ++ ((Line.rowsAll 1 (layout (Node.unplacedAll t.body))).flatMap Row.spell ++
        (Directive.spell Keyword.endtempl.spelling ++ (['\n'] ++ u))) := by
    simp [Templ.render, Templ.rows, Row.spell]
  obtain ⟨q, p₁, hhead⟩ := feed_directive (r := ⟨.top package, ds, .empty, ws⟩) rfl (by simp)
    .templ hs hne (Signature.lacks_spell ht.signature) hw ht.gap p
    ((Line.rowsAll 1 (layout (Node.unplacedAll t.body))).flatMap Row.spell ++
      (Directive.spell Keyword.endtempl.spelling ++ (['\n'] ++ u)))
  obtain ⟨hk, ha⟩ := read_directive .templ hs q
  obtain ⟨f, p', hf, htail⟩ := feed_body package ds ws
    ⟨t.signature, .ofText (w ++ t.gap.render), q⟩ hbody hsealed p₁ (['\n'] ++ u)
  refine ⟨⟨t.signature, f, .ofText (w ++ t.gap.render), q⟩, p',
    ⟨rfl, Gap.comment_ofText hw ht.gap, hf, hf ▸ hlayout⟩, ?_⟩
  have hstep : step ⟨.top package, ds, .ofText (w ++ t.gap.render), ws⟩
      (.ok (.directive (Keyword.templ.spelling ++ ' ' :: t.signature.spell) q)) =
      (⟨.block package ⟨t.signature, .ofText (w ++ t.gap.render), q⟩ .empty, ds, .empty, ws⟩,
        none) := by
    simp [step, topStep, hk, ha, ht.signature.legible.ofText?_spell]
  rw [hrender, hhead, feed_cons _ hstep, ← htail, hspell]
  simp

/-! ## All parts -/

/-- Parts of one kind, one after the other, with blank text in front of each. -/
theorem feed_all {α β : Type} {P : α → Prop} {R : α → β → Prop} (mk : β → Declaration)
    (render : α → Text)
    (hone : ∀ x, P x → ∀ (w : Text) (ds : List Declaration) (p : Position) (u : Text),
      w.isBlank = true → ∃ y p' w', R x y ∧ Text.isBlank w' = true ∧
        feed step ⟨.top package, ds, .empty, ws⟩ (scanFrom p (w ++ (render x ++ u))) =
          feed step ⟨.top package, mk y :: ds, .empty, ws⟩ (scanFrom p' (w' ++ u)))
    {xs : List α} (hxs : ∀ x ∈ xs, P x) (hw : w.isBlank = true) (p : Position) (u : Text) :
    ∃ ys p' w', List.Forall₂ R xs ys ∧ Text.isBlank w' = true ∧
      feed step ⟨.top package, ds, .empty, ws⟩ (scanFrom p (w ++ (xs.flatMap render ++ u))) =
        feed step ⟨.top package, (ys.map mk).reverse ++ ds, .empty, ws⟩
          (scanFrom p' (w' ++ u)) := by
  induction xs generalizing w ds p with
  | nil => exact ⟨[], p, w, .nil, hw, rfl⟩
  | cons x xs ih =>
    rw [List.forall_mem_cons] at hxs
    obtain ⟨y, p₁, w₁, hy, hw₁, hfeed⟩ := hone x hxs.1 w ds p (xs.flatMap render ++ u) hw
    obtain ⟨ys, p', w', hys, hw', hrest⟩ := ih (mk y :: ds) hxs.2 hw₁ p₁
    refine ⟨y :: ys, p', w', .cons hy hys, hw', ?_⟩
    rw [List.flatMap_cons, List.append_assoc, hfeed, hrest]
    simp

theorem feed_imports {is : List Import} (h : ∀ i ∈ is, i.WellFormed) (hw : w.isBlank = true)
    (p : Position) (u : Text) :
    ∃ js p' w', List.Forall₂ Import.Same is js ∧ Text.isBlank w' = true ∧
      feed step ⟨.top package, ds, .empty, ws⟩ (scanFrom p (w ++ (is.flatMap Import.render ++ u))) =
        feed step ⟨.top package, (js.map Declaration.importPath).reverse ++ ds, .empty, ws⟩
          (scanFrom p' (w' ++ u)) := by
  refine feed_all package ds ws .importPath Import.render ?_ h hw p u
  intro i hi w ds p u hw
  obtain ⟨j, p', hsame, hfeed⟩ := feed_import package ds ws hi hw p u
  exact ⟨j, p', ['\n'], hsame, rfl, hfeed⟩

theorem feed_templs {ts : List Templ} (h : ∀ t ∈ ts, t.WellFormed) (hw : w.isBlank = true)
    (p : Position) (u : Text) :
    ∃ us p' w', List.Forall₂ Templ.Rewritten ts us ∧ Text.isBlank w' = true ∧
      feed step ⟨.top package, ds, .empty, ws⟩
          (scanFrom p (w ++ (ts.flatMap (fun t => t.render ++ ['\n']) ++ u))) =
        feed step ⟨.top package, (us.map Declaration.templ).reverse ++ ds, .empty, ws⟩
          (scanFrom p' (w' ++ u)) := by
  refine feed_all package ds ws .templ (fun t => t.render ++ ['\n']) ?_ h hw p u
  intro t ht w ds p u hw
  obtain ⟨t', p', hrewritten, hfeed⟩ := feed_templ package ds ws ht hw p (['\n'] ++ u)
  rw [List.append_assoc]
  exact ⟨t', p', ['\n', '\n'], hrewritten, rfl, hfeed⟩

theorem feed_trailing {t : Text} (ht : Lacks opensDirective t) (p : Position) :
    feed step ⟨.top package, ds, .empty, ws⟩ (scanFrom p t) =
      (⟨.top package, ds, .ofText t, ws⟩, none) := by
  rw [scanFrom_last ht, ← List.append_nil (literalItems p t), feed_gap rfl (by simp)]
  rfl

end Reading

namespace Document

theorem renderImports_eq (d : Document) :
    ∃ w, Text.isBlank w = true ∧ d.renderImports = d.imports.flatMap Import.render ++ w := by
  rw [renderImports]
  cases d.imports with
  | nil => exact ⟨[], rfl, rfl⟩
  | cons i is => exact ⟨['\n'], rfl, rfl⟩

/-- The trailing text is written like a comment, and with a blank line behind it. -/
theorem renderTrailing_eq (d : Document) :
    ∃ w, Text.isBlank w = true ∧ d.renderTrailing = (Gap.mk 0 d.trailing).render ++ w := by
  rw [renderTrailing, Gap.render]
  cases d.trailing with
  | none => exact ⟨[], rfl, rfl⟩
  | some c => exact ⟨['\n'], rfl, by simp⟩

/-- The imports and the blocks of a document in which the imports come first. -/
theorem imports_first {d : Document} {is : List Import} {ts : List Templ}
    (h : d.declarations = is.map .importPath ++ ts.map .templ) :
    d.imports = is ∧ d.templates = ts := by
  simp [imports, templates, h, List.filterMap_append, List.filterMap_map]

theorem parse_render {d : Document} (h : d.WellFormed) :
    ∃ d', parse d.render = .ok d' ∧ d.Rewritten d' := by
  obtain ⟨w₁, hw₁, himports⟩ := d.renderImports_eq
  obtain ⟨w₂, hw₂, htrailing⟩ := d.renderTrailing_eq
  have hgap : (Gap.mk 0 d.trailing).WellFormed := h.trailing
  have hlast : Text.isBlank (['\n'] ++ ['\n']) = true := rfl
  obtain ⟨q, p₀, hname, hcomment, hfeed₀⟩ := Reading.feed_package h.package .start
    (['\n'] ++ (d.renderImports ++
      (d.templates.flatMap (fun t => t.render ++ ['\n']) ++ d.renderTrailing)))
  obtain ⟨is, p₁, w₃, his, hw₃, hfeed₁⟩ := Reading.feed_imports q [] []
    (fun i hi => h.declarations _ (mem_imports hi)) hlast p₀
    (w₁ ++ (d.templates.flatMap (fun t => t.render ++ ['\n']) ++ d.renderTrailing))
  obtain ⟨ts, p₂, w₄, hts, hw₄, hfeed₂⟩ := Reading.feed_templs q
    ((is.map Declaration.importPath).reverse ++ []) []
    (fun t ht => h.declarations _ (mem_templates ht)) (w := w₃ ++ w₁) (by simp [hw₃, hw₁]) p₁
    d.renderTrailing
  have hlacks : Lacks opensDirective (w₄ ++ d.renderTrailing) := by
    rw [htrailing, ← List.append_assoc]
    exact (pattern_opensDirective.loose.append_blank hw₂).2 (Gap.lacks_render hw₄ hgap)
  have hfeed₃ := Reading.feed_trailing q
    ((ts.map Declaration.templ).reverse ++ ((is.map Declaration.importPath).reverse ++ [])) []
    hlacks p₂
  have hfeed : Reading.ofSource d.render =
      (⟨.top q, (ts.map .templ).reverse ++ ((is.map .importPath).reverse ++ []),
        .ofText (w₄ ++ d.renderTrailing), []⟩, none) := by
    rw [Reading.ofSource, scan_eq_scanFrom, ← hfeed₃, ← hfeed₂]
    simp only [List.append_assoc] at hfeed₁ ⊢
    rw [← hfeed₁]
    simpa only [render, himports, List.append_assoc] using hfeed₀
  have htrail := Gap.comment_ofText_append (w₄ ++ (Gap.mk 0 d.trailing).render) hw₂
  rw [Gap.comment_ofText hw₄ hgap, List.append_assoc, ← htrailing] at htrail
  let d' : Document := ⟨q, is.map .importPath ++ ts.map .templ, d.trailing, []⟩
  obtain ⟨hi, ht⟩ := imports_first (d := d') rfl
  refine ⟨d', ?_, hname, hcomment, by rw [hi, ht], by rwa [hi], by rwa [ht], rfl, rfl⟩
  rw [parse, hfeed]
  simp [Reading.finish, htrail, d']

end Document

/-! ## Written again -/

theorem Gap.render_congr {g g' : Gap} (h : g'.comment = g.comment) : g'.render = g.render := by
  rw [render, render, h]

theorem Import.Same.render_eq {i j : Import} (h : i.Same j) : j.render = i.render := by
  rw [Import.render, Import.render, h.path, Gap.render_congr h.comment]

theorem Templ.Rewritten.render_eq {t u : Templ} (h : t.Rewritten u) : u.render = t.render := by
  simp only [Templ.render, Templ.rows, h.signature, Gap.render_congr h.comment, h.lines]

theorem map_congr_forall₂ {α β : Type} {f : α → β} {xs ys : List α}
    (h : List.Forall₂ (fun x y => f y = f x) xs ys) : ys.map f = xs.map f := by
  induction h with
  | nil => rfl
  | cons hxy _ ih => rw [List.map_cons, List.map_cons, hxy, ih]

/-- What is written of a document depends on what is written of its parts. -/
theorem Document.render_congr {d d' : Document} (hpackage : d'.package.render = d.package.render)
    (himports : d'.imports.map Import.render = d.imports.map Import.render)
    (htemplates : d'.templates.map Templ.render = d.templates.map Templ.render)
    (htrailing : d'.trailing = d.trailing) : d'.render = d.render := by
  have hrenderImports : d'.renderImports = d.renderImports := by
    rw [renderImports, renderImports]
    cases hd : d.imports <;> cases hd' : d'.imports <;> simp_all [List.flatMap_def]
  have hblocks : ∀ d : Document, d.templates.flatMap (fun t => t.render ++ ['\n']) =
      (d.templates.map Templ.render).flatMap (· ++ ['\n']) := by
    intro d
    rw [List.flatMap_map]
  rw [render, render, hpackage, hrenderImports, renderTrailing, renderTrailing, htrailing,
    hblocks, hblocks, htemplates]

/-- A document and the document rewritten are written in the same way. -/
theorem Document.Rewritten.render_eq {d d' : Document} (h : d.Rewritten d') :
    d'.render = d.render := by
  have hpackage : d'.package.render = d.package.render := by
    rw [Package.render, Package.render, h.name, Gap.render_congr h.comment]
  have himports := map_congr_forall₂ (h.imports.imp fun _ _ hij => hij.render_eq)
  have htemplates := map_congr_forall₂ (h.templates.imp fun _ _ htu => htu.render_eq)
  exact render_congr hpackage himports htemplates h.trailing

end TemplLayout
