import TemplLayout.Proofs.Document.Directive
import TemplLayout.Proofs.Markup.Nesting

/-!
# TemplLayout.Proofs.Document.Reading

What holds while a document is read, passage by passage.

* `Document.WellFormed d` — every part of the document can be written and read back, and its warnings
  are the ones that its blocks give rise to.
* `Reading.Sound r`       — the same of the parts read so far. It holds between two passages, where no
  text is waiting and an open block has just begun.

Every document that is read is well-formed (`wellFormed_parse`).
-/

namespace TemplLayout

open Text

theorem exists_of_map_toOption {ε α β : Type} {x : Except ε α} {f : α → β} {b : β}
    (h : x.toOption.map f = some b) : ∃ a, x = .ok a ∧ f a = b := by
  cases x with
  | error e => cases h
  | ok a => exact ⟨a, rfl, Option.some.inj h⟩

structure IsComment (c : Text) : Prop where
  ne_nil : c ≠ []
  trimmed : c.Trimmed
  lacks : Lacks opensDirective c

def Gap.WellFormed (g : Gap) : Prop :=
  ∀ c ∈ g.comment, IsComment c

theorem Gap.wellFormed_ofText {t : Text} (h : Lacks opensDirective t) :
    (Gap.ofText t).WellFormed := by
  intro c hc
  rw [ofText] at hc
  split at hc
  · cases hc
  · rename_i hblank
    cases hc
    exact ⟨trim_ne_nil (by simpa using hblank), trimmed_trim t,
      (pattern_opensDirective.loose.trim_iff t).2 h⟩

theorem Gap.ofText_nil : Gap.ofText [] = .empty := rfl

structure Package.WellFormed (p : Package) : Prop where
  name : p.name.isWord = true
  lacks : Lacks closesDirective p.name
  gap : p.gap.WellFormed

structure Import.WellFormed (i : Import) : Prop where
  ne_nil : i.path ≠ []
  trimmed : i.path.Trimmed
  lacks : Lacks closesDirective i.path
  gap : i.gap.WellFormed

structure Templ.WellFormed (t : Templ) : Prop where
  signature : t.signature.WellFormed
  gap : t.gap.WellFormed
  body : Node.WellFormedAll (Lacks opensDirective) t.body

namespace Declaration

def WellFormed : Declaration → Prop
  | .importPath i => i.WellFormed
  | .templ t => t.WellFormed

def warnings : Declaration → List Warning
  | .importPath _ => []
  | .templ t => Forest.warnings t.body

end Declaration

structure Document.WellFormed (d : Document) : Prop where
  package : d.package.WellFormed
  declarations : ∀ x ∈ d.declarations, x.WellFormed
  trailing : ∀ c ∈ d.trailing, IsComment c
  warnings : d.warnings = d.declarations.flatMap Declaration.warnings

namespace Document

variable {d : Document}

theorem mem_imports {i : Import} (h : i ∈ d.imports) : .importPath i ∈ d.declarations := by
  obtain ⟨x, hx, hi⟩ := List.mem_filterMap.1 h
  cases x with
  | importPath j => cases hi; exact hx
  | templ t => cases hi

theorem mem_templates {t : Templ} (h : t ∈ d.templates) : .templ t ∈ d.declarations := by
  obtain ⟨x, hx, ht⟩ := List.mem_filterMap.1 h
  cases x with
  | importPath j => cases ht
  | templ u => cases ht; exact hx

end Document

/-- The block that is open has just been opened. -/
def Stage.Sound : Stage → Prop
  | .preamble => True
  | .top package => package.WellFormed
  | .block package t nesting =>
    package.WellFormed ∧ t.signature.WellFormed ∧ t.gap.WellFormed ∧ nesting = .empty

namespace Reading

structure Sound (r : Reading) : Prop where
  stage : r.stage.Sound
  declarations : ∀ x ∈ r.declarations, x.WellFormed
  warnings : r.warnings = r.declarations.reverse.flatMap Declaration.warnings
  gap : r.gap = .empty

variable {r r' : Reading} {package : Package} {t : OpenTempl}

theorem Sound.of_top (hr : r.Sound) (hstage : r.stage = .top package) : package.WellFormed := by
  have h := hr.stage
  rw [hstage] at h
  exact h

/-- A block is empty between two passages. -/
theorem Sound.of_block {nesting : Nesting} (hr : r.Sound)
    (hstage : r.stage = .block package t nesting) :
    package.WellFormed ∧ t.signature.WellFormed ∧ t.gap.WellFormed ∧ nesting = .empty := by
  have h := hr.stage
  rw [hstage] at h
  exact h

theorem sound_start : Sound start :=
  ⟨trivial, by simp [start], rfl, rfl⟩

/-! ## The text before a directive -/

/-- Outside a block the text is the gap before what comes next. -/
theorem feed_gap (hgap : r.gap = .empty) (hstage : ∀ package t n, r.stage ≠ .block package t n)
    (p : Position) (before : Text) (items : List (Except Fault Segment)) :
    feed step r (literalItems p before ++ items) =
      feed step { r with gap := .ofText before } items := by
  have hstep : step r (.ok (.literal before p)) = ({ r with gap := .ofText before }, none) := by
    obtain ⟨stage, declarations, gap, warnings⟩ := r
    cases stage with
    | preamble => rfl
    | top package => rfl
    | block package t n => exact absurd rfl (hstage package t n)
  cases before with
  | nil =>
    rw [Gap.ofText_nil, ← hgap]
    rfl
  | cons c before => exact feed_cons items hstep

/-- Inside a block it is markup. -/
theorem feed_markup {nesting : Nesting} (hstage : r.stage = .block package t .empty) {p : Position}
    {before : Text} (hfeed : feed Nesting.step .empty (Token.ofText p before) = (nesting, none))
    (items : List (Except Fault Segment)) :
    feed step r (literalItems p before ++ items) =
      feed step { r with stage := .block package t nesting } items := by
  cases before with
  | nil =>
    rw [Token.ofText_nil] at hfeed
    cases hfeed
    rw [← hstage]
    rfl
  | cons c before => exact feed_cons items (by simp [step, hstage, hfeed])

theorem exists_of_feed_markup (hstage : r.stage = .block package t .empty) {p : Position}
    {before : Text} {items : List (Except Fault Segment)}
    (h : feed step r (literalItems p before ++ items) = (r', none)) :
    ∃ nesting, feed Nesting.step .empty (Token.ofText p before) = (nesting, none) ∧
      feed step { r with stage := .block package t nesting } items = (r', none) := by
  rcases hfeed : feed Nesting.step .empty (Token.ofText p before) with ⟨nesting, _ | fault⟩
  · rw [feed_markup hstage hfeed] at h
    exact ⟨nesting, rfl, h⟩
  · cases before with
    | nil =>
      rw [Token.ofText_nil] at hfeed
      cases hfeed
    | cons c before =>
      obtain ⟨r₁, hstep, -⟩ := exists_of_feed_cons h
      simp [step, hstage, hfeed] at hstep

/-! ## A directive -/

variable {d : Directive} {g : Gap}

theorem lacks_argument (h : Lacks closesDirective d.text) : Lacks closesDirective d.argument :=
  (pattern_closesDirective.loose.trim_iff _).2
    (pattern_closesDirective.lacks_of_isInfix h (List.dropWhile_suffix _).isInfix)

theorem packageStep_sound (hr : r.Sound) (hg : g.WellFormed) (hd : Lacks closesDirective d.text)
    (h : packageStep { r with gap := g } d = (r', none)) : r'.Sound := by
  rw [packageStep] at h
  split at h
  · cases h
  · split at h
    · cases h
    · rename_i hword
      cases h
      exact ⟨⟨by simpa using hword, lacks_argument hd, hg⟩, hr.declarations, hr.warnings, rfl⟩

theorem topStep_sound (hr : r.Sound) (hp : package.WellFormed) (hg : g.WellFormed)
    (hd : Lacks closesDirective d.text)
    (h : topStep { r with gap := g } package d = (r', none)) : r'.Sound := by
  rw [topStep] at h
  split at h
  · cases h
  · split at h
    · cases h
    · rename_i hne
      cases h
      have hi : (Declaration.importPath ⟨d.argument, g, d.position⟩).WellFormed :=
        ⟨by simpa using hne, trimmed_trim _, lacks_argument hd, hg⟩
      refine ⟨hr.stage, List.forall_mem_cons.2 ⟨hi, hr.declarations⟩, ?_, rfl⟩
      simp [hr.warnings, Declaration.warnings]
  · split at h
    · cases h
    · rename_i signature hsignature
      cases h
      have hs := Signature.wellFormed_of_ofText? (lacks_argument hd) hsignature
      exact ⟨⟨hp, hs, hg, rfl⟩, hr.declarations, hr.warnings, rfl⟩
  · cases h
  · cases h

theorem blockStep_sound {nesting : Nesting} {p : Position} {before : Text} (hr : r.Sound)
    (hstage : r.stage = .block package t .empty) (hbefore : Lacks opensDirective before)
    (hfeed : feed Nesting.step .empty (Token.ofText p before) = (nesting, none))
    (h : blockStep { r with stage := .block package t nesting } package t nesting d = (r', none)) :
    r'.Sound := by
  obtain ⟨hp, hsignature, hgap, -⟩ := hr.of_block hstage
  rw [blockStep] at h
  split at h
  · cases h
  · split at h
    · split at h
      · cases h
      · rename_i body hfinish
        cases h
        have hread : Forest.read p before = .ok (body, nesting.warnings) := by
          rw [Forest.read, hfeed]
          simp [hfinish, Except.map]
        obtain ⟨hbody, hwarnings⟩ := Forest.read_sound pattern_opensDirective hbefore hread
        have ht : (Declaration.templ ⟨t.signature, body, t.gap, t.position⟩).WellFormed :=
          ⟨hsignature, hgap, hbody⟩
        refine ⟨hp, List.forall_mem_cons.2 ⟨ht, hr.declarations⟩, ?_, hr.gap⟩
        simp [hr.warnings, hwarnings, Declaration.warnings]
    · cases h

/-! ## Passages -/

theorem passage_sound {q : Passage} (hq : q.WellFormed) {p p' : Position}
    {items : List (Except Fault Segment)} (hr : r.Sound)
    (h : feed step r (literalItems p q.before ++ .ok (.directive q.body.trim p') :: items) =
      (r', none)) :
    ∃ r₁, r₁.Sound ∧ feed step r₁ items = (r', none) := by
  have hg := Gap.wellFormed_ofText hq.before
  have hd := (pattern_closesDirective.loose.trim_iff q.body).2 hq.body
  cases hstage : r.stage with
  | preamble =>
    rw [feed_gap hr.gap (by simp [hstage])] at h
    obtain ⟨r₁, hstep, hrest⟩ := exists_of_feed_cons h
    refine ⟨r₁, packageStep_sound hr hg (d := ⟨q.body.trim, p'⟩) hd ?_, hrest⟩
    rw [← hstep, step, hstage]
  | top package =>
    rw [feed_gap hr.gap (by simp [hstage])] at h
    obtain ⟨r₁, hstep, hrest⟩ := exists_of_feed_cons h
    refine ⟨r₁, topStep_sound hr (hr.of_top hstage) hg (d := ⟨q.body.trim, p'⟩) hd ?_, hrest⟩
    rw [← hstep, step, hstage]
  | block package t nesting =>
    obtain ⟨-, -, -, rfl⟩ := hr.of_block hstage
    obtain ⟨nesting', hfeed, h⟩ := exists_of_feed_markup hstage h
    obtain ⟨r₁, hstep, hrest⟩ := exists_of_feed_cons h
    exact ⟨r₁, blockStep_sound (d := ⟨q.body.trim, p'⟩) hr hstage hq.before hfeed hstep, hrest⟩

/-- The text behind the last passage. -/
theorem wellFormed_last {p stop : Position} {u : Text} {d : Document} (hu : Lacks opensDirective u)
    (hr : r.Sound) (h : feed step r (literalItems p u ++ []) = (r', none))
    (hd : r'.finish stop = .ok d) : d.WellFormed := by
  cases hstage : r.stage with
  | preamble =>
    rw [feed_gap hr.gap (by simp [hstage])] at h
    cases h
    rw [finish, hstage] at hd
    cases hd
  | top package =>
    rw [feed_gap hr.gap (by simp [hstage])] at h
    cases h
    rw [finish, hstage] at hd
    cases hd
    refine ⟨hr.of_top hstage, ?_, Gap.wellFormed_ofText hu, hr.warnings⟩
    exact fun x hx => hr.declarations x (List.mem_reverse.1 hx)
  | block package t nesting =>
    obtain ⟨-, -, -, rfl⟩ := hr.of_block hstage
    obtain ⟨nesting', -, h⟩ := exists_of_feed_markup hstage h
    cases h
    cases hd

theorem wellFormed_finish (source : Text) (p : Position) (hr : r.Sound)
    (h : feed step r (scanFrom p source) = (r', none)) (stop : Position) (d : Document)
    (hd : r'.finish stop = .ok d) : d.WellFormed := by
  induction source using passage_induction generalizing r p with
  | last u hu =>
    rw [scanFrom_last hu, ← List.append_nil (literalItems p u)] at h
    exact wellFormed_last hu hr h hd
  | passage q rest hq ih =>
    rw [scanFrom_passage hq] at h
    obtain ⟨r₁, hr₁, hrest⟩ := passage_sound hq hr h
    exact ih _ hr₁ hrest
  | unterminated before body hb hbody =>
    rw [scanFrom_unterminated hb hbody] at h
    obtain ⟨r₁, -, hfault⟩ := exists_of_feed_append h
    cases hfault

end Reading

theorem wellFormed_parse {source : Text} {d : Document} (h : parse source = .ok d) :
    d.WellFormed := by
  rw [parse, Reading.ofSource, scan_eq_scanFrom] at h
  split at h
  · cases h
  · rename_i r hfeed
    exact Reading.wellFormed_finish source _ Reading.sound_start hfeed _ d h

end TemplLayout
