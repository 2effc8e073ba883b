import TemplLayout.Proofs.Document.Run

/-!
# TemplLayout.Proofs.Document.Grammar

The sources that can be read, as a grammar of segments.

* `Keyword.Says k argument text` — the directive `text` is the keyword and the argument, parted by
  blank characters.
* `Signature.Heads s argument`   — `argument` is the name and the parameters of `s`.
* `IsBody inner body`      — the segments between the two directives of a block, and its markup.
* `Declares segments ds`   — the segments are the declarations `ds`, in order.
* `IsTemplate segments d`  — the segments are the document `d`: the package, then its declarations.

Each directive is written out as it has to be, and every declaration carries the position of its
directive. Literals outside blocks are passed over; what becomes of them is left open, and so are the
gaps and the trailing text of `d`. A source is read exactly when its segments are a template, and it is
read as a document that they are (`parse_ok_iff_isTemplate`).
-/

namespace TemplLayout

open Text

/-! ## Directives -/

def Keyword.Says (k : Keyword) (argument text : Text) : Prop :=
  argument.Trimmed ∧ ∃ w : Text, w.isBlank = true ∧ (w = [] ↔ argument = []) ∧
    text = k.spelling ++ w ++ argument

theorem Keyword.Says.trimmed {k : Keyword} {argument text : Text} (h : k.Says argument text) :
    text.Trimmed := by
  obtain ⟨hargument, w, -, hne, rfl⟩ := h
  by_cases hnil : argument = []
  · rw [hne.2 hnil, hnil, List.append_nil, List.append_nil]
    exact trimmed_spelling k
  · constructor
    · rw [List.append_assoc, startsBlank_append (by cases k <;> decide), (trimmed_spelling k).start]
    · rw [endsBlank_append hnil, hargument.ends]

theorem Keyword.Says.read {k : Keyword} {argument : Text} {d : Directive}
    (h : k.Says argument d.text) : d.keyword? = some k ∧ d.argument = argument := by
  have htrim := h.trimmed.trim_eq
  obtain ⟨hargument, w, hw, hne, heq⟩ := h
  have hrest : w ++ argument = [] ∨ Text.startsBlank (w ++ argument) = true := by
    by_cases hnil : w = []
    · exact .inl (by rw [hnil, hne.1 hnil, List.append_nil])
    · rw [startsBlank_append hnil]
      exact .inr (startsBlank_of_isBlank hw hnil)
  have hread := read_trim k (w := []) rfl hrest d.position
  have hwhole : [] ++ k.spelling ++ (w ++ argument) = d.text := by
    rw [List.nil_append, ← List.append_assoc, heq]
  rwa [hwhole, htrim, trim_blank_append hw, hargument.trim_eq] at hread

theorem Keyword.says_argument {k : Keyword} {d : Directive} (htext : d.text.Trimmed)
    (hkey : d.keyword? = some k) : k.Says d.argument d.text := by
  obtain ⟨rest, heq, hrest, hargument⟩ := exists_of_keyword? hkey
  have hends : rest.endsBlank = false := by
    by_cases hne : rest = []
    · rw [hne]
      rfl
    · have hends := htext.ends
      rwa [heq, endsBlank_append hne] at hends
  rw [hargument]
  refine ⟨trimmed_trim rest, rest.leadingBlanks, isBlank_leadingBlanks rest, ?_, ?_⟩
  · rw [leadingBlanks_eq_nil_iff, trim_eq_nil_iff]
    rcases hrest with rfl | hrest
    · simp [startsBlank]
    · have hblank : rest.isBlank = false := by
        rw [Bool.eq_false_iff]
        intro hblank
        have hne : rest ≠ [] := by
          rintro rfl
          cases hrest
        rw [endsBlank_of_isBlank hblank hne] at hends
        cases hends
      simp [hrest, hblank]
  · rw [List.append_assoc, leadingBlanks_append_trim hends, heq]

theorem Keyword.says_nil_iff (k : Keyword) {text : Text} : k.Says [] text ↔ text = k.spelling := by
  constructor
  · rintro ⟨-, w, -, hw, rfl⟩
    rw [hw.2 rfl, List.append_nil, List.append_nil]
  · rintro rfl
    exact ⟨⟨rfl, rfl⟩, [], rfl, by simp, by simp⟩

def Signature.Heads (s : Signature) (argument : Text) : Prop :=
  s.name.isWord = true ∧ '(' ∉ s.name ∧ ∃ w m : Text, w.isBlank = true ∧ s.params = m.trim ∧
    argument = s.name ++ w ++ '(' :: (m ++ [')'])

theorem Signature.Heads.read {s : Signature} {argument : Text} (h : s.Heads argument) :
    Signature.ofText? argument = some s := by
  obtain ⟨hname, hopen, w, m, hw, hparams, rfl⟩ := h
  have hblank : '(' ∉ w := fun hmem => absurd (isBlank_iff.1 hw _ hmem) (by decide)
  have htrim : Text.trim (s.name ++ w) = s.name := by
    rw [trim_append_blank _ hw, (trimmed_of_isWord hname).trim_eq]
  have hread := ofText?_append (a := s.name ++ w) (m := m) (w := []) (by simp [hopen, hblank])
    (by rw [htrim, hname]) rfl
  rw [hread, htrim, ← hparams]

theorem Signature.heads_of_ofText? {s : Signature} {argument : Text} (h : argument.Trimmed)
    (hread : Signature.ofText? argument = some s) : s.Heads argument := by
  obtain ⟨a, m, w, rfl, hopen, hname, hw, rfl⟩ := exists_of_ofText? hread
  have hnil : w = [] := by
    by_contra hne
    have hends := h.ends
    rw [endsBlank_append (List.cons_ne_nil _ _), ← List.cons_append, List.append_cons,
      endsBlank_append hne, endsBlank_of_isBlank hw hne] at hends
    cases hends
  have hne : a ≠ [] := by
    rintro rfl
    cases hname
  have hstart := h.start
  rw [startsBlank_append hne] at hstart
  have ha : a.trim ++ a.trailingBlanks = a := by
    rw [trim, trimStart_eq hstart, trimEnd_append]
  refine ⟨hname, fun hmem => hopen ((trim_isInfix a).subset hmem), a.trailingBlanks, m,
    isBlank_trailingBlanks a, rfl, ?_⟩
  rw [ha, hnil]

/-! ## Segments -/

inductive IsBody : List Segment → Forest → Prop
  | none : IsBody [] []
  | literal {t : Text} {p : Position} {body : Forest} {ws : List Warning} :
      Forest.read p t = .ok (body, ws) → IsBody [.literal t p] body

inductive Declares : List Segment → List Declaration → Prop
  | nil : Declares [] []
  | literal {t : Text} {p : Position} {segments : List Segment} {ds : List Declaration} :
      Declares segments ds → Declares (.literal t p :: segments) ds
  | importPath {path text : Text} {gap : Gap} {p : Position} {segments : List Segment}
      {ds : List Declaration} : Keyword.importPath.Says path text → path ≠ [] →
      Declares segments ds →
      Declares (.directive text p :: segments) (.importPath ⟨path, gap, p⟩ :: ds)
  | templ {argument text : Text} {signature : Signature} {body : Forest} {gap : Gap}
      {p p' : Position} {inner segments : List Segment} {ds : List Declaration} :
      Keyword.templ.Says argument text → signature.Heads argument → IsBody inner body →
      Declares segments ds →
      Declares
        (.directive text p :: (inner ++ .directive Keyword.endtempl.spelling p' :: segments))
        (.templ ⟨signature, body, gap, p⟩ :: ds)

inductive IsTemplate : List Segment → Document → Prop
  | literal {t : Text} {p : Position} {segments : List Segment} {d : Document} :
      IsTemplate segments d → IsTemplate (.literal t p :: segments) d
  | package {name text : Text} {gap : Gap} {p : Position} {segments : List Segment}
      {ds : List Declaration} {trailing : Option Text} {ws : List Warning} :
      Keyword.package.Says name text → name.isWord = true → Declares segments ds →
      IsTemplate (.directive text p :: segments) ⟨⟨name, gap, p⟩, ds, trailing, ws⟩

/-! ## Whatever is read is a template -/

/-- The segments of a text without directives. -/
def literals (p : Position) (t : Text) : List Segment :=
  if t.isEmpty then [] else [.literal t p]

theorem literalItems_eq (p : Position) (t : Text) : literalItems p t = (literals p t).map .ok := by
  cases t <;> rfl

theorem Declares.literals {segments : List Segment} {ds : List Declaration}
    (h : Declares segments ds) (p : Position) (t : Text) :
    Declares (literals p t ++ segments) ds := by
  cases t with
  | nil => exact h
  | cons c t => exact .literal h

theorem IsTemplate.literals {segments : List Segment} {d : Document} (h : IsTemplate segments d)
    (p : Position) (t : Text) : IsTemplate (literals p t ++ segments) d := by
  cases t with
  | nil => exact h
  | cons c t => exact .literal h

theorem isBody_literals {p : Position} {t : Text} {body : Forest} {ws : List Warning}
    (h : Forest.read p t = .ok (body, ws)) : IsBody (literals p t) body := by
  cases t with
  | nil =>
    obtain ⟨s, hfeed, hfinish, -⟩ := Forest.read_eq_ok_iff.1 h
    rw [Token.ofText_nil] at hfeed
    cases hfeed
    cases hfinish
    exact .none
  | cons c t => exact .literal h

/-- The segments of passages that stand at `p`, and of the text behind them. -/
def segmentsFrom (p : Position) (qs : List Passage) (u : Text) : List Segment :=
  match qs with
  | [] => literals p u
  | q :: qs =>
    literals p q.before ++ .directive q.body.trim (p.after q.before) ::
      segmentsFrom (p.after q.spell) qs u

theorem scanFrom_passages {qs : List Passage} {u : Text} (hqs : ∀ q ∈ qs, q.WellFormed)
    (hu : Lacks opensDirective u) (p : Position) :
    scanFrom p (qs.flatMap Passage.spell ++ u) = (segmentsFrom p qs u).map .ok := by
  induction qs generalizing p with
  | nil => rw [segmentsFrom, ← literalItems_eq, ← scanFrom_last hu]; rfl
  | cons q qs ih =>
    rw [List.forall_mem_cons] at hqs
    rw [List.flatMap_cons, List.append_assoc, scanFrom_passage hqs.1, ih hqs.2, segmentsFrom,
      List.map_append, ← literalItems_eq]
    rfl

namespace Reading

/-- The segments are what is still missing of the document when the reading has come to `r`. -/
def Lacking (r : Reading) (segments : List Segment) (d : Document) : Prop :=
  match r.stage with
  | .preamble => r.declarations = [] → IsTemplate segments d
  | .top package => ∃ ds, Declares segments ds ∧ d.package = package ∧
      d.declarations = r.declarations.reverse ++ ds
  | .block package t _ => ∃ inner body p rest ds,
      segments = inner ++ .directive Keyword.endtempl.spelling p :: rest ∧ IsBody inner body ∧
      Declares rest ds ∧ d.package = package ∧
      d.declarations =
        r.declarations.reverse ++ .templ ⟨t.signature, body, t.gap, t.position⟩ :: ds

theorem Advances.lacking {p : Position} {before : Text} {x : Directive} {r r' : Reading}
    {segments : List Segment} {d : Document} (h : Advances p before x r r')
    (hx : x.text.Trimmed) (hlacking : r'.Lacking segments d) :
    r.Lacking (literals p before ++ .directive x.text x.position :: segments) d := by
  cases h with
  | @package ds ws hkey hword =>
    obtain ⟨ds', hds, hpackage, hdeclarations⟩ := hlacking
    obtain ⟨package, declarations, trailing, warnings⟩ := d
    obtain rfl : package = _ := hpackage
    rintro rfl
    obtain rfl : declarations = ds' := hdeclarations
    exact .literals (.package (Keyword.says_argument hx hkey) hword hds) p before
  | @importPath package ds ws hkey hne =>
    obtain ⟨ds', hds, hpackage, hdeclarations⟩ := hlacking
    refine ⟨.importPath ⟨x.argument, .ofText before, x.position⟩ :: ds', ?_, hpackage, ?_⟩
    · exact .literals (.importPath (Keyword.says_argument hx hkey) hne hds) p before
    · rw [hdeclarations, List.reverse_cons, List.append_assoc]
      rfl
  | @templ package ds ws signature hkey hsignature =>
    obtain ⟨inner, body, p', rest, ds', rfl, hinner, hds, hpackage, hdeclarations⟩ := hlacking
    have hheads := Signature.heads_of_ofText? (trimmed_trim _) hsignature
    refine ⟨_, ?_, hpackage, hdeclarations⟩
    exact .literals (.templ (Keyword.says_argument hx hkey) hheads hinner hds) p before
  | @endtempl package t ds ws ws' body hkey hargument hread =>
    obtain ⟨ds', hds, hpackage, hdeclarations⟩ := hlacking
    have hsays := Keyword.says_argument hx hkey
    rw [hargument] at hsays
    rw [(Keyword.says_nil_iff _).1 hsays]
    refine ⟨_, body, _, _, ds', rfl, isBody_literals hread, hds, hpackage, ?_⟩
    rw [hdeclarations, List.reverse_cons, List.append_assoc]
    rfl

theorem Runs.lacking {p : Position} {qs : List Passage} {r r' : Reading} {u : Text} {d : Document}
    (h : Runs p qs r r') (hlacking : ∀ p, r'.Lacking (literals p u) d) :
    r.Lacking (segmentsFrom p qs u) d := by
  induction h with
  | nil => exact hlacking _
  | cons hadvances _ ih => exact hadvances.lacking (trimmed_trim _) (ih hlacking)

end Reading

open Reading

theorem isTemplate_of_parse {source : Text} {d : Document} (h : parse source = .ok d) :
    ∃ segments, scan source = segments.map .ok ∧ IsTemplate segments d := by
  obtain ⟨qs, u, hqs, hu, rfl⟩ := exists_passages_of_parse h
  obtain ⟨package, ds, ws, hruns, rfl⟩ := (parse_passages_eq_ok_iff hqs hu).1 h
  refine ⟨segmentsFrom .start qs u, scanFrom_passages hqs hu .start, ?_⟩
  have hlast : ∀ p, Lacking ⟨.top package, ds, .empty, ws⟩ (literals p u)
      ⟨package, ds.reverse, (Gap.ofText u).comment, ws⟩ := by
    intro p
    refine ⟨[], ?_, rfl, by simp⟩
    rw [← List.append_nil (literals p u)]
    exact Declares.nil.literals p u
  exact hruns.lacking hlast rfl

/-! ## Every template is read -/

namespace Reading

variable {r : Reading} {package : Package} {segments : List Segment}

theorem feed_literal (hstage : ∀ package t n, r.stage ≠ .block package t n) (t : Text)
    (p : Position) :
    feed step r ((.literal t p :: segments).map .ok) =
      feed step { r with gap := .ofText t } (segments.map .ok) := by
  refine feed_cons _ ?_
  obtain ⟨stage, ds, gap, ws⟩ := r
  cases stage with
  | preamble => rfl
  | top package => rfl
  | block package t n => exact absurd rfl (hstage package t n)

theorem feed_isBody {t : OpenTempl} {inner : List Segment} {body : Forest} (h : IsBody inner body)
    (hstage : r.stage = .block package t .empty) :
    ∃ nesting, nesting.finish = .ok body ∧
      ∀ items, feed step r (inner.map .ok ++ items) =
        feed step { r with stage := .block package t nesting } items := by
  cases h with
  | none => exact ⟨.empty, rfl, fun items => by rw [← hstage]; rfl⟩
  | @literal t p body ws hread =>
    obtain ⟨nesting, hfeed, hfinish, -⟩ := Forest.read_eq_ok_iff.1 hread
    exact ⟨nesting, hfinish, fun items => feed_cons items (by simp [step, hstage, hfeed])⟩

theorem feed_declares {ds : List Declaration} (h : Declares segments ds)
    (hstage : r.stage = .top package) :
    ∃ r', feed step r (segments.map .ok) = (r', none) ∧ r'.stage = .top package := by
  induction h generalizing r with
  | nil => exact ⟨r, rfl, hstage⟩
  | literal _ ih =>
    rw [feed_literal (by simp [hstage])]
    exact ih hstage
  | @importPath path text gap p segments ds hsays hne _ ih =>
    obtain ⟨hkey, hargument⟩ := Keyword.Says.read (d := ⟨text, p⟩) hsays
    have hstep : step r (.ok (.directive text p)) =
        ({ r with
          declarations := .importPath ⟨path, r.gap, p⟩ :: r.declarations
          gap := .empty }, none) := by
      simp [step, hstage, topStep, hkey, hargument, hne]
    rw [List.map_cons, feed_cons _ hstep]
    exact ih hstage
  | @templ argument text signature body gap p p' inner segments ds hsays hheads hinner _ ih =>
    obtain ⟨hkey, hargument⟩ := Keyword.Says.read (d := ⟨text, p⟩) hsays
    have hstep : step r (.ok (.directive text p)) =
        ({ r with stage := .block package ⟨signature, r.gap, p⟩ .empty, gap := .empty }, none) := by
      simp [step, hstage, topStep, hkey, hargument, hheads.read]
    let opened : Reading :=
      ⟨.block package ⟨signature, r.gap, p⟩ .empty, r.declarations, .empty, r.warnings⟩
    have hopened : opened.stage = .block package ⟨signature, r.gap, p⟩ .empty := rfl
    obtain ⟨nesting, hfinish, hfeed⟩ := feed_isBody hinner hopened
    have hend := Keyword.Says.read (d := ⟨Keyword.endtempl.spelling, p'⟩)
      ((Keyword.says_nil_iff .endtempl).2 rfl)
    have hclose : step
        ⟨.block package ⟨signature, r.gap, p⟩ nesting, r.declarations, .empty, r.warnings⟩
        (.ok (.directive Keyword.endtempl.spelling p')) =
        (⟨.top package, .templ ⟨signature, body, r.gap, p⟩ :: r.declarations, .empty,
          r.warnings ++ nesting.warnings⟩, none) := by
      simp [step, blockStep, hend.1, hend.2, hfinish]
    rw [List.map_cons, feed_cons _ hstep, List.map_append, hfeed, List.map_cons,
      feed_cons _ hclose]
    exact ih rfl

theorem feed_isTemplate {d : Document} (h : IsTemplate segments d)
    (hstage : r.stage = .preamble) :
    ∃ r' package, feed step r (segments.map .ok) = (r', none) ∧ r'.stage = .top package := by
  induction h generalizing r with
  | literal _ ih =>
    rw [feed_literal (by simp [hstage])]
    exact ih hstage
  | @package name text gap p segments ds trailing ws hsays hword hds =>
    obtain ⟨hkey, hargument⟩ := Keyword.Says.read (d := ⟨text, p⟩) hsays
    have hstep : step r (.ok (.directive text p)) =
        ({ r with stage := .top ⟨name, r.gap, p⟩, gap := .empty }, none) := by
      simp [step, hstage, packageStep, hkey, hargument, hword]
    let opened : Reading := { r with stage := .top ⟨name, r.gap, p⟩, gap := .empty }
    have hopened : opened.stage = .top ⟨name, r.gap, p⟩ := rfl
    obtain ⟨r', hfeed, htop⟩ := feed_declares hds hopened
    exact ⟨r', _, by rw [List.map_cons, feed_cons _ hstep, hfeed], htop⟩

end Reading

theorem exists_parse_of_isTemplate {source : Text} {segments : List Segment} {d : Document}
    (hscan : scan source = segments.map .ok) (h : IsTemplate segments d) :
    ∃ d', parse source = .ok d' := by
  obtain ⟨r, package, hfeed, hstage⟩ := feed_isTemplate (r := start) h rfl
  refine ⟨⟨package, r.declarations.reverse, r.gap.comment, r.warnings⟩, ?_⟩
  rw [parse, ofSource, hscan, hfeed]
  simp [finish, hstage]

theorem parse_ok_iff_isTemplate (source : Text) :
    ((∃ d, parse source = .ok d) ↔
        ∃ segments d, scan source = segments.map .ok ∧ IsTemplate segments d) ∧
      ∀ d, parse source = .ok d → ∃ segments, scan source = segments.map .ok ∧
        IsTemplate segments d := by
  refine ⟨⟨?_, ?_⟩, fun d h => isTemplate_of_parse h⟩
  · rintro ⟨d, h⟩
    obtain ⟨segments, hscan, htemplate⟩ := isTemplate_of_parse h
    exact ⟨segments, d, hscan, htemplate⟩
  · rintro ⟨segments, d, hscan, htemplate⟩
    exact exists_parse_of_isTemplate hscan htemplate

/-- An empty block, a block with markup, and literals around them. -/
def twoBlocks : Text :=
  "a ".toList ++ Directive.spell "package\tp".toList ++ Directive.spell "templ t (x)".toList ++
    Directive.spell "endtempl".toList ++ " b".toList ++ Directive.spell "import \"q\"".toList ++
    Directive.spell "templ u( )".toList ++ "<br>c".toList ++ Directive.spell "endtempl".toList

theorem parse_ok_iff_isTemplate_twoBlocks :
    ∃ d segments, parse twoBlocks = .ok d ∧ scan twoBlocks = segments.map .ok ∧
      IsTemplate segments d ∧ segments.length = 9 ∧ d.declarations.length = 3 := by
  have hcount : (scan twoBlocks).length = 9 := by decide +kernel
  have hvalue : (parse twoBlocks).toOption.map (·.declarations.length) = some 3 := by
    decide +kernel
  cases hparse : parse twoBlocks with
  | error fault =>
    rw [hparse] at hvalue
    cases hvalue
  | ok d =>
    obtain ⟨segments, hscan, htemplate⟩ := (parse_ok_iff_isTemplate twoBlocks).2 d hparse
    rw [hscan, List.length_map] at hcount
    rw [hparse] at hvalue
    exact ⟨d, segments, rfl, hscan, htemplate, hcount, Option.some.inj hvalue⟩

end TemplLayout
