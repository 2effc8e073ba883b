import TemplLayout.Proofs.Document.Reading

/-!
# TemplLayout.Proofs.Document.Run

A document read passage by passage.

* `Reading.Between r`      — `r` stands between two passages: no text is waiting, and an open block has
  just begun.
* `Reading.Advances p before d r r'` — the text `before`, which stands at `p`, and the directive `d`
  behind it take `r` to `r'`. There are four ways in which this can happen.
* `Reading.Runs p qs r r'` — the passages `qs`, which stand at `p`, take `r` to `r'`.

A source can be read exactly when its passages run from the start to a place between two declarations,
and what has been gathered by then is the document (`parse_passages_eq_ok_iff`).
-/

namespace TemplLayout

open Text

namespace Reading

structure Between (r : Reading) : Prop where
  gap : r.gap = .empty
  nesting : ∀ package t nesting, r.stage = .block package t nesting → nesting = .empty

theorem between_start : Between start :=
  ⟨rfl, by simp [start]⟩

/-- The text in front of a directive, or at the end. Outside a block it is the gap, whatever it is; in a
block it is markup, and can be refused. -/
theorem Between.feed_literal {r : Reading} (hr : r.Between) (p : Position) (before : Text) :
    feed step r (literalItems p before) =
      match r.stage with
      | .block package t _ =>
        ({ r with stage := .block package t (feed Nesting.step .empty (Token.ofText p before)).1 },
          (feed Nesting.step .empty (Token.ofText p before)).2)
      | _ => ({ r with gap := .ofText before }, none) := by
  obtain ⟨stage, ds, gap, ws⟩ := r
  obtain rfl : gap = .empty := hr.gap
  have hsingle : ∀ x : Except Fault Segment,
      feed step ⟨stage, ds, .empty, ws⟩ [x] = step ⟨stage, ds, .empty, ws⟩ x := by
    intro x
    rw [feed]
    rcases step ⟨stage, ds, .empty, ws⟩ x with ⟨r', _ | fault⟩ <;> rfl
  cases before with
  | nil =>
    cases stage with
    | preamble => rfl
    | top package => rfl
    | block package t nesting =>
      obtain rfl := hr.nesting package t nesting rfl
      rw [Token.ofText_nil]
      rfl
  | cons c before =>
    cases stage with
    | preamble => exact hsingle _
    | top package => exact hsingle _
    | block package t nesting =>
      obtain rfl := hr.nesting package t nesting rfl
      exact hsingle _

inductive Advances (p : Position) (before : Text) (d : Directive) : Reading → Reading → Prop
  | package {ds : List Declaration} {ws : List Warning} : d.keyword? = some .package →
      d.argument.isWord = true →
      Advances p before d ⟨.preamble, ds, .empty, ws⟩
        ⟨.top ⟨d.argument, .ofText before, d.position⟩, ds, .empty, ws⟩
  | importPath {package : Package} {ds : List Declaration} {ws : List Warning} :
      d.keyword? = some .importPath → d.argument ≠ [] →
      Advances p before d ⟨.top package, ds, .empty, ws⟩
        ⟨.top package, .importPath ⟨d.argument, .ofText before, d.position⟩ :: ds, .empty, ws⟩
  | templ {package : Package} {ds : List Declaration} {ws : List Warning} {signature : Signature} :
      d.keyword? = some .templ → Signature.ofText? d.argument = some signature →
      Advances p before d ⟨.top package, ds, .empty, ws⟩
        ⟨.block package ⟨signature, .ofText before, d.position⟩ .empty, ds, .empty, ws⟩
  | endtempl {package : Package} {t : OpenTempl} {ds : List Declaration} {ws ws' : List Warning}
      {body : Forest} : d.keyword? = some .endtempl → d.argument = [] →
      Forest.read p before = .ok (body, ws') →
      Advances p before d ⟨.block package t .empty, ds, .empty, ws⟩
        ⟨.top package, .templ ⟨t.signature, body, t.gap, t.position⟩ :: ds, .empty, ws ++ ws'⟩

variable {r r' : Reading} {p : Position} {before : Text} {d : Directive}
  {items : List (Except Fault Segment)}

theorem Advances.between (h : Advances p before d r r') : r'.Between := by
  cases h with
  | package => exact ⟨rfl, by simp⟩
  | importPath => exact ⟨rfl, by simp⟩
  | templ =>
    refine ⟨rfl, fun _ _ _ h => ?_⟩
    cases h
    rfl
  | endtempl => exact ⟨rfl, by simp⟩

theorem Advances.feed_eq (h : Advances p before d r r') (items : List (Except Fault Segment)) :
    feed step r (literalItems p before ++ .ok (.directive d.text d.position) :: items) =
      feed step r' items := by
  cases h with
  | package hkey hword =>
    rw [feed_gap rfl (by simp)]
    exact feed_cons items (by simp [step, packageStep, hkey, hword])
  | importPath hkey hne =>
    rw [feed_gap rfl (by simp)]
    exact feed_cons items (by simp [step, topStep, hkey, hne])
  | templ hkey hsignature =>
    rw [feed_gap rfl (by simp)]
    exact feed_cons items (by simp [step, topStep, hkey, hsignature])
  | endtempl hkey hargument hread =>
    obtain ⟨nesting, hfeed, hfinish, rfl⟩ := Forest.read_eq_ok_iff.1 hread
    rw [feed_markup rfl hfeed]
    exact feed_cons items (by simp [step, blockStep, hkey, hargument, hfinish])

/-! ## What a passage can do -/

theorem advances_packageStep {ds : List Declaration} {ws : List Warning}
    (h : packageStep ⟨.preamble, ds, .ofText before, ws⟩ d = (r', none)) :
    Advances p before d ⟨.preamble, ds, .empty, ws⟩ r' := by
  rw [packageStep] at h
  split at h
  · cases h
  · rename_i hkey
    split at h
    · cases h
    · rename_i hword
      cases h
      exact .package (by simpa using hkey) (by simpa using hword)

theorem advances_topStep {package : Package} {ds : List Declaration} {ws : List Warning}
    (h : topStep ⟨.top package, ds, .ofText before, ws⟩ package d = (r', none)) :
    Advances p before d ⟨.top package, ds, .empty, ws⟩ r' := by
  rw [topStep] at h
  split at h
  · cases h
  · rename_i hkey
    split at h
    · cases h
    · rename_i hne
      cases h
      exact .importPath hkey (by simpa using hne)
  · rename_i hkey
    split at h
    · cases h
    · rename_i signature hsignature
      cases h
      exact .templ hkey hsignature
  · cases h
  · cases h

theorem advances_blockStep {package : Package} {t : OpenTempl} {nesting : Nesting}
    {ds : List Declaration} {ws : List Warning}
    (hfeed : feed Nesting.step .empty (Token.ofText p before) = (nesting, none))
    (h : blockStep ⟨.block package t nesting, ds, .empty, ws⟩ package t nesting d = (r', none)) :
    Advances p before d ⟨.block package t .empty, ds, .empty, ws⟩ r' := by
  rw [blockStep] at h
  split at h
  · cases h
  · split at h
    · rename_i hend
      split at h
      · cases h
      · rename_i body hfinish
        cases h
        have hread := Forest.read_eq_ok_iff.2 ⟨nesting, hfeed, hfinish, rfl⟩
        exact .endtempl hend.1 (by simpa using hend.2) hread
    · cases h

theorem exists_advances (hr : r.Between)
    (h : feed step r (literalItems p before ++ .ok (.directive d.text d.position) :: items) =
      (r', none)) :
    ∃ r₁, Advances p before d r r₁ ∧ feed step r₁ items = (r', none) := by
  obtain ⟨stage, ds, gap, ws⟩ := r
  obtain rfl : gap = .empty := hr.gap
  cases stage with
  | preamble =>
    rw [feed_gap rfl (by simp)] at h
    obtain ⟨r₁, hstep, hrest⟩ := exists_of_feed_cons h
    exact ⟨r₁, advances_packageStep hstep, hrest⟩
  | top package =>
    rw [feed_gap rfl (by simp)] at h
    obtain ⟨r₁, hstep, hrest⟩ := exists_of_feed_cons h
    exact ⟨r₁, advances_topStep hstep, hrest⟩
  | block package t nesting =>
    obtain rfl := hr.nesting package t nesting rfl
    obtain ⟨nesting, hfeed, h⟩ := exists_of_feed_markup rfl h
    obtain ⟨r₁, hstep, hrest⟩ := exists_of_feed_cons h
    exact ⟨r₁, advances_blockStep hfeed hstep, hrest⟩

/-! ## Passage by passage -/

end Reading

/-- The directive of a passage that stands at `p`. -/
def Passage.directive (p : Position) (q : Passage) : Directive :=
  ⟨q.body.trim, p.after q.before⟩

namespace Reading

inductive Runs : Position → List Passage → Reading → Reading → Prop
  | nil {p : Position} {r : Reading} : Runs p [] r r
  | cons {p : Position} {q : Passage} {qs : List Passage} {r r₁ r' : Reading} :
      Advances p q.before (q.directive p) r r₁ → Runs (p.after q.spell) qs r₁ r' →
      Runs p (q :: qs) r r'

variable {qs : List Passage} {u : Text}

theorem Runs.between (h : Runs p qs r r') (hr : r.Between) : r'.Between := by
  induction h with
  | nil => exact hr
  | cons hadvances _ ih => exact ih hadvances.between

theorem Runs.feed_eq (hqs : ∀ q ∈ qs, q.WellFormed) (h : Runs p qs r r') (u : Text) :
    feed step r (scanFrom p (qs.flatMap Passage.spell ++ u)) =
      feed step r' (scanFrom (p.after (qs.flatMap Passage.spell)) u) := by
  induction h with
  | nil => rfl
  | @cons p q qs _ _ _ hadvances _ ih =>
    rw [List.forall_mem_cons] at hqs
    rw [List.flatMap_cons, List.append_assoc, scanFrom_passage hqs.1, Position.after_append,
      ← ih hqs.2]
    exact hadvances.feed_eq _

theorem exists_runs (hqs : ∀ q ∈ qs, q.WellFormed) (hr : r.Between)
    (h : feed step r (scanFrom p (qs.flatMap Passage.spell ++ u)) = (r', none)) :
    ∃ r₁, Runs p qs r r₁ ∧
      feed step r₁ (scanFrom (p.after (qs.flatMap Passage.spell)) u) = (r', none) := by
  induction qs generalizing p r with
  | nil => exact ⟨r, .nil, h⟩
  | cons q qs ih =>
    rw [List.forall_mem_cons] at hqs
    rw [List.flatMap_cons, List.append_assoc, scanFrom_passage hqs.1] at h
    obtain ⟨r₁, hadvances, hrest⟩ := exists_advances (d := q.directive p) hr h
    obtain ⟨r₂, hruns, hlast⟩ := ih hqs.2 hadvances.between hrest
    refine ⟨r₂, .cons hadvances hruns, ?_⟩
    rwa [List.flatMap_cons, Position.after_append]

/-- The text behind the last passage does nothing but become the trailing text. -/
theorem finish_last (hr : r.Between) (stop : Position) {d : Document}
    (h : feed step r (literalItems p u) = (r', none)) (hd : r'.finish stop = .ok d) :
    ∃ package ds ws, r = ⟨.top package, ds, .empty, ws⟩ ∧
      d = ⟨package, ds.reverse, (Gap.ofText u).comment, ws⟩ := by
  rw [hr.feed_literal] at h
  obtain ⟨stage, ds, gap, ws⟩ := r
  obtain rfl : gap = .empty := hr.gap
  cases stage with
  | preamble =>
    cases h
    cases hd
  | top package =>
    cases h
    cases hd
    exact ⟨package, ds, ws, rfl, rfl⟩
  | block package t nesting =>
    obtain ⟨rfl, -⟩ := Prod.mk.inj h
    cases hd

end Reading

open Reading

theorem parse_passages_eq_ok_iff {qs : List Passage} {u : Text} {d : Document}
    (hqs : ∀ q ∈ qs, q.WellFormed) (hu : Lacks opensDirective u) :
    parse (qs.flatMap Passage.spell ++ u) = .ok d ↔
      ∃ package ds ws, Runs .start qs start ⟨.top package, ds, .empty, ws⟩ ∧
        d = ⟨package, ds.reverse, (Gap.ofText u).comment, ws⟩ := by
  rw [parse, ofSource, scan_eq_scanFrom]
  constructor
  · intro h
    split at h
    · cases h
    · rename_i r hfeed
      obtain ⟨r₁, hruns, hlast⟩ := exists_runs hqs between_start hfeed
      rw [scanFrom_last hu] at hlast
      obtain ⟨package, ds, ws, rfl, hd⟩ := finish_last (hruns.between between_start) _ hlast h
      exact ⟨package, ds, ws, hruns, hd⟩
  · rintro ⟨package, ds, ws, hruns, rfl⟩
    rw [hruns.feed_eq hqs, scanFrom_last hu, (hruns.between between_start).feed_literal]
    rfl

/-- A fault among the segments ends the reading. -/
theorem feed_ne_none_of_fault {r r' : Reading} {items : List (Except Fault Segment)}
    {fault : Fault} : feed step r (items ++ [.error fault]) ≠ (r', none) := by
  intro h
  obtain ⟨r₁, -, hfault⟩ := exists_of_feed_append h
  cases hfault

theorem exists_passages_of_parse_append {qs : List Passage} {rest : Text} {d : Document}
    (hqs : ∀ q ∈ qs, q.WellFormed) (h : parse (qs.flatMap Passage.spell ++ rest) = .ok d) :
    ∃ ys : List Passage, ∃ u, (∀ q ∈ ys, q.WellFormed) ∧ Lacks opensDirective u ∧
      rest = ys.flatMap Passage.spell ++ u := by
  obtain ⟨ys, u, hys, rfl, hu⟩ := exists_passages rest
  rcases hu with hu | ⟨before, body, hb, hbody, rfl⟩
  · exact ⟨ys, u, hys, hu, rfl⟩
  · rw [parse, ofSource, scan_eq_scanFrom] at h
    split at h
    · cases h
    · rename_i r hfeed
      obtain ⟨r₁, hruns, hrest⟩ := exists_runs hqs between_start hfeed
      obtain ⟨r₂, -, hlast⟩ := exists_runs hys (hruns.between between_start) hrest
      rw [scanFrom_unterminated hb hbody] at hlast
      exact absurd hlast feed_ne_none_of_fault

/-- Whatever is read is a row of passages with a text behind it. -/
theorem exists_passages_of_parse {source : Text} {d : Document} (h : parse source = .ok d) :
    ∃ qs : List Passage, ∃ u, (∀ q ∈ qs, q.WellFormed) ∧ Lacks opensDirective u ∧
      source = qs.flatMap Passage.spell ++ u := by
  have hnone : ∀ q ∈ ([] : List Passage), q.WellFormed := by simp
  exact exists_passages_of_parse_append hnone h

end TemplLayout
