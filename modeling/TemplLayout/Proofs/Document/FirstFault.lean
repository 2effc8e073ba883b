import TemplLayout.Proofs.Document.Run
import TemplLayout.Proofs.Markup.Front

/-!
# TemplLayout.Proofs.Document.FirstFault

What stands in front of a fault has no fault of its own.

* `Reading.Reaches u r`   — the passages of `u`, which stands at the start of a source, take the start to
  `r`.
* `Reading.Stops p r t`   — at the text `t`, which stands at `p`, the passages come to an end for `r`.
* `Faultless t`           — `t` is read to its end, though it may end too soon.
* `Reached source p w`    — the source is read up to `p` without a fault, and there `w` stands.

Every source is passages that can be read and a text at which they stop (`exists_reaches`). A fault in
that text is one of a directive or of a tag, and what the fault is about stands at its position
(`faces_parse`). The text in front of it is then a source that ends too soon at worst
(`parse_before_fault`).
-/

namespace TemplLayout

open Text

/-- The segments of a passage that stands at `p`. -/
def Passage.items (p : Position) (q : Passage) : List (Except Fault Segment) :=
  literalItems p q.before ++ [.ok (.directive (q.directive p).text (q.directive p).position)]

theorem scanFrom_items {q : Passage} (hq : q.WellFormed) (p : Position) (t : Text) :
    scanFrom p (q.spell ++ t) = q.items p ++ scanFrom (p.after q.spell) t := by
  rw [scanFrom_passage hq, List.append_cons]
  rfl

namespace Reading

inductive Reaches : Text → Reading → Prop
  | start : Reaches [] start
  | passage {u : Text} {r r' : Reading} {q : Passage} : Reaches u r → q.WellFormed →
      Advances (Position.start.after u) q.before (q.directive (Position.start.after u)) r r' →
      Reaches (u ++ q.spell) r'

inductive Stops (p : Position) (r : Reading) : Text → Prop
  | last {t : Text} : Lacks opensDirective t → Stops p r t
  | unterminated {before body : Text} : Lacks opensDirective before → Lacks closesDirective body →
      Stops p r (before ++ '{' :: '%' :: body)
  | passage {q : Passage} {rest : Text} {r' : Reading} {fault : Fault} : q.WellFormed →
      feed step r (q.items p) = (r', some fault) → Stops p r (q.spell ++ rest)

variable {u t before : Text} {r r' : Reading} {fault : Fault}

theorem Reaches.between (h : Reaches u r) : r.Between := by
  cases h with
  | start => exact between_start
  | passage _ _ hadvances => exact hadvances.between

/-- No passage leads back to where there is no package. -/
theorem Reaches.eq_start (h : Reaches u r) (hstage : r.stage = .preamble) : u = [] ∧ r = .start := by
  cases h with
  | start => exact ⟨rfl, rfl⟩
  | passage _ _ hadvances => cases hadvances <;> cases hstage

theorem Reaches.ofSource_append (h : Reaches u r) (t : Text) :
    ofSource (u ++ t) = feed step r (scanFrom (Position.start.after u) t) := by
  induction h generalizing t with
  | start => rfl
  | @passage u r r' q _ hq hadvances ih =>
    rw [List.append_assoc, ih, scanFrom_passage hq, Position.after_append]
    exact hadvances.feed_eq _

theorem exists_reaches (source : Text) :
    ∃ u t r, source = u ++ t ∧ Reaches u r ∧ Stops (Position.start.after u) r t := by
  -- A passage taken off the text behind is one more in front, and the source stays the same.
  have hbehind : ∀ t u r, Reaches u r →
      ∃ u' t' r', u ++ t = u' ++ t' ∧ Reaches u' r' ∧ Stops (Position.start.after u') r' t' := by
    intro t
    induction t using passage_induction with
    | last t ht => exact fun u r hr => ⟨u, t, r, rfl, hr, .last ht⟩
    | unterminated before body hb hbody =>
      exact fun u r hr => ⟨u, _, r, rfl, hr, .unterminated hb hbody⟩
    | passage q rest hq ih =>
      intro u r hr
      rcases hfeed : feed step r (q.items (Position.start.after u)) with ⟨r', _ | fault⟩
      · obtain ⟨r₁, hadvances, -⟩ := exists_advances hr.between hfeed
        obtain ⟨u', t', r₂, happ, hr₂, hstops⟩ := ih (u ++ q.spell) r₁ (hr.passage hq hadvances)
        exact ⟨u', t', r₂, by rw [← happ, List.append_assoc], hr₂, hstops⟩
      · exact ⟨u, _, r, rfl, hr, .passage hq hfeed⟩
  exact hbehind source [] start .start

end Reading

def Faultless (t : Text) : Prop :=
  ∃ r, Reading.ofSource t = (r, none)

def Reached (source : Text) (p : Position) (w : Text) : Prop :=
  ∃ front rest, source = front ++ (w ++ rest) ∧ p = Position.start.after front ∧ Faultless front

theorem Reached.append {source w : Text} {p : Position} (h : Reached source p w) (t : Text) :
    Reached (source ++ t) p w := by
  obtain ⟨front, rest, rfl, hp, hfront⟩ := h
  exact ⟨front, rest ++ t, by simp, hp, hfront⟩

namespace Reading

variable {u t before : Text} {r r' : Reading} {fault : Fault}

theorem Reaches.faultless (h : Reaches u r) (ht : Lacks opensDirective t)
    (hfeed : feed step r (literalItems (Position.start.after u) t) = (r', none)) :
    Faultless (u ++ t) := by
  refine ⟨r', ?_⟩
  rw [h.ofSource_append, scanFrom_last ht, hfeed]

/-- A directive behind a text in which there is no fault. -/
theorem Reaches.directive (h : Reaches u r) (hbefore : Lacks opensDirective before)
    (hfeed : feed step r (literalItems (Position.start.after u) before) = (r', none)) (t : Text) :
    Reached (u ++ (before ++ '{' :: '%' :: t)) ((Position.start.after u).after before)
      ['{', '%'] := by
  refine ⟨u ++ before, t, by simp, ?_, h.faultless hbefore hfeed⟩
  rw [Position.after_append]

/-- What is reached in the text of a block is reached in the source. -/
theorem Reaches.markup {package : Package} {templ : OpenTempl} {q : Position} {w : Text}
    (h : Reaches u r) (hstage : r.stage = .block package templ .empty)
    (hbefore : Lacks opensDirective before)
    (hw : Nesting.Reached (Position.start.after u) before q w) (t : Text) :
    Reached (u ++ (before ++ t)) q w := by
  obtain ⟨front, rest, s, rfl, rfl, hfeed⟩ := hw
  have hfront : Lacks opensDirective front :=
    pattern_opensDirective.lacks_of_isInfix hbefore ⟨[], w ++ rest, rfl⟩
  refine ⟨u ++ front, rest ++ t, by simp, by rw [Position.after_append], ?_⟩
  have hliteral := feed_markup hstage hfeed []
  rw [List.append_nil] at hliteral
  exact h.faultless hfront hliteral

/-! ## Where the stages began -/

/-- The directive of a passage that can be read. -/
theorem Reaches.reached_directive {q : Passage} (h : Reaches u r) (hq : q.WellFormed)
    (hadvances : Advances (Position.start.after u) q.before
      (q.directive (Position.start.after u)) r r') :
    Reached (u ++ q.spell) (q.directive (Position.start.after u)).position ['{', '%'] := by
  obtain ⟨r₁, hbefore, -⟩ := exists_of_feed_append (hadvances.feed_eq [])
  exact h.directive hq.before hbefore (q.body ++ ['%', '}'])

end Reading

/-- The directives that the stage goes back to have been reached. -/
def Stage.Placed (u : Text) : Stage → Prop
  | .preamble => True
  | .top package => Reached u package.position ['{', '%']
  | .block package t _ => Reached u package.position ['{', '%'] ∧ Reached u t.position ['{', '%']

theorem Reading.Reaches.placed {u : Text} {r : Reading} (h : Reaches u r) : r.stage.Placed u := by
  induction h with
  | start => trivial
  | passage hr hq hadvances ih =>
    have hreached := hr.reached_directive hq hadvances
    cases hadvances with
    | package => exact hreached
    | importPath => exact Reached.append ih _
    | templ => exact ⟨Reached.append ih _, hreached⟩
    | endtempl => exact Reached.append ih.1 _

/-! ## What a fault is about -/

namespace Reading

variable {u t before : Text} {r r' : Reading} {fault : Fault} {package : Package} {templ : OpenTempl}
  {d : Directive} {At : Position → Text → Prop}

/-- A text is refused in a block only, for one of its tags. -/
theorem Reaches.faces_literal (h : Reaches u r) (hbefore : Lacks opensDirective before)
    (hfeed : feed step r (literalItems (Position.start.after u) before) = (r', some fault))
    (t : Text) : fault.Faces (Reached (u ++ (before ++ t))) := by
  rw [h.between.feed_literal] at hfeed
  cases hstage : r.stage with
  | preamble =>
    rw [hstage] at hfeed
    cases hfeed
  | top package =>
    rw [hstage] at hfeed
    cases hfeed
  | block package templ nesting =>
    obtain rfl := h.between.nesting package templ nesting hstage
    rw [hstage] at hfeed
    obtain ⟨-, hfault⟩ := Prod.mk.inj hfeed
    exact (Nesting.faces_feed (Prod.ext rfl hfault)).mono fun q w hw => h.markup hstage hbefore hw t

theorem faces_packageStep (hat : At d.position ['{', '%'])
    (h : packageStep r d = (r', some fault)) : fault.Faces At := by
  rw [packageStep] at h
  split at h
  · cases h
    exact hat
  · split at h
    · cases h
      exact hat
    · cases h

theorem faces_topStep (hat : At d.position ['{', '%']) (hfirst : At package.position ['{', '%'])
    (h : topStep r package d = (r', some fault)) : fault.Faces At := by
  rw [topStep] at h
  split at h
  · cases h
    exact ⟨hat, hfirst⟩
  · split at h
    · cases h
      exact hat
    · cases h
  · split at h
    · cases h
      exact hat
    · cases h
  all_goals
    cases h
    exact hat

theorem faces_blockStep {nesting : Nesting} (hat : At d.position ['{', '%'])
    (hfinish : ∀ found, nesting.finish = .error found → found.Faces At)
    (h : blockStep r package templ nesting d = (r', some fault)) : fault.Faces At := by
  rw [blockStep] at h
  split at h
  · cases h
    exact hat
  · split at h
    · split at h
      · rename_i hfound
        cases h
        exact hfinish _ hfound
      · cases h
    · cases h
      exact hat

theorem Reaches.faces_directive (h : Reaches u r) (hbefore : Lacks opensDirective before)
    {r₁ : Reading} (hfeed : feed step r (literalItems (Position.start.after u) before) = (r₁, none))
    (hd : d.position = (Position.start.after u).after before)
    (hstep : step r₁ (.ok (.directive d.text d.position)) = (r', some fault)) (t : Text) :
    fault.Faces (Reached (u ++ (before ++ '{' :: '%' :: t))) := by
  have hat := h.directive hbefore hfeed t
  rw [← hd] at hat
  have hplaced := h.placed
  rw [h.between.feed_literal] at hfeed
  cases hstage : r.stage with
  | preamble =>
    rw [hstage] at hfeed
    cases hfeed
    exact faces_packageStep hat hstep
  | top package =>
    rw [hstage] at hfeed hplaced
    cases hfeed
    exact faces_topStep hat (Reached.append hplaced _) hstep
  | block package templ nesting =>
    obtain rfl := h.between.nesting package templ nesting hstage
    rw [hstage] at hfeed
    obtain ⟨rfl, hnone⟩ := Prod.mk.inj hfeed
    -- The end of the block can be refused for an element in front of it.
    refine faces_blockStep hat (fun found hfound => ?_) hstep
    have hmarkup := Nesting.faces_finish (Prod.ext rfl hnone) hfound
    exact hmarkup.mono fun q w hw => h.markup hstage hbefore hw _

theorem Reaches.faces_passage {q : Passage} (h : Reaches u r) (hq : q.WellFormed)
    (hfeed : feed step r (q.items (Position.start.after u)) = (r', some fault)) (t : Text) :
    fault.Faces (Reached (u ++ (q.spell ++ t))) := by
  have hspell : q.spell ++ t = q.before ++ '{' :: '%' :: (q.body ++ ['%', '}'] ++ t) := by
    simp [Passage.spell, Piece.spell]
  rw [Passage.items, feed_append] at hfeed
  rw [hspell]
  split at hfeed
  · rename_i r₁ hliteral
    rcases hstep : step r₁ (.ok (.directive (q.directive (Position.start.after u)).text
      (q.directive (Position.start.after u)).position)) with ⟨r₂, _ | found⟩
    · rw [feed_cons [] hstep] at hfeed
      cases hfeed
    · rw [feed, hstep] at hfeed
      cases hfeed
      exact h.faces_directive hq.before hliteral rfl hstep _
  · rename_i hliteral
    cases hfeed
    exact h.faces_literal hq.before hliteral _

theorem Reaches.faces_of_stops (h : Reaches u r) (hstops : Stops (Position.start.after u) r t)
    (hfeed : ofSource (u ++ t) = (r', some fault)) : fault.Faces (Reached (u ++ t)) := by
  rw [h.ofSource_append] at hfeed
  cases hstops with
  | last ht =>
    rw [scanFrom_last ht] at hfeed
    simpa using h.faces_literal ht hfeed []
  | @unterminated before body hbefore hbody =>
    rw [scanFrom_unterminated hbefore hbody, feed_append] at hfeed
    split at hfeed
    · rename_i r₁ hliteral
      cases hfeed
      exact h.directive hbefore hliteral body
    · rename_i hliteral
      cases hfeed
      exact h.faces_literal hbefore hliteral _
  | @passage q rest r₂ found hq hpassage =>
    rw [scanFrom_items hq, feed_append, hpassage] at hfeed
    cases hfeed
    exact h.faces_passage hq hpassage rest

/-- Where the reading of a source ends without a fault. -/
theorem exists_reaches_last {source : Text} (h : ofSource source = (r', none)) :
    ∃ u t r, source = u ++ t ∧ Reaches u r ∧ Lacks opensDirective t ∧
      feed step r (literalItems (Position.start.after u) t) = (r', none) := by
  obtain ⟨u, t, r, rfl, hr, hstops⟩ := exists_reaches source
  rw [hr.ofSource_append] at h
  cases hstops with
  | last ht =>
    rw [scanFrom_last ht] at h
    exact ⟨u, t, r, rfl, hr, ht, h⟩
  | unterminated hbefore hbody =>
    rw [scanFrom_unterminated hbefore hbody] at h
    exact absurd h feed_ne_none_of_fault
  | @passage q rest r₂ found hq hpassage =>
    rw [scanFrom_items hq, feed_append, hpassage] at h
    cases h

/-- The source has ended too soon. -/
theorem faces_finish {source : Text} (hsource : ofSource source = (r', none))
    (h : r'.finish (Position.start.after source) = .error fault) :
    fault.Faces (Reached source) ∨
      (Lacks opensDirective source ∧ fault = .missingPackage (Position.start.after source)) := by
  obtain ⟨u, t, r, rfl, hr, ht, hfeed⟩ := exists_reaches_last hsource
  have hplaced := hr.placed
  rw [hr.between.feed_literal] at hfeed
  cases hstage : r.stage with
  | preamble =>
    obtain ⟨rfl, -⟩ := hr.eq_start hstage
    rw [hstage] at hfeed
    cases hfeed
    cases h
    exact .inr ⟨ht, rfl⟩
  | top package =>
    rw [hstage] at hfeed
    cases hfeed
    cases h
  | block package templ nesting =>
    rw [hstage] at hfeed hplaced
    obtain ⟨rfl, -⟩ := Prod.mk.inj hfeed
    cases h
    exact .inl (Reached.append hplaced.2 t)

end Reading

theorem faces_parse {source : Text} {fault : Fault} (h : parse source = .error fault) :
    fault.Faces (Reached source) ∨
      (Lacks opensDirective source ∧ fault = .missingPackage (Position.start.after source)) := by
  rw [parse] at h
  split at h
  · rename_i r found hsource
    cases h
    obtain ⟨u, t, r₁, rfl, hr₁, hstops⟩ := Reading.exists_reaches source
    exact .inl (hr₁.faces_of_stops hstops hsource)
  · rename_i r hsource
    exact Reading.faces_finish hsource h

/-- A source without a fault in it can lack its end, or all that it should hold. -/
theorem Faultless.parse_cases {source : Text} (h : Faultless source) :
    (∃ d, parse source = .ok d) ∨ (∃ name p, parse source = .error (.unterminatedTempl name p)) ∨
      parse source = .error (.missingPackage (Position.start.after source)) := by
  obtain ⟨⟨stage, ds, gap, ws⟩, hsource⟩ := h
  rw [parse, hsource]
  cases stage with
  | preamble => exact .inr (.inr rfl)
  | top package => exact .inl ⟨_, rfl⟩
  | block package t nesting => exact .inr (.inl ⟨_, _, rfl⟩)

/-- The fault of a source is its first: the text in front of its position is a document, or a source that
ends inside a block or before the package. -/
theorem parse_before_fault {source : Text} {fault : Fault} (h : parse source = .error fault) :
    ∃ front rest, source = front ++ rest ∧ front.utf8.length = fault.position.offset ∧
      ((∃ d, parse front = .ok d) ∨
        (∃ name p, parse front = .error (.unterminatedTempl name p)) ∨
        parse front = .error (.missingPackage (Position.start.after front))) := by
  rcases faces_parse h with hfaces | ⟨-, rfl⟩
  · obtain ⟨w, front, rest, rfl, hp, hfront⟩ := hfaces.exists_at
    refine ⟨front, w ++ rest, rfl, ?_, hfront.parse_cases⟩
    rw [hp, Position.offset_after]
    simp [Position.start]
  · refine ⟨source, [], by simp, ?_, .inr (.inr h)⟩
    rw [Fault.position, Position.offset_after]
    simp [Position.start]

/-- The element is open at the end of its block, behind a void element that may be. -/
def leftOpen : Text :=
  "a ".toList ++ Directive.spell "package p".toList ++ ['\n'] ++
    Directive.spell "templ t(ü)".toList ++ "\nb<br><DIV x='>'>c<img>".toList ++
    Directive.spell "endtempl".toList ++ "</div>".toList

theorem parse_before_fault_leftOpen :
    parse leftOpen = .error (.unclosedElement "DIV".toList ⟨41, 3, 6⟩) ∧
      ∃ front rest, leftOpen = front ++ rest ∧ front.utf8.length = 41 ∧
        ((∃ d, parse front = .ok d) ∨
          (∃ name p, parse front = .error (.unterminatedTempl name p)) ∨
          parse front = .error (.missingPackage (Position.start.after front))) := by
  have h : parse leftOpen = .error (.unclosedElement "DIV".toList ⟨41, 3, 6⟩) := by
    decide +kernel
  exact ⟨h, parse_before_fault h⟩

end TemplLayout
