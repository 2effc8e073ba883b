import TemplLayout.Document.Reading
import TemplLayout.Proofs.Markup.Span
import TemplLayout.Proofs.Segment.Passage

/-!
# TemplLayout.Proofs.Document.Definite

A fault that was found stays the fault, whatever is written behind the source.

* `Fault.Definite s f` — the fault `f` of the source `s` is more than the source having ended too soon.

What comes last in a source can change when the source goes on: a last literal gets longer, or it ends
at a `{` that a `%` behind it turns into the start of a directive. A fault in markup is found at the
`>` of a tag, though. No directive begins before that `>` and ends behind it, so the tokens up to there
are the same in any case (`fault_ofText_append`).
-/

namespace TemplLayout

open Text

def Fault.Definite (source : Text) : Fault → Prop
  | .missingPackage p => p.offset < source.utf8.length
  | .duplicatePackage _ _ | .malformedDirective _ _ | .unexpectedDirective _ _ | .nestedTempl _ _
  | .mismatchedTag _ _ _ | .unexpectedClosingTag _ _ | .unclosedElement _ _ => True
  | .unterminatedDirective _ | .unterminatedTempl _ _ | .unterminatedTag _ _ => False

/-- What is put in front does not matter, when every refusal behind it is kept. -/
theorem refused_behind {σ α ε : Type} {step : σ → α → σ × Option ε} {s s' : σ} {e : ε}
    {xs ys zs : List α}
    (h : ∀ s₁, feed step s₁ ys = (s', some e) → feed step s₁ zs = (s', some e))
    (hys : feed step s (xs ++ ys) = (s', some e)) : feed step s (xs ++ zs) = (s', some e) := by
  rw [feed_append] at hys ⊢
  split at hys
  · exact h _ hys
  · exact hys

/-! ## In a block -/

namespace Nesting

/-- Text by itself is never refused. -/
theorem feed_run (s : Nesting) (t : Text) : ∃ s', feed step s (Token.run t) = (s', none) := by
  cases t with
  | nil => exact ⟨s, rfl⟩
  | cons c t => exact ⟨_, rfl⟩

/-- A fault is found when the tag that it is about ends. -/
theorem fault_ofText_append {s s' : Nesting} {p : Position} {t : Text} {fault : Fault}
    (h : feed step s (Token.ofText p t) = (s', some fault))
    (hends : ∀ name q, fault ≠ .unterminatedTag name q) :
    ∃ front rest, t = front ++ rest ∧ front.getLast? = some '>' ∧
      ∀ u, feed step s (Token.ofText p (front ++ u)) = (s', some fault) := by
  induction t using markup_induction generalizing s p with
  | last t ht =>
    obtain ⟨s₁, hrun⟩ := feed_run s t
    rw [Token.ofText_last ht, hrun] at h
    cases h
  | tag t inner rest ht hstart hi ih =>
    obtain ⟨s₁, hrun⟩ := feed_run s t
    have htoks : ∀ u, feed step s (Token.ofText p (t ++ '<' :: (inner ++ '>' :: u))) =
        feed step s₁ (.mark (Mark.ofInner inner) (p.after t) ::
          Token.ofText ((p.after t).after ('<' :: inner ++ ['>'])) u) := by
      intro u
      rw [Token.ofText_run_mark ht hstart hi, feed_append, hrun]
    rw [htoks] at h
    rcases hstep : step s₁ (.mark (Mark.ofInner inner) (p.after t)) with ⟨s₂, _ | found⟩
    · rw [feed_cons _ hstep] at h
      obtain ⟨front, rest', rfl, hlast, hfront⟩ := ih h
      refine ⟨t ++ '<' :: (inner ++ '>' :: front), rest', by simp, ?_, fun u => ?_⟩
      · simp [List.getLast?_append, List.getLast?_cons, hlast]
      · rw [List.append_assoc, List.cons_append, List.append_assoc, List.cons_append, htoks,
          feed_cons _ hstep, hfront]
    · -- The tag itself is refused, and nothing behind its `>` is looked at.
      rw [feed, hstep] at h
      refine ⟨t ++ '<' :: inner ++ ['>'], rest, by simp, List.getLast?_concat, fun u => ?_⟩
      rw [show t ++ '<' :: inner ++ ['>'] ++ u = t ++ '<' :: (inner ++ '>' :: u) by simp, htoks,
        feed, hstep]
      exact h
  | unterminated t u ht hstart hclose =>
    obtain ⟨s₁, hrun⟩ := feed_run s t
    rw [Token.ofText_run ht (.inr hstart), Token.ofText_unterminated hstart hclose, feed_append,
      hrun] at h
    cases h
    exact absurd rfl (hends _ _)

end Nesting

/-! ## In a source -/

namespace Reading

variable {r r' : Reading} {p : Position} {t : Text} {fault : Fault}

/-- A literal is refused in a block only, and for what the block has read so far. -/
theorem step_literal_eq_fault_iff :
    r.step (.ok (.literal t p)) = (r', some fault) ↔
      ∃ package templ nesting nesting', r.stage = .block package templ nesting ∧
        feed Nesting.step nesting (Token.ofText p t) = (nesting', some fault) ∧
        r' = { r with stage := .block package templ nesting' } := by
  obtain ⟨_ | package | ⟨package, templ, nesting⟩, declarations, gap, warnings⟩ := r
  · simp [step]
  · simp [step]
  · rcases hfeed : feed Nesting.step nesting (Token.ofText p t) with ⟨nesting', fault?⟩
    simp only [step, hfeed, Prod.mk.injEq, Stage.block.injEq]
    grind

/-- No directive opens across a `>`, so a text that ends with one stays in one literal, wherever the
directive behind it opens. -/
theorem exists_scanFrom_literal {front : Text} (hfront : Lacks opensDirective front)
    (hlast : front.getLast? = some '>') (p : Position) (u : Text) :
    ∃ v items, scanFrom p (front ++ u) = .ok (.literal (front ++ v) p) :: items := by
  have happ := breakAt_append opensDirective u
  have hv := pattern_opensDirective.lacks_breakAt_fst u
  have hw := breakAt_snd opensDirective u
  generalize (u.breakAt opensDirective).1 = v at happ hv
  generalize (u.breakAt opensDirective).2 = w at happ hw
  have hseam : Seam (· = ['{', '%']) front v := by
    refine seam_pair (.inr fun c hc => ?_)
    rw [hlast] at hc
    cases hc
    decide
  have hne : (front ++ v).isEmpty = false := by
    cases front with
    | nil => cases hlast
    | cons c front => rfl
  refine ⟨v, scanFrom (p.after (front ++ v)) w, ?_⟩
  rw [← happ, ← List.append_assoc,
    scanFrom_literal (pattern_opensDirective.lacks_append hfront hv hseam) hw, literalItems, hne,
    if_neg Bool.false_ne_true, List.singleton_append]

/-- The last literal may end later or earlier once there is text behind it. -/
theorem fault_last_append (ht : Lacks opensDirective t)
    (h : feed step r (literalItems p t) = (r', some fault))
    (htag : ∀ name q, fault ≠ .unterminatedTag name q) (u : Text) :
    feed step r (scanFrom p (t ++ u)) = (r', some fault) := by
  cases t with
  | nil => cases h
  | cons c t =>
    have hliteral : r.step (.ok (.literal (c :: t) p)) = (r', some fault) := by
      rw [literalItems, List.isEmpty_cons, if_neg Bool.false_ne_true, feed] at h
      split at h
      · cases h
      · rwa [← h]
    obtain ⟨package, templ, nesting, nesting', hstage, hfeed, hr'⟩ :=
      step_literal_eq_fault_iff.1 hliteral
    obtain ⟨front, rest, hsplit, hlast, hfront⟩ := Nesting.fault_ofText_append hfeed htag
    have hlacks : Lacks opensDirective front :=
      pattern_opensDirective.lacks_of_isInfix ht ⟨[], rest, by simp [hsplit]⟩
    obtain ⟨v, items, hscan⟩ := exists_scanFrom_literal hlacks hlast p (rest ++ u)
    rw [hsplit, List.append_assoc, hscan, feed,
      step_literal_eq_fault_iff.2 ⟨package, templ, nesting, nesting', hstage, hfront v, hr'⟩]

theorem fault_scanFrom_append (h : feed step r (scanFrom p t) = (r', some fault))
    (htag : ∀ name q, fault ≠ .unterminatedTag name q)
    (hdirective : ∀ q, fault ≠ .unterminatedDirective q) (u : Text) :
    feed step r (scanFrom p (t ++ u)) = (r', some fault) := by
  induction t using passage_induction generalizing r p with
  | last t ht =>
    rw [scanFrom_last ht] at h
    exact fault_last_append ht h htag u
  | passage q rest hq ih =>
    rw [List.append_assoc]
    rw [scanFrom_passage hq, List.append_cons] at h ⊢
    exact refused_behind (fun r₁ => ih) h
  | unterminated before body hbefore hbody =>
    rw [scanFrom_unterminated hbefore hbody] at h
    rw [List.append_assoc, List.cons_append, List.cons_append,
      scanFrom_literal hbefore (.inr rfl)]
    refine refused_behind (fun r₁ hr₁ => ?_) h
    cases hr₁
    exact absurd rfl (hdirective _)

end Reading

/-- A definite fault depends on nothing that stands behind the text in which it was found. -/
theorem parse_append {source : Text} {fault : Fault} (h : parse source = .error fault)
    (hdefinite : fault.Definite source) (t : Text) : parse (source ++ t) = .error fault := by
  rw [parse] at h
  split at h
  · rename_i r found hfeed
    cases h
    have hlonger : Reading.ofSource (source ++ t) = (r, some fault) := by
      refine Reading.fault_scanFrom_append hfeed ?_ ?_ t
      · rintro name q rfl
        exact hdefinite
      · rintro q rfl
        exact hdefinite
    rw [parse, hlonger]
  · -- The source was read whole, so the fault is about its end.
    rename_i r hfeed
    rw [Reading.finish] at h
    split at h
    · cases h
      rw [Fault.Definite, Position.offset_after] at hdefinite
      exact absurd hdefinite (by simp [Position.start])
    · cases h
      cases hdefinite
    · cases h

/-- The source ends with a `{`, which a `%` behind it makes the start of a directive. -/
def brokenOff : Text :=
  Directive.spell "package p".toList ++ Directive.spell "templ t()".toList ++
    "<p>a</div>".toList ++ ['{']

theorem parse_append_brokenOff :
    parse brokenOff = .error (.mismatchedTag "p".toList "div".toList ⟨34, 1, 35⟩) ∧
      ∀ t, parse (brokenOff ++ t) =
        .error (.mismatchedTag "p".toList "div".toList ⟨34, 1, 35⟩) := by
  have h : parse brokenOff = .error (.mismatchedTag "p".toList "div".toList ⟨34, 1, 35⟩) := by
    decide +kernel
  exact ⟨h, parse_append h trivial⟩

end TemplLayout
