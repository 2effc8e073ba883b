import TemplLayout.Markup.Nesting

/-!
# TemplLayout.Proofs.Markup.Outcome

What comes of a nesting, token by token.

* `Nesting.outcome s toks` — the forest when `toks` is all that is still to come, if there is one.

The equations below are those of reading with the faults and the warnings left out. `Forest.read` has a
forest exactly when its tokens have this outcome (`toOption_read`).
-/

namespace TemplLayout

namespace Nesting

def outcome (s : Nesting) (toks : List Token) : Option Forest :=
  match feed step s toks with
  | (s', none) => s'.finish.toOption
  | (_, some _) => none

theorem outcome_nil (s : Nesting) : s.outcome [] = s.finish.toOption := rfl

theorem outcome_cons {s s' : Nesting} {tok : Token} (toks : List Token)
    (h : step s tok = (s', none)) : s.outcome (tok :: toks) = s'.outcome toks := by
  rw [outcome, outcome, feed_cons toks h]

theorem outcome_refused {s s' : Nesting} {tok : Token} {fault : Fault} (toks : List Token)
    (h : step s tok = (s', some fault)) : s.outcome (tok :: toks) = none := by
  rw [outcome, feed, h]

theorem outcome_text (s : Nesting) (content : Text) (toks : List Token) :
    s.outcome (.text content :: toks) = (s.push (.text content)).outcome toks :=
  outcome_cons toks rfl

theorem outcome_unterminated (s : Nesting) (name : Text) (p : Position) (toks : List Token) :
    s.outcome (.unterminated name p :: toks) = none :=
  outcome_refused toks rfl

theorem outcome_opening (s : Nesting) (tag : Tag) (p : Position) (toks : List Token) :
    s.outcome (.mark (.opening tag) p :: toks) =
      if tag.selfClosed then (s.push (.element tag p [])).outcome toks
      else outcome { s with opened := ⟨tag, p, []⟩ :: s.opened } toks := by
  split
  · exact outcome_cons toks (by simp [step, *])
  · exact outcome_cons toks (by simp [step, *])

theorem outcome_closing (s : Nesting) (name : Text) (p : Position) (toks : List Token) :
    s.outcome (.mark (.closing name) p :: toks) =
      (unwind name p [] s.opened).toOption.bind fun (e, content, outer) =>
        (push ⟨outer, s.outside, s.warnings ++ warningsOf e content⟩
          (.element e.tag e.position content)).outcome toks := by
  cases hunwind : unwind name p [] s.opened with
  | error fault => exact outcome_refused toks (by rw [step, hunwind])
  | ok found => exact outcome_cons toks (by rw [step, hunwind])

end Nesting

theorem Forest.toOption_read (p : Position) (t : Text) :
    (Forest.read p t).toOption.map (·.1) = Nesting.empty.outcome (Token.ofText p t) := by
  rw [Forest.read, Nesting.outcome]
  rcases feed Nesting.step .empty (Token.ofText p t) with ⟨s, _ | fault⟩
  · cases h : s.finish <;> simp [h, Except.map, Except.toOption]
  · rfl

theorem Forest.exists_read_iff {p : Position} {t : Text} {f : Forest} :
    (∃ ws, Forest.read p t = .ok (f, ws)) ↔
      Nesting.empty.outcome (Token.ofText p t) = some f := by
  rw [← toOption_read]
  cases Forest.read p t with
  | error fault => simp [Except.toOption]
  | ok found =>
    obtain ⟨f', ws'⟩ := found
    simp [Except.toOption]

end TemplLayout
