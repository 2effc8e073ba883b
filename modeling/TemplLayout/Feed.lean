/-!
# TemplLayout.Feed

Feeding a list to a machine that may refuse. A step gives the next state and, when it refuses its
input, why; the first refusal ends the feeding, and the state reached is kept.
-/

namespace TemplLayout

def feed {σ α ε : Type} (step : σ → α → σ × Option ε) (s : σ) : List α → σ × Option ε
  | [] => (s, none)
  | a :: as =>
    match step s a with
    | (s', none) => feed step s' as
    | (s', some e) => (s', some e)

section

variable {σ α ε : Type} {step : σ → α → σ × Option ε} {s s' : σ} {a : α}

theorem feed_cons (as : List α) (h : step s a = (s', none)) :
    feed step s (a :: as) = feed step s' as := by
  rw [feed, h]

/-- Nothing was refused, so the first input was not. -/
theorem exists_of_feed_cons {as : List α} (h : feed step s (a :: as) = (s', none)) :
    ∃ s₁, step s a = (s₁, none) ∧ feed step s₁ as = (s', none) := by
  rw [feed] at h
  split at h
  · exact ⟨_, by assumption, h⟩
  · cases h

/-- An input was refused, and the inputs before it were not. -/
theorem exists_of_feed_refused {as : List α} {e : ε} (h : feed step s as = (s', some e)) :
    ∃ before a after s₁, as = before ++ a :: after ∧ feed step s before = (s₁, none) ∧
      step s₁ a = (s', some e) := by
  induction as generalizing s with
  | nil => cases h
  | cons a as ih =>
    rcases hstep : step s a with ⟨s₁, _ | found⟩
    · rw [feed_cons as hstep] at h
      obtain ⟨before, x, after, s₂, rfl, hbefore, hx⟩ := ih h
      refine ⟨a :: before, x, after, s₂, rfl, ?_, hx⟩
      rw [feed_cons before hstep]
      exact hbefore
    · rw [feed, hstep] at h
      cases h
      exact ⟨[], a, as, s, rfl, rfl, hstep⟩

end

/-- Feeding goes on where it stopped, unless it was refused. -/
theorem feed_append {σ α ε : Type} (step : σ → α → σ × Option ε) (s : σ) (xs ys : List α) :
    feed step s (xs ++ ys) =
      match feed step s xs with
      | (s', none) => feed step s' ys
      | (s', some e) => (s', some e) := by
  induction xs generalizing s with
  | nil => rfl
  | cons x xs ih =>
    rw [List.cons_append, feed, feed]
    rcases step s x with ⟨s', _ | e⟩
    · exact ih s'
    · rfl

/-- Nothing was refused, so nothing was refused at first. -/
theorem exists_of_feed_append {σ α ε : Type} {step : σ → α → σ × Option ε} {s s' : σ}
    {xs ys : List α} (h : feed step s (xs ++ ys) = (s', none)) :
    ∃ s₁, feed step s xs = (s₁, none) ∧ feed step s₁ ys = (s', none) := by
  rw [feed_append] at h
  split at h
  · exact ⟨_, by assumption, h⟩
  · cases h

end TemplLayout
