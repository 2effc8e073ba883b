import Mathlib.Data.List.ReduceOption
import TemplLayout.Markup.Layout

/-!
# TemplLayout.Proofs.Markup.Stretches

Cutting a list at every `none`.

* `stretches_append_none` — a `none` parts the stretches in front of it from those behind it.
* `flatten_stretches`     — the stretches together are all that there is besides `none`.
* `SameCut xs ys`         — `xs` and `ys` are cut alike, whatever stands in front of them.
-/

namespace TemplLayout

variable {α : Type}

@[simp] theorem stretches_none (xs : List (Option α)) :
    stretches (none :: xs) = stretches xs := rfl

/-- The last item before a cut is a stretch of its own; any other item lengthens the first stretch of
what follows it. -/
@[elab_as_elim]
theorem stretches_induction {motive : List (Option α) → List (List α) → Prop} (nil : motive [] [])
    (none : ∀ xs lines, motive xs lines → motive (none :: xs) lines)
    (cut : ∀ a xs lines, (∀ x ∈ xs.head?, x = .none) → motive xs lines →
      motive (some a :: xs) ([a] :: lines))
    (longer : ∀ a b xs line lines, motive (some b :: xs) (line :: lines) →
      motive (some a :: some b :: xs) ((a :: line) :: lines))
    (xs : List (Option α)) : motive xs (stretches xs) := by
  induction xs with
  | nil => exact nil
  | cons x xs ih =>
    cases x with
    | none => exact none xs _ ih
    | some a =>
      cases xs with
      | nil => exact cut a [] [] (by simp) nil
      | cons x xs =>
        cases x with
        | none => exact cut a (.none :: xs) _ (by simp) ih
        | some b =>
          have hne : stretches (some b :: xs) ≠ [] := by
            rcases xs with _ | ⟨_ | c, xs⟩
            · simp [stretches]
            · simp [stretches]
            · rw [stretches]
              split <;> simp
          obtain ⟨line, lines, h⟩ := List.exists_cons_of_ne_nil hne
          rw [h] at ih
          rw [stretches, h]
          exact longer a b xs line lines ih

/-- Without a `none` there is one stretch. -/
theorem stretches_map_some {xs : List α} (h : xs ≠ []) : stretches (xs.map some) = [xs] := by
  induction xs with
  | nil => exact absurd rfl h
  | cons a xs ih =>
    cases xs with
    | nil => rfl
    | cons b xs =>
      have hline := ih (List.cons_ne_nil b xs)
      rw [List.map_cons] at hline
      rw [List.map_cons, List.map_cons, stretches, hline]

theorem stretches_append_none (xs ys : List (Option α)) :
    stretches (xs ++ none :: ys) = stretches xs ++ stretches ys := by
  induction xs using stretches_induction with
  | nil => rfl
  | none xs lines ih => exact ih
  | cut a xs lines hcut ih =>
    cases xs with
    | nil => exact congrArg ([a] :: ·) ih
    | cons x xs =>
      rw [hcut x rfl] at ih ⊢
      exact congrArg ([a] :: ·) ih
  | longer a b xs line lines ih =>
    rw [List.cons_append] at ih
    rw [List.cons_append, List.cons_append, stretches, ih]
    rfl

/-- Lines with a `none` in front of each of them and at the end. -/
theorem stretches_flatMap {lines : List (List α)} (h : ∀ line ∈ lines, line ≠ []) :
    stretches (lines.flatMap (fun line => none :: line.map some) ++ [none]) = lines := by
  induction lines with
  | nil => rfl
  | cons line lines ih =>
    rw [List.forall_mem_cons] at h
    have hrest := ih h.2
    -- What follows the first line begins with a cut, whether another line follows or none.
    obtain ⟨xs, hxs⟩ : ∃ xs : List (Option α),
        lines.flatMap (fun line => none :: line.map some) ++ [none] = none :: xs := by
      cases lines with
      | nil => exact ⟨[], rfl⟩
      | cons line lines => exact ⟨_, rfl⟩
    rw [hxs, stretches_none] at hrest
    rw [List.flatMap_cons, List.append_assoc, hxs, List.cons_append, stretches_none,
      stretches_append_none, stretches_map_some h.1, hrest, List.singleton_append]

theorem flatten_stretches (xs : List (Option α)) : (stretches xs).flatten = xs.reduceOption := by
  induction xs using stretches_induction with
  | nil => rfl
  | none xs lines ih => exact ih
  | cut a xs lines hcut ih =>
    rw [List.reduceOption_cons_of_some, ← ih]
    rfl
  | longer a b xs line lines ih =>
    rw [List.reduceOption_cons_of_some, ← ih]
    rfl

theorem ne_nil_of_mem_stretches (xs : List (Option α)) : ∀ st ∈ stretches xs, st ≠ [] := by
  induction xs using stretches_induction with
  | nil => simp
  | none xs lines ih => exact ih
  | cut a xs lines hcut ih => exact List.forall_mem_cons.2 ⟨List.cons_ne_nil a [], ih⟩
  | longer a b xs line lines ih =>
    exact List.forall_mem_cons.2 ⟨List.cons_ne_nil a line, (List.forall_mem_cons.1 ih).2⟩

/-- Whatever stands in front, `xs` and `ys` are cut alike. -/
def SameCut (xs ys : List (Option α)) : Prop :=
  ∀ zs, stretches (zs ++ xs) = stretches (zs ++ ys)

namespace SameCut

variable {xs ys zs : List (Option α)}

theorem refl (xs : List (Option α)) : SameCut xs xs := fun _ => rfl

theorem symm (h : SameCut xs ys) : SameCut ys xs := fun ws => (h ws).symm

theorem trans (h : SameCut xs ys) (h' : SameCut ys zs) : SameCut xs zs :=
  fun ws => (h ws).trans (h' ws)

theorem stretches_eq (h : SameCut xs ys) : stretches xs = stretches ys := h []

theorem append (ws : List (Option α)) (h : SameCut xs ys) : SameCut (ws ++ xs) (ws ++ ys) := by
  intro vs
  rw [← List.append_assoc, ← List.append_assoc]
  exact h (vs ++ ws)

/-- One `none` more at a cut makes no difference. -/
theorem none_none (xs : List (Option α)) : SameCut (none :: none :: xs) (none :: xs) := by
  intro ws
  rw [stretches_append_none, stretches_append_none, stretches_none]

end SameCut

end TemplLayout
