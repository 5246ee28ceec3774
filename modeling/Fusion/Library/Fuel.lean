import Mathlib.Data.Nat.Notation

/-!
# Computations with a bound on their steps

A recursion that need not end takes a bound on its steps and has no result where the bound is too
small.  Its result is the one that every large enough bound gives.
-/

namespace Fuel

variable {α β : Type*}

/-- Every bound from some point on gives this result. -/
def Yields (compute : Nat → Option α) (result : α) : Prop :=
  ∃ bound, ∀ steps, bound ≤ steps → compute steps = some result

variable {compute : Nat → Option α} {result : α} {other : Nat → Option α}

namespace Yields

theorem unique {first second : α} (one : Yields compute first) (other : Yields compute second) :
    first = second := by
  obtain ⟨bound, first_eq⟩ := one
  obtain ⟨bound', second_eq⟩ := other
  have first_at := first_eq (bound + bound') (Nat.le_add_right ..)
  have second_at := second_eq (bound + bound') (Nat.le_add_left ..)
  exact Option.some.inj (first_at.symm.trans second_at)

theorem exists_isSome (yields : Yields compute result) : ∃ steps, (compute steps).isSome := by
  obtain ⟨bound, result_eq⟩ := yields
  exact ⟨bound, by rw [result_eq bound (Nat.le_refl bound)]; rfl⟩

theorem map (yields : Yields compute result) (f : α → β) :
    Yields (fun steps => (compute steps).map f) (f result) := by
  obtain ⟨bound, result_eq⟩ := yields
  exact ⟨bound, fun steps enough => congrArg (Option.map f) (result_eq steps enough)⟩

/-- Computations that agree from some bound on have the same result. -/
theorem congr (bound : Nat) (agree : ∀ steps, bound ≤ steps → compute steps = other steps) :
    Yields compute result ↔ Yields other result := by
  constructor
  · rintro ⟨enough, result_eq⟩
    exact ⟨bound + enough, fun steps large =>
      (agree steps (by omega)).symm.trans (result_eq steps (by omega))⟩
  · rintro ⟨enough, result_eq⟩
    exact ⟨bound + enough, fun steps large =>
      (agree steps (by omega)).trans (result_eq steps (by omega))⟩

/-- One computation after another. -/
theorem bind_iff {middle : α} (first : Yields compute middle) (next : α → Nat → Option β)
    {result : β} :
    Yields (fun steps => (compute steps).bind fun value => next value steps) result ↔
      Yields (next middle) result := by
  obtain ⟨bound, middle_eq⟩ := first
  refine congr bound fun steps enough => ?_
  rw [middle_eq steps enough, Option.bind_some]

theorem bind {compute : Nat → Option α} {next : α → Nat → Option β} {middle : α} {result : β}
    (first : Yields compute middle) (second : Yields (next middle) result) :
    Yields (fun steps => (compute steps).bind fun value => next value steps) result :=
  (first.bind_iff next).mpr second

/-- A call that passes a bound smaller by one on to another computation. -/
theorem of_succ {call : Nat → Option α} (call_eq : ∀ steps, call (steps + 1) = compute steps)
    (yields : Yields compute result) : Yields call result := by
  obtain ⟨bound, result_eq⟩ := yields
  refine ⟨bound + 1, fun steps enough => ?_⟩
  obtain ⟨fewer, rfl⟩ : ∃ fewer, steps = fewer + 1 := ⟨steps - 1, by omega⟩
  rw [call_eq, result_eq fewer (by omega)]

end Yields

/-- Both computations have a result, and it is the same. -/
def Agree (compute other : Nat → Option α) : Prop :=
  ∃ result, Yields compute result ∧ Yields other result

theorem agree_iff (yields : Yields other result) : Agree compute other ↔ Yields compute result := by
  constructor
  · rintro ⟨value, left, right⟩
    exact right.unique yields ▸ left
  · exact fun left => ⟨result, left, yields⟩

end Fuel
