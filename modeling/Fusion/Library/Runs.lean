import Mathlib.Data.List.Basic
import Mathlib.Data.List.Induction

/-!
# Finite executions of a guarded transition function

An execution is a list of actions; each action either has one successor state or is not enabled.
Concurrency and failures of the outside world are choices of the action.  A property of an
execution is a property of each of its transitions, which may look at the actions taken before.
-/

namespace Runs

/-- Execute the actions in order, failing at the first one that is not enabled. -/
def run {σ α : Type*} (step : σ → α → Option σ) : σ → List α → Option σ
  | state, [] => some state
  | state, action :: actions => (step state action).bind fun next => run step next actions

variable {α σ : Type*}

theorem run_append (step : σ → α → Option σ) (state : σ) (left right : List α) :
    run step state (left ++ right) =
      (run step state left).bind fun middle => run step middle right := by
  induction left generalizing state with
  | nil => rfl
  | cons action left ih =>
    simp only [List.cons_append, run]
    cases step state action with
    | none => rfl
    | some next => exact ih next

variable {initial : σ} {step : σ → α → Option σ} {action : α}

/-- The last action of an execution acts on the state reached before it. -/
theorem run_concat_eq_some {after : σ} {front : List α} :
    run step initial (front ++ [action]) = some after ↔
      ∃ before, run step initial front = some before ∧ step before action = some after := by
  rw [run_append]
  cases run step initial front with
  | none => simp
  | some before => simp [run]

/-- A step that does to the images of states what another one does to the states has the images of
its executions. -/
theorem run_map {τ : Type*} {image_step : τ → α → Option τ} {image : σ → τ}
    (agree : ∀ state action, image_step (image state) action = (step state action).map image)
    (state : σ) (actions : List α) :
    run image_step (image state) actions = (run step state actions).map image := by
  induction actions generalizing state with
  | nil => rfl
  | cons action actions ih =>
    rw [run, run, agree]
    cases step state action with
    | none => rfl
    | some next => exact ih next

/-- The states that some execution reaches. -/
def Reachable {σ α : Type*} (step : σ → α → Option σ) (initial state : σ) : Prop :=
  ∃ actions, run step initial actions = some state

theorem Reachable.next {σ α : Type*} {step : σ → α → Option σ} {initial before after : σ}
    {action : α} (reachable : Reachable step initial before)
    (step_eq : step before action = some after) : Reachable step initial after := by
  obtain ⟨actions, execution⟩ := reachable
  exact ⟨actions ++ [action], run_concat_eq_some.mpr ⟨before, execution, step_eq⟩⟩

/-- A property kept by every enabled action holds of every reachable state. -/
theorem Reachable.invariant {σ α : Type*} {step : σ → α → Option σ} {initial : σ}
    {property : σ → Prop} (start : property initial)
    (keep : ∀ before action after, property before → step before action = some after →
      property after)
    {state : σ} (reachable : Reachable step initial state) : property state := by
  obtain ⟨actions, execution⟩ := reachable
  induction actions using List.reverseRecOn generalizing state with
  | nil =>
    obtain rfl := Option.some.inj execution
    exact start
  | append_singleton front action ih =>
    obtain ⟨before, earlier, step_eq⟩ := run_concat_eq_some.mp execution
    exact keep before action state (ih earlier) step_eq

/-- The property holds of every transition of the execution, given the actions before it. -/
def EveryStep {σ α : Type*} (step : σ → α → Option σ) (initial : σ)
    (property : List α → σ → α → σ → Prop) (actions : List α) : Prop :=
  ∀ front action back before after, actions = front ++ action :: back →
    run step initial front = some before → step before action = some after →
      property front before action after

variable {property : List α → σ → α → σ → Prop}

/-- Every transition of a shorter execution is one of the longer execution. -/
theorem EveryStep.of_append {left right : List α}
    (every : EveryStep step initial property (left ++ right)) :
    EveryStep step initial property left := by
  rintro front action back before after rfl execution step_eq
  exact every front action (back ++ right) before after (by simp) execution step_eq

theorem everyStep_nil (step : σ → α → Option σ) (initial : σ)
    (property : List α → σ → α → σ → Prop) : EveryStep step initial property [] := by
  intro front action back before after split
  simp at split

variable {actions : List α}

/-- The transitions of an execution are its first one and those of the rest. -/
theorem everyStep_cons {next : σ} (first : step initial action = some next)
    (holds : property [] initial action next)
    (rest : EveryStep step next (fun front => property (action :: front)) actions) :
    EveryStep step initial property (action :: actions) := by
  intro front last back before after split execution step_eq
  cases front with
  | nil =>
    obtain ⟨rfl, rfl⟩ := List.cons.inj split
    obtain rfl := Option.some.inj execution
    obtain rfl := Option.some.inj (first.symm.trans step_eq)
    exact holds
  | cons head front =>
    obtain ⟨rfl, rest_split⟩ := List.cons.inj split
    simp only [run, first, Option.bind_some] at execution
    exact rest front last back before after rest_split execution step_eq

/-- The transitions of an execution are those before its last action and the last one. -/
theorem everyStep_concat {σ α : Type*} {step : σ → α → Option σ} {initial : σ} {front : List α}
    {last : α} {property : List α → σ → α → σ → Prop}
    (every : EveryStep step initial property front)
    (holds : ∀ before after, run step initial front = some before →
      step before last = some after → property front before last after) :
    EveryStep step initial property (front ++ [last]) := by
  intro earlier action back before after split execution step_eq
  rcases List.eq_nil_or_concat back with rfl | ⟨back, final, rfl⟩
  · obtain ⟨rfl, same⟩ := List.append_inj' split rfl
    obtain rfl := List.head_eq_of_cons_eq same
    exact holds before after execution step_eq
  · have shorter : front = earlier ++ action :: back := by
      rw [List.concat_eq_append, ← List.cons_append, ← List.append_assoc] at split
      exact (List.append_inj' split rfl).1
    exact every earlier action back before after shorter execution step_eq

/-- A property of states kept by the transitions of one execution holds where it ends. -/
theorem EveryStep.invariant {σ α : Type*} {step : σ → α → Option σ} {initial : σ}
    {property : List α → σ → α → σ → Prop} {inv : List α → σ → Prop} (start : inv [] initial)
    (keep : ∀ front before action after, inv front before → step before action = some after →
      property front before action after → inv (front ++ [action]) after)
    {actions : List α} (every : EveryStep step initial property actions)
    {final : σ} (execution : run step initial actions = some final) : inv actions final := by
  induction actions using List.reverseRecOn generalizing final with
  | nil =>
    obtain rfl := Option.some.inj execution
    exact start
  | append_singleton front action ih =>
    obtain ⟨before, earlier, step_eq⟩ := run_concat_eq_some.mp execution
    exact keep front before action final (ih every.of_append earlier) step_eq
      (every front action [] before final rfl earlier step_eq)

/-- If each transition gives the property exactly where it was and a condition holds, it holds at
the end exactly when every transition had its condition. -/
theorem holds_iff_everyStep {σ α : Type*} {step : σ → α → Option σ} {initial final : σ}
    {property inv : σ → Prop} {condition : σ → α → Prop} {actions : List α}
    (holds : property initial) (start : inv initial)
    (keep : ∀ before action after, inv before → step before action = some after → inv after)
    (exact_step : ∀ before action after, inv before → step before action = some after →
      (property after ↔ property before ∧ condition before action))
    (execution : run step initial actions = some final) :
    property final ↔
      EveryStep step initial (fun _ before action _ => condition before action) actions := by
  induction actions using List.reverseRecOn generalizing final with
  | nil =>
    obtain rfl := Option.some.inj execution
    exact ⟨fun _ => everyStep_nil _ _ _, fun _ => holds⟩
  | append_singleton front action ih =>
    obtain ⟨before, earlier, step_eq⟩ := run_concat_eq_some.mp execution
    have inv_before : inv before := Reachable.invariant start keep ⟨front, earlier⟩
    rw [exact_step before action final inv_before step_eq, ih earlier]
    constructor
    · rintro ⟨every, here⟩
      exact everyStep_concat every fun middle _ again _ =>
        Option.some.inj (earlier.symm.trans again) ▸ here
    · intro every
      exact ⟨every.of_append, every front action [] before final rfl earlier step_eq⟩

/-- Under an invariant that the right side keeps, two properties that agree on each transition
agree on each execution. -/
theorem everyStep_iff {σ α : Type*} {step : σ → α → Option σ} {initial : σ}
    {left right : List α → σ → α → σ → Prop} {inv : List α → σ → Prop} (start : inv [] initial)
    (exact_step : ∀ front before action after, inv front before →
      step before action = some after →
        (left front before action after ↔ right front before action after))
    (keep : ∀ front before action after, inv front before → step before action = some after →
      right front before action after → inv (front ++ [action]) after)
    (actions : List α) :
    EveryStep step initial left actions ↔ EveryStep step initial right actions := by
  constructor
  · rintro every front action back before after rfl execution step_eq
    have reached : inv front before := by
      refine EveryStep.invariant start ?_ every.of_append execution
      intro front before action after earlier step_eq holds
      exact keep front before action after earlier step_eq
        ((exact_step front before action after earlier step_eq).mp holds)
    exact (exact_step front before action after reached step_eq).mp
      (every front action back before after rfl execution step_eq)
  · rintro every front action back before after rfl execution step_eq
    have reached : inv front before := every.of_append.invariant start keep execution
    exact (exact_step front before action after reached step_eq).mpr
      (every front action back before after rfl execution step_eq)

/-- The property holds of every state of the execution, given the actions that led to it. -/
def EveryState {σ α : Type*} (step : σ → α → Option σ) (initial : σ)
    (property : List α → σ → Prop) (actions : List α) : Prop :=
  ∀ front back state, actions = front ++ back → run step initial front = some state →
    property front state

/-- A property of states is the property of the initial state and of every transition's end. -/
theorem everyState_iff_everyStep {property : List α → σ → Prop} (start : property [] initial)
    (actions : List α) :
    EveryState step initial property actions ↔
      EveryStep step initial (fun front _ action after => property (front ++ [action]) after)
        actions := by
  constructor
  · rintro every front action back before after rfl execution step_eq
    exact every (front ++ [action]) back after (by simp)
      (run_concat_eq_some.mpr ⟨before, execution, step_eq⟩)
  · rintro every front back state rfl execution
    exact every.of_append.invariant start (fun _ _ _ _ _ _ holds => holds) execution

/-- Every action of the execution is allowed where it is taken, and all but the last are enabled. -/
def EveryAction {σ α : Type*} (step : σ → α → Option σ) (initial : σ) (allowed : σ → α → Prop)
    (actions : List α) : Prop :=
  ∀ front action, front ++ [action] <+: actions →
    ∃ before, run step initial front = some before ∧ allowed before action

/-- An execution is possible exactly when each of its nonempty beginnings is. -/
theorem exists_run_iff :
    (∃ state, run step initial actions = some state) ↔
      ∀ front, front ≠ [] → front <+: actions → ∃ state, run step initial front = some state := by
  constructor
  · rintro ⟨state, execution⟩ front - ⟨back, rfl⟩
    rw [run_append] at execution
    obtain ⟨middle, earlier, -⟩ := Option.bind_eq_some_iff.mp execution
    exact ⟨middle, earlier⟩
  · intro every
    cases actions with
    | nil => exact ⟨initial, rfl⟩
    | cons action actions => exact every _ (List.cons_ne_nil _ _) (List.prefix_refl _)

/-- If each action of the execution can be taken and keeps the invariant, every beginning of the
execution is possible and has it. -/
theorem reaches_beginning {σ α : Type*} {step : σ → α → Option σ} {initial : σ}
    {inv : List α → σ → Prop} {actions : List α} (start : inv [] initial)
    (next : ∀ front before action, front ++ [action] <+: actions →
      run step initial front = some before → inv front before →
        ∃ after, step before action = some after ∧ inv (front ++ [action]) after)
    {front : List α} (inside : front <+: actions) :
    ∃ state, run step initial front = some state ∧ inv front state := by
  induction front using List.reverseRecOn with
  | nil => exact ⟨initial, rfl, start⟩
  | append_singleton front action ih =>
    obtain ⟨before, earlier, inv_before⟩ := ih ((List.prefix_append _ _).trans inside)
    obtain ⟨after, step_eq, inv_after⟩ := next front before action inside earlier inv_before
    exact ⟨after, run_concat_eq_some.mpr ⟨before, earlier, step_eq⟩, inv_after⟩

/-- If an action is allowed exactly when it is enabled and establishes the property, then every
nonempty beginning of the execution is possible and has the property exactly when every action is
allowed. -/
theorem everyAction_iff {σ α : Type*} {step : σ → α → Option σ} {initial : σ}
    {property inv : List α → σ → Prop} {allowed : σ → α → Prop} {actions : List α}
    (start : inv [] initial)
    (exact_action : ∀ front before action, front ++ [action] <+: actions → inv front before →
      ((∃ after, step before action = some after ∧ property (front ++ [action]) after) ↔
        allowed before action))
    (keep : ∀ front before action after, inv front before → step before action = some after →
      property (front ++ [action]) after → inv (front ++ [action]) after) :
    (∀ front, front ≠ [] → front <+: actions →
        ∃ state, run step initial front = some state ∧ property front state) ↔
      EveryAction step initial allowed actions := by
  constructor
  · intro every
    have taken : ∀ front before action, front ++ [action] <+: actions →
        run step initial front = some before →
          ∃ after, step before action = some after ∧ property (front ++ [action]) after := by
      intro front before action inside earlier
      obtain ⟨after, execution, holds⟩ := every _ (by simp) inside
      obtain ⟨middle, again, step_eq⟩ := run_concat_eq_some.mp execution
      obtain rfl := Option.some.inj (earlier.symm.trans again)
      exact ⟨after, step_eq, holds⟩
    intro front action inside
    have reached : ∃ before, run step initial front = some before ∧ inv front before := by
      refine reaches_beginning start ?_ ((List.prefix_append _ _).trans inside)
      intro front before action inside earlier inv_before
      obtain ⟨after, step_eq, holds⟩ := taken front before action inside earlier
      exact ⟨after, step_eq, keep front before action after inv_before step_eq holds⟩
    obtain ⟨before, earlier, inv_before⟩ := reached
    exact ⟨before, earlier, (exact_action front before action inside inv_before).mp
      (taken front before action inside earlier)⟩
  · intro every front nonempty inside
    have reached : ∃ state, run step initial front = some state ∧
        inv front state ∧ (front ≠ [] → property front state) := by
      refine @reaches_beginning _ _ _ _
        (fun front state => inv front state ∧ (front ≠ [] → property front state)) _
        ⟨start, fun nonempty => absurd rfl nonempty⟩ ?_ front inside
      rintro front before action inside earlier ⟨inv_before, -⟩
      obtain ⟨middle, again, allowed_here⟩ := every front action inside
      obtain rfl := Option.some.inj (earlier.symm.trans again)
      obtain ⟨after, step_eq, holds⟩ :=
        (exact_action front before action inside inv_before).mpr allowed_here
      exact ⟨after, step_eq, keep front before action after inv_before step_eq holds,
        fun _ => holds⟩
    obtain ⟨state, execution, -, holds⟩ := reached
    exact ⟨state, execution, holds nonempty⟩

end Runs
