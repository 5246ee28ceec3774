import Fusion.Library.Runs

/-!
# One polling thread and its notifiers

A poller is shared by one thread, which enters a blocking call, sees it return and leaves again,
and by any number of notifiers.  Each of these is one step.  A notification is not lost when the
thread never blocks on a pipe that the notification should have left readable.
-/

namespace Polling

/-- The operations on a shared poller of type `σ`.  A blocking call has arguments in `κ` and an
outcome in `ω`, and `φ` tells how the thread fares afterwards. -/
structure Poller (σ κ ω φ : Type*) where
  /-- Bytes that make the blocking call return. -/
  unread : σ → Nat
  notify : σ → σ
  /-- Prepare the blocking call, or refuse it. -/
  enter : σ → Option (σ × κ)
  /-- The outcomes that the blocking call may have. -/
  reports : σ → κ → ω → Bool
  leave : σ → κ → ω → φ → σ

/-- Where the polling thread is. -/
inductive Phase (κ ω : Type*)
  | idle
  | blocked (call : κ)
  | returned (call : κ) (outcome : ω)

/-- A shared poller, its thread, and whether a notification was completed since the thread last
left. -/
structure State (σ κ ω : Type*) where
  service : σ
  phase : Phase κ ω := .idle
  notified : Bool := false

/-- Steps of the notifiers and of the thread. -/
inductive Action (ω φ : Type*)
  | notify
  | enter
  | wake (outcome : ω)
  | leave (fortune : φ)

/-- A thread in its blocking call finds a byte for the notifications since it last left. -/
def State.Awake {σ κ ω φ : Type*} (poller : Poller σ κ ω φ) (state : State σ κ ω) : Prop :=
  ∀ call, state.phase = .blocked call → state.notified = true → 0 < poller.unread state.service

/-- Take one step.  A refused blocking call leaves at once. -/
def step {σ κ ω φ : Type*} (poller : Poller σ κ ω φ) (state : State σ κ ω) :
    Action ω φ → Option (State σ κ ω)
  | .notify => some { state with service := poller.notify state.service, notified := true }
  | .enter =>
    match state.phase with
    | .idle =>
      match poller.enter state.service with
      | some (service, call) => some { state with service, phase := .blocked call }
      | none => some { state with notified := false }
    | _ => none
  | .wake outcome =>
    match state.phase with
    | .blocked call =>
      if poller.reports state.service call outcome then
        some { state with phase := .returned call outcome }
      else none
    | _ => none
  | .leave fortune =>
    match state.phase with
    | .returned call outcome =>
      some { service := poller.leave state.service call outcome fortune }
    | _ => none

/-- What each step does, where it is possible. -/
inductive Step {σ κ ω φ : Type*} (poller : Poller σ κ ω φ) (before : State σ κ ω) :
    Action ω φ → State σ κ ω → Prop
  | notify : Step poller before .notify
      { before with service := poller.notify before.service, notified := true }
  | enter {service : σ} {call : κ} (idle : before.phase = .idle)
      (entered : poller.enter before.service = some (service, call)) :
      Step poller before .enter { before with service, phase := .blocked call }
  | refuse (idle : before.phase = .idle) (refused : poller.enter before.service = none) :
      Step poller before .enter { before with notified := false }
  | wake {call : κ} {outcome : ω} (blocked : before.phase = .blocked call)
      (reported : poller.reports before.service call outcome = true) :
      Step poller before (.wake outcome) { before with phase := .returned call outcome }
  | leave {call : κ} {outcome : ω} (fortune : φ)
      (returned : before.phase = .returned call outcome) :
      Step poller before (.leave fortune)
        { service := poller.leave before.service call outcome fortune }

variable {κ σ φ ω : Type*} {action : Action ω φ} {after before : State σ κ ω}
  {poller : Poller σ κ ω φ}

theorem step_of_step_eq (step_eq : step poller before action = some after) :
    Step poller before action after := by
  obtain ⟨service, phase, notified⟩ := before
  cases action with
  | notify =>
    obtain rfl := Option.some.inj step_eq
    exact .notify
  | enter =>
    cases phase with
    | idle =>
      cases entered : poller.enter service with
      | none =>
        simp only [step, entered, Option.some.injEq] at step_eq
        subst step_eq
        exact .refuse rfl entered
      | some next =>
        simp only [step, entered, Option.some.injEq] at step_eq
        subst step_eq
        exact .enter rfl entered
    | blocked call => cases step_eq
    | returned call outcome => cases step_eq
  | wake outcome =>
    cases phase with
    | idle => cases step_eq
    | blocked call =>
      simp only [step] at step_eq
      split at step_eq
      · rename_i reported
        obtain rfl := Option.some.inj step_eq
        exact .wake rfl reported
      · cases step_eq
    | returned call outcome => cases step_eq
  | leave fortune =>
    cases phase with
    | idle => cases step_eq
    | blocked call => cases step_eq
    | returned call outcome =>
      obtain rfl := Option.some.inj step_eq
      exact .leave fortune rfl

/-- The step leaves the thread blocking only where it finds a byte. -/
def Action.Keeps {σ κ ω φ : Type*} (poller : Poller σ κ ω φ) (before : State σ κ ω) :
    Action ω φ → Prop
  | .notify => ∀ call, before.phase = .blocked call →
      0 < poller.unread (poller.notify before.service)
  | .enter => ∀ service call, poller.enter before.service = some (service, call) →
      before.notified = true → 0 < poller.unread service
  | .wake _ => True
  | .leave _ => True

theorem awake_iff_keeps (taken : Step poller before action after) :
    after.Awake poller ↔ action.Keeps poller before := by
  cases taken with
  | notify =>
    exact ⟨fun awake call blocked => awake call blocked rfl,
      fun keeps call blocked _ => keeps call blocked⟩
  | @enter service call idle entered =>
    constructor
    · intro awake other otherCall found before_notified
      obtain ⟨rfl, rfl⟩ := Prod.mk.inj (Option.some.inj (entered.symm.trans found))
      exact awake call rfl before_notified
    · intro keeps _ _ before_notified
      exact keeps service call entered before_notified
  | refuse idle refused =>
    refine iff_of_true ?_ ?_
    · intro call blocked
      cases idle.symm.trans blocked
    · intro service call found
      cases refused.symm.trans found
  | wake blocked reported => exact iff_of_true nofun trivial
  | leave fortune returned => exact iff_of_true nofun trivial

/-- The thread of a run is awake in every state exactly when every step keeps it so. -/
theorem everyState_awake_iff (poller : Poller σ κ ω φ) (service : σ) (actions : List (Action ω φ)) :
    Runs.EveryState (step poller) { service } (fun _ state => state.Awake poller) actions ↔
      Runs.EveryStep (step poller) { service }
        (fun _ before action _ => action.Keeps poller before) actions := by
  have start : State.Awake poller { service } := nofun
  rw [Runs.everyState_iff_everyStep start]
  refine @Runs.everyStep_iff _ _ _ _ _ _ (fun _ _ => True) trivial ?_ ?_ actions
  · intro _ before action after _ step_eq
    exact awake_iff_keeps (step_of_step_eq step_eq)
  · intros
    trivial

end Polling
