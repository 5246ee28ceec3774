import Fusion.Socket.SelectInterest

/-!
# Shutdown of the select service

The calls of all threads on one select service are interleaved at their locked sections.  `Stop`
clears the tables in its first section and then waits on `m_cond` until no `Execute` is between its
two sections.  No section of the service notifies `m_cond`, and `Add` does not test whether the
service was shut down.
-/

namespace Fusion

open SelectSocketService

/-- A select service with the calls that are between two of their locked sections. -/
structure SelectSystem where
  service : SelectSocketService := {}
  /-- The arguments of each call of `select` in progress. -/
  polls : List SelectCall := []
  stopping : StopPhase := .returned
  /-- Notifications of `m_cond` that its waiter has not consumed; no section adds one. -/
  signals : Nat := 0

namespace SelectSystem

/-- The next locked section of some thread. -/
inductive Action
  | start (created : Result (Socket × Socket))
  | perform (call : Call)
  | notify
  /-- `Execute` up to its call of `select`. -/
  | enter
  /-- One of the calls of `select` has returned and its `Execute` takes the lock again. -/
  | leave (index : Nat) (outcome : SelectOutcome) (fault : Option (Nat × Failure))
  | stop
  /-- The waiting `Stop` wakes up. -/
  | resume
  | callback

/-- Run one locked section.  `spurious` tells whether a wait may end without a notification. -/
def step (spurious : Bool) (system : SelectSystem) : Action → Option SelectSystem
  | .start created => some { system with service := (system.service.start created).1 }
  | .perform call => some { system with service := (call.perform system.service).1 }
  | .notify => some { system with service := system.service.notifyPoller }
  | .enter =>
    match executeBegin system.service with
    | (service, .ok call) => some { system with service, polls := system.polls ++ [call] }
    | (service, .error _) => some { system with service }
  | .leave index outcome fault =>
    system.polls[index]?.map fun call =>
      { system with
        service := (executeEnd system.service call.notify outcome fault).1
        polls := system.polls.eraseIdx index }
  | .stop =>
    -- a second caller returns at once, whatever the first one is doing
    some
      { system with
        service := system.service.stop.1
        stopping :=
          if system.service.stop.2 = .returned then system.stopping
          else system.service.stop.2 }
  | .resume =>
    if system.stopping = .waiting ∧ (spurious ∨ 0 < system.signals) then
      some
        { system with
          service := (stopResume system.service).1
          stopping := (stopResume system.service).2
          signals := system.signals - 1 }
    else none
  | .callback =>
    if system.stopping = .calling then some { system with stopping := .returned } else none

end SelectSystem

/-! ## What one section changes -/

variable {service : SelectSocketService}

namespace SelectSocketService

theorem notifyLocked_eq (service : SelectSocketService) :
    ∃ pipe notify, notifyLocked service = { service with pipe, notify } := by
  unfold notifyLocked
  split
  · exact ⟨_, service.notify, rfl⟩
  · exact ⟨service.pipe, _, rfl⟩

/-- A call that names a socket changes the table, and otherwise only notifies. -/
theorem perform_eq (service : SelectSocketService) (call : Call) :
    ∃ events pipe notify, (call.perform service).1 = { service with events, pipe, notify } := by
  have unchanged : ∃ events pipe notify, service = { service with events, pipe, notify } :=
    ⟨service.events, service.pipe, service.notify, rfl⟩
  have edited : ∀ table, ∃ events pipe notify,
      notifyLocked { service with events := table } = { service with events, pipe, notify } := by
    intro table
    obtain ⟨pipe, notify, notified⟩ := notifyLocked_eq { service with events := table }
    exact ⟨table, pipe, notify, notified⟩
  cases call with
  | add sock events =>
    simp only [Call.perform, add]
    split
    · exact unchanged
    · split
      · exact unchanged
      · split
        · exact edited _
        · exact edited _
  | remove sock events =>
    simp only [Call.perform, remove]
    split
    · exact unchanged
    · split
      · exact unchanged
      · split
        · exact edited _
        · exact unchanged
  | close sock =>
    simp only [Call.perform, close]
    split
    · exact unchanged
    · split
      · exact edited _
      · exact unchanged

theorem start_eq (service : SelectSocketService) (created : Result (Socket × Socket)) :
    ∃ pipe started, (service.start created).1 = { service with pipe, started } := by
  unfold start
  split
  · exact ⟨service.pipe, service.started, rfl⟩
  · rename_i fresh
    have running : service.shutdown = false := by
      cases shutdown : service.shutdown with
      | false => rfl
      | true => simp [shutdown] at fresh
    split
    · rename_i pipe _
      refine ⟨pipe, true, ?_⟩
      rw [running]
    · rename_i pipe _ _
      exact ⟨pipe, service.started, rfl⟩

/-- The second section of `Execute` ends the poll; after a shutdown it changes no result. -/
theorem executeEnd_eq (service : SelectSocketService) (socket : Socket) (outcome : SelectOutcome)
    (fault : Option (Nat × Failure)) :
    ∃ pipe results,
      (executeEnd service socket outcome fault).1 =
          { service with polling := false, notify := false, pipe, results } ∧
        (service.shutdown = true → results = service.results) := by
  simp only [executeEnd]
  split
  · exact ⟨service.pipe, service.results, rfl, fun _ => rfl⟩
  · rename_i running
    split
    · exact ⟨service.pipe, service.results, rfl, fun _ => rfl⟩
    · exact ⟨service.pipe, service.results, rfl, fun _ => rfl⟩
    · split
      · exact ⟨_, service.results, rfl, fun _ => rfl⟩
      · exact ⟨_, _, rfl, fun shutdown => absurd shutdown running⟩

theorem executeBegin_eq (running : service.shutdown = false) :
    ∃ call, executeBegin service = ({ service with polling := true }, .ok call) := by
  rw [executeBegin, if_neg (by simp [running])]
  exact ⟨_, rfl⟩

theorem stopResume_eq (service : SelectSocketService) :
    ∃ pipe, service.stopResume =
      ({ service with pipe }, if service.polling then .waiting else .calling) := by
  unfold stopResume
  split
  · exact ⟨service.pipe, rfl⟩
  · exact ⟨service.pipe.stop, rfl⟩

/-- The first `Stop` clears the tables, and waits exactly if a poll is in progress. -/
theorem stop_eq (running : service.shutdown = false) :
    ∃ pipe notify, service.stop =
      ({ service with shutdown := true, events := [], results := [], pipe, notify },
        if service.polling then .waiting else .calling) := by
  rw [stop, if_neg (by simp [running])]
  obtain ⟨sent, notify, notified⟩ :=
    notifyLocked_eq { service with shutdown := true, events := [], results := [] }
  rw [notified]
  obtain ⟨pipe, resumed⟩ := stopResume_eq
    { service with shutdown := true, events := [], results := [], pipe := sent, notify }
  exact ⟨pipe, notify, resumed⟩

end SelectSocketService

namespace SelectSystem

/-- The effect of each section, where it is possible. -/
inductive Step (spurious : Bool) (before : SelectSystem) : Action → SelectSystem → Prop
  | start (created : Result (Socket × Socket)) (pipe : SocketPair) (started : Bool) :
      Step spurious before (.start created)
        { before with service := { before.service with pipe, started } }
  | perform (call : Call) (pipe : SocketPair) (notify : Bool) :
      Step spurious before (.perform call)
        { before with
          service :=
            { before.service with
              events := (call.perform before.service).1.events, pipe, notify } }
  | notify (pipe : SocketPair) (notify : Bool) :
      Step spurious before .notify { before with service := { before.service with pipe, notify } }
  | enter (running : before.service.shutdown = false) (call : SelectCall)
      (prepared :
        executeBegin before.service = ({ before.service with polling := true }, .ok call)) :
      Step spurious before .enter
        { before with
          service := { before.service with polling := true }, polls := before.polls ++ [call] }
  | refused (shutdown : before.service.shutdown = true) : Step spurious before .enter before
  | leave (index : Nat) (outcome : SelectOutcome) (fault : Option (Nat × Failure))
      (pipe : SocketPair) (results : List SocketEvent)
      (kept : before.service.shutdown = true → results = before.service.results) :
      Step spurious before (.leave index outcome fault)
        { before with
          service := { before.service with polling := false, notify := false, pipe, results }
          polls := before.polls.eraseIdx index }
  | stop (running : before.service.shutdown = false) (pipe : SocketPair) (notify : Bool) :
      Step spurious before .stop
        { before with
          service :=
            { before.service with shutdown := true, events := [], results := [], pipe, notify }
          stopping := if before.service.polling then .waiting else .calling }
  | stopped (shutdown : before.service.shutdown = true) : Step spurious before .stop before
  | resume (waiting : before.stopping = .waiting) (woken : spurious = true ∨ 0 < before.signals)
      (pipe : SocketPair) :
      Step spurious before .resume
        { before with
          service := { before.service with pipe }
          stopping := if before.service.polling then .waiting else .calling
          signals := before.signals - 1 }
  | callback (calling : before.stopping = .calling) :
      Step spurious before .callback { before with stopping := .returned }

variable {action : Action} {after before : SelectSystem} {spurious : Bool}

/-- Every section that runs has one of the listed effects. -/
theorem step_cases (step_eq : step spurious before action = some after) :
    Step spurious before action after := by
  cases action with
  | start created =>
    obtain ⟨pipe, started, started_eq⟩ := start_eq before.service created
    simp only [step, started_eq, Option.some.injEq] at step_eq
    subst step_eq
    exact .start created pipe started
  | perform call =>
    obtain ⟨events, pipe, notify, performed⟩ := perform_eq before.service call
    obtain rfl : (call.perform before.service).1.events = events := by rw [performed]
    simp only [step, Option.some.injEq] at step_eq
    rw [performed] at step_eq
    subst step_eq
    exact .perform call pipe notify
  | notify =>
    obtain ⟨pipe, notify, notified⟩ := notifyLocked_eq before.service
    simp only [step, notifyPoller, notified, Option.some.injEq] at step_eq
    subst step_eq
    exact .notify pipe notify
  | enter =>
    cases shutdown : before.service.shutdown with
    | true =>
      simp only [step, executeBegin, shutdown, if_true, Option.some.injEq] at step_eq
      subst step_eq
      exact .refused shutdown
    | false =>
      obtain ⟨call, prepared⟩ := executeBegin_eq shutdown
      simp only [step, prepared, Option.some.injEq] at step_eq
      subst step_eq
      exact .enter shutdown call prepared
  | leave index outcome fault =>
    simp only [step, Option.map_eq_some_iff] at step_eq
    obtain ⟨call, _, after_eq⟩ := step_eq
    obtain ⟨pipe, results, ended, kept⟩ :=
      executeEnd_eq before.service call.notify outcome fault
    rw [ended] at after_eq
    subst after_eq
    exact .leave index outcome fault pipe results kept
  | stop =>
    cases shutdown : before.service.shutdown with
    | true =>
      simp only [step, SelectSocketService.stop, shutdown, if_true, Option.some.injEq] at step_eq
      subst step_eq
      exact .stopped shutdown
    | false =>
      obtain ⟨pipe, notify, stopped⟩ := SelectSocketService.stop_eq shutdown
      have not_returned :
          (if before.service.polling then StopPhase.waiting else .calling) ≠ .returned := by
        split <;> decide
      simp only [step, stopped, if_neg not_returned, Option.some.injEq] at step_eq
      subst step_eq
      exact .stop shutdown pipe notify
  | resume =>
    simp only [step, Option.ite_none_right_eq_some, Option.some.injEq] at step_eq
    obtain ⟨⟨waiting, woken⟩, after_eq⟩ := step_eq
    obtain ⟨pipe, resumed⟩ := stopResume_eq before.service
    rw [resumed] at after_eq
    subst after_eq
    exact .resume waiting woken pipe
  | callback =>
    simp only [step, Option.ite_none_right_eq_some, Option.some.injEq] at step_eq
    obtain ⟨calling, after_eq⟩ := step_eq
    subst after_eq
    exact .callback calling

/-! ## The wait of `Stop` -/

/-- The caller of `Stop` waits on `m_cond` although no poll is in progress. -/
def Stalled (system : SelectSystem) : Prop :=
  system.stopping = .waiting ∧ system.service.polling = false

/-- The caller of `Stop` is stalled and no notification of `m_cond` is left or still to come. -/
def Hung (system : SelectSystem) : Prop :=
  system.Stalled ∧
    ∀ later after, Runs.run (step false) system later = some after → after.signals = 0

/-- No `Execute` takes the lock again while a `Stop` waits. -/
def Unhurried (before : SelectSystem) : Action → Prop
  | .leave _ _ _ => before.stopping ≠ .waiting
  | _ => True

/-- No notification is left, and a waiting `Stop` has shut the service down. -/
structure Unnotified (system : SelectSystem) : Prop where
  signals : system.signals = 0
  shutdown : system.stopping = .waiting → system.service.shutdown = true

theorem Unnotified.step (unnotified : before.Unnotified)
    (step_eq : step false before action = some after) : after.Unnotified := by
  obtain ⟨signals, shutdown⟩ := unnotified
  cases step_cases step_eq with
  | start => exact ⟨signals, shutdown⟩
  | perform => exact ⟨signals, shutdown⟩
  | notify => exact ⟨signals, shutdown⟩
  | enter => exact ⟨signals, shutdown⟩
  | refused => exact ⟨signals, shutdown⟩
  | leave => exact ⟨signals, shutdown⟩
  | stop => exact ⟨signals, fun _ => rfl⟩
  | stopped => exact ⟨signals, shutdown⟩
  | resume waiting => exact ⟨by simp [signals], fun _ => shutdown waiting⟩
  | callback => exact ⟨signals, by simp⟩

/-- Without a notification the caller of `Stop` keeps waiting. -/
theorem Unnotified.waits (unnotified : before.Unnotified) (waiting : before.stopping = .waiting)
    (step_eq : SelectSystem.step false before action = some after) : after.stopping = .waiting := by
  cases step_cases step_eq with
  | start => exact waiting
  | perform => exact waiting
  | notify => exact waiting
  | enter => exact waiting
  | refused => exact waiting
  | leave => exact waiting
  | stop running =>
    have shutdown := unnotified.shutdown waiting
    rw [running] at shutdown
    cases shutdown
  | stopped => exact waiting
  | resume _ woken => simp [unnotified.signals] at woken
  | callback calling =>
    rw [waiting] at calling
    cases calling

variable {system : SelectSystem}

theorem unnotified_of_run {later : List Action} (unnotified : system.Unnotified)
    (execution : Runs.run (step false) system later = some after) : after.Unnotified := by
  refine @Runs.Reachable.invariant _ _ _ _ Unnotified unnotified ?_ _ ⟨later, execution⟩
  intro before action after unnotified step_eq
  exact unnotified.step step_eq

theorem Unnotified.hung_iff (unnotified : system.Unnotified) : system.Hung ↔ system.Stalled := by
  constructor
  · exact fun hung => hung.1
  · intro stalled
    exact ⟨stalled, fun later after execution => (unnotified_of_run unnotified execution).signals⟩

/-- The section that stalls a waiting `Stop` is the one that ends the poll. -/
theorem not_stalled_step_iff (unnotified : before.Unnotified) (awake : ¬ before.Stalled)
    (step_eq : step false before action = some after) :
    ¬ after.Stalled ↔ before.Unhurried action := by
  have same_of_eq (stopping : after.stopping = before.stopping)
      (polling : after.service.polling = before.service.polling) : ¬ after.Stalled := by
    unfold Stalled
    rw [stopping, polling]
    exact awake
  cases step_cases step_eq with
  | start => exact iff_of_true (same_of_eq rfl rfl) trivial
  | perform => exact iff_of_true (same_of_eq rfl rfl) trivial
  | notify => exact iff_of_true (same_of_eq rfl rfl) trivial
  | enter => exact iff_of_true (by simp [Stalled]) trivial
  | refused => exact iff_of_true awake trivial
  | leave => simp [Stalled, Unhurried]
  | stop =>
    refine iff_of_true ?_ trivial
    rintro ⟨waiting, polling⟩
    simp [show before.service.polling = false from polling] at waiting
  | stopped => exact iff_of_true awake trivial
  | resume _ woken => simp [unnotified.signals] at woken
  | callback => exact iff_of_true (by simp [Stalled]) trivial

/-- A caller of `Stop` hangs exactly when some `Execute` takes the lock again while it waits, and
then it waits for ever. -/
theorem not_hung_iff_unhurried (actions : List Action) :
    (Runs.EveryState (step false) {} (fun _ system => ¬ system.Hung) actions ↔
        Runs.EveryStep (step false) {} (fun _ before action _ => before.Unhurried action)
          actions) ∧
      ∀ system, Runs.Reachable (step false) {} system → system.Hung →
        ∀ later after, Runs.run (step false) system later = some after →
          after.stopping = .waiting := by
  have start : Unnotified {} := ⟨rfl, by simp⟩
  refine ⟨?_, ?_⟩
  · have initial : ¬ Hung {} := by
      rintro ⟨⟨waiting, _⟩, _⟩
      cases waiting
    rw [Runs.everyState_iff_everyStep initial]
    refine @Runs.everyStep_iff _ _ _ _ _ _
      (fun _ system => Unnotified system ∧ ¬ system.Stalled) ⟨start, by simp [Stalled]⟩ ?_ ?_
      actions
    · rintro front before action after ⟨unnotified, awake⟩ step_eq
      rw [(unnotified.step step_eq).hung_iff]
      exact not_stalled_step_iff unnotified awake step_eq
    · rintro front before action after ⟨unnotified, awake⟩ step_eq unhurried
      exact ⟨unnotified.step step_eq, (not_stalled_step_iff unnotified awake step_eq).mpr unhurried⟩
  · rintro system ⟨earlier, execution⟩ hung later after continued
    have unnotified := unnotified_of_run start execution
    have waiting : Unnotified after ∧ after.stopping = .waiting := by
      refine @Runs.Reachable.invariant _ _ _ _
        (fun system => Unnotified system ∧ system.stopping = .waiting)
        ⟨unnotified, hung.1.1⟩ ?_ _ ⟨later, continued⟩
      rintro before action after ⟨unnotified, waiting⟩ step_eq
      exact ⟨unnotified.step step_eq, unnotified.waits waiting step_eq⟩
    exact waiting.2

/-- `Stop` is called during a poll, and the poll then ends. -/
theorem hung_after_poll :
    ¬ Runs.EveryState (step false) {} (fun _ system => ¬ system.Hung)
      [.start (.ok (10, 11)), .enter, .stop, .leave 0 .timeout none] := by
  intro every
  refine every [.start (.ok (10, 11)), .enter, .stop, .leave 0 .timeout none] [] _ rfl rfl ?_
  exact (Unnotified.hung_iff ⟨rfl, fun _ => rfl⟩).mpr ⟨rfl, rfl⟩

/-! ## The tables after a shutdown -/

/-- The tables of a service that was shut down are empty. -/
def Final (service : SelectSocketService) : Prop :=
  service.shutdown = true → service.events = [] ∧ service.results = []

/-- `Add` is given no socket to record after the shutdown. -/
def Timely (before : SelectSystem) : Action → Prop
  | .perform (.add sock events) =>
    before.service.shutdown = true → sock = invalidSocket ∨ events = .none
  | _ => True

theorem events_remove_nil (empty : service.events = []) (sock : Socket) (events : SocketOperation) :
    (service.remove sock events).1.events = [] := by
  simp only [remove, empty, registered_nil]
  split
  · exact empty
  · split
    · exact empty
    · exact empty

theorem events_close_nil (empty : service.events = []) (sock : Socket) :
    (service.close sock).1.events = [] := by
  simp only [close, empty, registered_nil, Option.isSome_none, Bool.false_eq_true, if_false]
  split
  · exact empty
  · exact empty

theorem events_add_nil_iff (empty : service.events = []) (sock : Socket)
    (events : SocketOperation) :
    (service.add sock events).1.events = [] ↔ sock = invalidSocket ∨ events = .none := by
  simp only [add, empty, registered_nil]
  by_cases invalid : sock = invalidSocket
  · simp [invalid, empty]
  · by_cases none : events = .none
    · simp [invalid, none, empty]
    · simp [invalid, none]

/-- A section keeps the tables of a service that was shut down empty exactly when it is timely. -/
theorem final_step_iff (final : Final before.service)
    (step_eq : step spurious before action = some after) :
    Final after.service ↔ before.Timely action := by
  cases step_cases step_eq with
  | start => exact iff_of_true final trivial
  | perform call =>
    cases call with
    | add sock events =>
      constructor
      · intro emptied shutdown
        exact (events_add_nil_iff (final shutdown).1 sock events).mp (emptied shutdown).1
      · intro timely shutdown
        exact ⟨(events_add_nil_iff (final shutdown).1 sock events).mpr (timely shutdown),
          (final shutdown).2⟩
    | remove sock events =>
      refine iff_of_true ?_ trivial
      intro shutdown
      exact ⟨events_remove_nil (final shutdown).1 sock events, (final shutdown).2⟩
    | close sock =>
      refine iff_of_true ?_ trivial
      intro shutdown
      exact ⟨events_close_nil (final shutdown).1 sock, (final shutdown).2⟩
  | notify => exact iff_of_true final trivial
  | enter => exact iff_of_true final trivial
  | refused => exact iff_of_true final trivial
  | leave _ _ _ _ results kept =>
    refine iff_of_true ?_ trivial
    intro shutdown
    exact ⟨(final shutdown).1, (kept shutdown).trans (final shutdown).2⟩
  | stop => exact iff_of_true (fun _ => ⟨rfl, rfl⟩) trivial
  | stopped => exact iff_of_true final trivial
  | resume => exact iff_of_true final trivial
  | callback => exact iff_of_true final trivial

/-- The tables stay empty after a shutdown exactly when no `Add` records a socket after it.  Of a
service that was shut down the assertions on its tables say the same. -/
theorem final_iff_timely (spurious : Bool) (actions : List Action) :
    (Runs.EveryState (step spurious) {} (fun _ system => Final system.service) actions ↔
        Runs.EveryStep (step spurious) {} (fun _ before action _ => before.Timely action)
          actions) ∧
      ∀ service : SelectSocketService, service.shutdown = true →
        (Final service ↔
          service.executeAsserts = true ∧ service.callbackAsserts = true ∧
            (service.polling = false → service.destructorAsserts = true)) := by
  have start : Final {} := by
    intro shutdown
    cases shutdown
  refine ⟨?_, ?_⟩
  · rw [Runs.everyState_iff_everyStep start]
    refine @Runs.everyStep_iff _ _ _ _ _ _ (fun _ system => Final system.service) start ?_ ?_
      actions
    · intro front before action after final step_eq
      exact final_step_iff final step_eq
    · intro front before action after final step_eq timely
      exact (final_step_iff final step_eq).mpr timely
  · intro service shutdown
    simp only [Final, executeAsserts, callbackAsserts, destructorAsserts, shutdown]
    cases service.events <;> cases service.results <;> simp +contextual

/-- A socket that is added after the shutdown stays in the table. -/
theorem not_final_add_after_stop :
    ¬ Runs.EveryState (step false) {} (fun _ system => Final system.service)
      [.start (.ok (10, 11)), .stop, .callback, .perform (.add 3 .read)] := by
  intro every
  have final := every [.start (.ok (10, 11)), .stop, .callback, .perform (.add 3 .read)] [] _
    rfl rfl rfl
  cases final.1

end SelectSystem
end Fusion
