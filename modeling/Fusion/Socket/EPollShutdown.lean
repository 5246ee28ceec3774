import Fusion.Socket.EPollRegistry

/-!
# Threads of the epoll service and its shutdown

The calls of all threads on one epoll service are interleaved at their locked sections.  `Start`
and `Execute` release the lock between two sections, and the other calls are one section each.
Every section of a service that was shut down leaves its tables empty.
-/

namespace Fusion

open EPollSocketService EPollSystem

/-- An epoll service with the calls that are between two of their locked sections. -/
structure EPollThreads where
  system : EPollSystem := {}
  /-- The number of `Start` calls that have yet to add the notification pipe. -/
  starts : Nat := 0
  /-- What each `epoll_wait` in progress has reported, once it has returned. -/
  polls : List (Option (Result (List (Socket × BitVec 32)))) := []

namespace EPollThreads

/-- The next locked section of some thread, or the return of an `epoll_wait`. -/
inductive Action
  /-- A call that no other one interrupts. -/
  | perform (call : Call)
  | startBegin (created : Result (Socket × Socket)) (poll : Socket) (lastFailure : Failure)
  | startEnd (outcome : Result Unit) (lastFailure : Failure)
  | notify
  /-- `Execute` up to its call of `epoll_wait`. -/
  | enter
  | report (index : Nat) (outcome : Result (List (Socket × BitVec 32)))
  /-- An `Execute` whose `epoll_wait` has returned takes the lock again. -/
  | leave (index : Nat) (fault : Option (Nat × Failure))

def step (threads : EPollThreads) : Action → Option EPollThreads
  | .perform call => some { threads with system := (threads.system.perform call).1 }
  | .startBegin created poll lastFailure =>
    match threads.system.startBegin created poll lastFailure with
    | (system, .ok ()) => some { threads with system, starts := threads.starts + 1 }
    | (system, .error _) => some { threads with system }
  | .startEnd outcome lastFailure =>
    if 0 < threads.starts then
      some
        { threads with
          system := (threads.system.startEnd outcome lastFailure).1
          starts := threads.starts - 1 }
    else none
  | .notify =>
    some { threads with
      system := { threads.system with service := threads.system.service.notifyPoller } }
  | .enter =>
    match threads.system.service.executeBegin with
    | (service, .ok ()) =>
      some { threads with
        system := { threads.system with service }, polls := threads.polls ++ [none] }
    | (service, .error _) => some { threads with system := { threads.system with service } }
  | .report index outcome =>
    if threads.polls[index]? = some none then
      some { threads with polls := threads.polls.set index (some outcome) }
    else none
  | .leave index fault =>
    match threads.polls[index]? with
    | some (some outcome) =>
      some { threads with
        system := { threads.system with
          service := (threads.system.service.executeEnd outcome fault).1 }
        polls := threads.polls.eraseIdx index }
    | _ => none

end EPollThreads

/-! ## What one section changes -/

namespace EPollSocketService

theorem notifyLocked_eq (service : EPollSocketService) :
    ∃ pipe, notifyLocked service = { service with pipe } := by
  unfold notifyLocked
  split
  · exact ⟨_, rfl⟩
  · exact ⟨service.pipe, rfl⟩

/-- The second section of `Execute` ends the poll; after a shutdown it changes no result. -/
theorem executeEnd_eq (service : EPollSocketService)
    (outcome : Result (List (Socket × BitVec 32))) (fault : Option (Nat × Failure)) :
    ∃ pipe results,
      (executeEnd service outcome fault).1 = { service with polling := false, pipe, results } ∧
        (service.shutdown = true → results = service.results) := by
  simp only [executeEnd]
  split
  · exact ⟨service.pipe, service.results, rfl, fun _ => rfl⟩
  · rename_i running
    split
    · exact ⟨service.pipe, service.results, rfl, fun _ => rfl⟩
    · exact ⟨service.pipe, service.results, rfl, fun _ => rfl⟩
    · split
      · exact ⟨_, _, rfl, fun shutdown => absurd shutdown running⟩
      · exact ⟨_, _, rfl, fun shutdown => absurd shutdown running⟩

end EPollSocketService

namespace EPollSystem

/-- The service after a section that edits only the map. -/
def Edits (before after : EPollSystem) : Prop :=
  ∃ events, after.service = { before.service with events }

variable (system : EPollSystem) (sock : Socket)

theorem edits_self : system.Edits system := ⟨system.service.events, rfl⟩

theorem add_edits (events : SocketOperation) (outcome : Result Unit) :
    system.Edits (system.add sock events outcome).1 := by
  unfold add
  split_ifs
  · exact system.edits_self
  · exact system.edits_self
  · exact system.edits_self
  · exact system.edits_self
  · split
    · exact ⟨_, rfl⟩
    · cases outcome with
      | ok _ => exact ⟨_, rfl⟩
      | error failure => exact system.edits_self

theorem close_edits (outcome : Result Unit) : system.Edits (system.close sock outcome).1 := by
  unfold close
  split_ifs
  · exact system.edits_self
  · exact system.edits_self
  · exact system.edits_self
  · split
    · cases outcome with
      | ok _ => exact ⟨_, rfl⟩
      | error failure => exact system.edits_self
    · exact system.edits_self

theorem remove_edits (events : SocketOperation) (outcome : Result Unit) :
    system.Edits (system.remove sock events outcome).1 := by
  unfold remove
  split_ifs
  · exact system.edits_self
  · exact system.edits_self
  · exact system.edits_self
  · exact system.edits_self
  · split
    · split_ifs
      · dsimp only
        split_ifs
        · exact ⟨_, rfl⟩
        · exact ⟨_, rfl⟩
      · exact system.edits_self
    · exact system.edits_self

theorem startEnd_eq_add (outcome : Result Unit) (lastFailure : Failure) :
    (system.startEnd outcome lastFailure).1 =
      (system.add system.service.pipe.reader (.read ||| .error) outcome).1 := by
  simp only [startEnd]
  split
  · rfl
  · rfl

theorem startBegin_eq (created : Result (Socket × Socket)) (poll : Socket) (lastFailure : Failure) :
    (∃ pipe opened started,
        (system.startBegin created poll lastFailure).1 =
          { system with service := { system.service with pipe, poll := opened, started } }) ∧
      (system.service.poll ≠ invalidSocket ∨ system.service.shutdown = true →
        (system.startBegin created poll lastFailure).1 = system) := by
  have unchanged : ∃ pipe opened started,
      system = { system with service := { system.service with pipe, poll := opened, started } } :=
    ⟨system.service.pipe, system.service.poll, system.service.started, rfl⟩
  unfold startBegin
  by_cases opened : system.service.poll ≠ invalidSocket
  · rw [if_pos opened]
    exact ⟨unchanged, fun _ => rfl⟩
  · rw [if_neg opened]
    by_cases ran : (system.service.started || system.service.shutdown) = true
    · rw [if_pos ran]
      exact ⟨unchanged, fun _ => rfl⟩
    · rw [if_neg ran]
      have running : system.service.shutdown = false := by
        cases shutdown : system.service.shutdown with
        | false => rfl
        | true => simp [shutdown] at ran
      refine ⟨?_, fun early => absurd early (by simp [opened, running])⟩
      rcases system.service.pipe.start created with ⟨pipe, failure | _⟩
      · exact ⟨pipe, system.service.poll, system.service.started, rfl⟩
      · dsimp only
        by_cases invalid : poll = invalidSocket
        · rw [if_pos invalid]
          exact ⟨pipe, poll, system.service.started, rfl⟩
        · rw [if_neg invalid]
          refine ⟨pipe, poll, true, ?_⟩
          rw [running]

end EPollSystem

namespace EPollThreads

variable {action : Action} {after before : EPollThreads}

/-- The effect of each section, where it is possible. -/
inductive Step (before : EPollThreads) : Action → EPollThreads → Prop
  | perform (call : Call) :
      Step before (.perform call) { before with system := (before.system.perform call).1 }
  | startBegin (created : Result (Socket × Socket)) (poll : Socket) (lastFailure : Failure)
      (starts : Nat) :
      Step before (.startBegin created poll lastFailure)
        { before with
          system := (before.system.startBegin created poll lastFailure).1, starts }
  | startEnd (outcome : Result Unit) (lastFailure : Failure) (starts : Nat) :
      Step before (.startEnd outcome lastFailure)
        { before with system := (before.system.startEnd outcome lastFailure).1, starts }
  | notify (pipe : SocketPair) :
      Step before .notify
        { before with
          system := { before.system with service := { before.system.service with pipe } } }
  | enter (running : before.system.service.shutdown = false) :
      Step before .enter
        { before with
          system :=
            { before.system with service := { before.system.service with polling := true } }
          polls := before.polls ++ [none] }
  | refused (shutdown : before.system.service.shutdown = true) : Step before .enter before
  | report (index : Nat) (outcome : Result (List (Socket × BitVec 32)))
      (waiting : before.polls[index]? = some none) :
      Step before (.report index outcome)
        { before with polls := before.polls.set index (some outcome) }
  | leave (index : Nat) (fault : Option (Nat × Failure))
      (outcome : Result (List (Socket × BitVec 32)))
      (returned : before.polls[index]? = some (some outcome)) (pipe : SocketPair)
      (results : List SocketEvent)
      (kept : before.system.service.shutdown = true → results = before.system.service.results) :
      Step before (.leave index fault)
        { before with
          system :=
            { before.system with
              service := { before.system.service with polling := false, pipe, results } }
          polls := before.polls.eraseIdx index }

/-- Every section that runs has one of the listed effects. -/
theorem step_cases (step_eq : step before action = some after) : Step before action after := by
  cases action with
  | perform call =>
    simp only [step, Option.some.injEq] at step_eq
    subst step_eq
    exact .perform call
  | startBegin created poll lastFailure =>
    simp only [step] at step_eq
    split at step_eq
    · rename_i system begun
      obtain rfl : (before.system.startBegin created poll lastFailure).1 = system := by
        rw [begun]
      obtain rfl := Option.some.inj step_eq
      exact .startBegin created poll lastFailure _
    · rename_i system failure begun
      obtain rfl : (before.system.startBegin created poll lastFailure).1 = system := by
        rw [begun]
      obtain rfl := Option.some.inj step_eq
      exact .startBegin created poll lastFailure before.starts
  | startEnd outcome lastFailure =>
    simp only [step, Option.ite_none_right_eq_some, Option.some.injEq] at step_eq
    obtain ⟨_, after_eq⟩ := step_eq
    subst after_eq
    exact .startEnd outcome lastFailure _
  | notify =>
    obtain ⟨pipe, notified⟩ := notifyLocked_eq before.system.service
    simp only [step, notifyPoller, notified, Option.some.injEq] at step_eq
    subst step_eq
    exact .notify pipe
  | enter =>
    cases shutdown : before.system.service.shutdown with
    | true =>
      simp only [step, executeBegin, shutdown, if_true, Option.some.injEq] at step_eq
      subst step_eq
      exact .refused shutdown
    | false =>
      have begun : before.system.service.executeBegin =
          ({ before.system.service with polling := true }, .ok ()) := by
        rw [executeBegin, if_neg (by simp [shutdown])]
      simp only [step, begun, Option.some.injEq] at step_eq
      subst step_eq
      exact .enter shutdown
  | report index outcome =>
    simp only [step, Option.ite_none_right_eq_some, Option.some.injEq] at step_eq
    obtain ⟨waiting, after_eq⟩ := step_eq
    subst after_eq
    exact .report index outcome waiting
  | leave index fault =>
    simp only [step] at step_eq
    split at step_eq
    · rename_i outcome returned
      obtain ⟨pipe, results, ended, kept⟩ := executeEnd_eq before.system.service outcome fault
      rw [ended, Option.some.injEq] at step_eq
      subst step_eq
      exact .leave index fault outcome returned pipe results kept
    · cases step_eq

end EPollThreads

/-! ## The tables after a shutdown -/

/-- The service was shut down and its tables are empty. -/
structure EPollSocketService.Ended (service : EPollSocketService) : Prop where
  shutdown : service.shutdown = true
  events : service.events = ∅
  results : service.results = []

namespace EPollSystem

theorem shutdown_of_edits {before after : EPollSystem} (edits : before.Edits after) :
    after.service.shutdown = before.service.shutdown := by
  obtain ⟨events, service_eq⟩ := edits
  rw [service_eq]

theorem shutdown_startBegin (system : EPollSystem) (created : Result (Socket × Socket))
    (poll : Socket) (lastFailure : Failure) :
    (system.startBegin created poll lastFailure).1.service.shutdown = system.service.shutdown := by
  obtain ⟨⟨pipe, opened, started, begun⟩, _⟩ :=
    system.startBegin_eq created poll lastFailure
  rw [begun]

theorem shutdown_startEnd (system : EPollSystem) (outcome : Result Unit) (lastFailure : Failure) :
    (system.startEnd outcome lastFailure).1.service.shutdown = system.service.shutdown := by
  rw [startEnd_eq_add]
  exact shutdown_of_edits (system.add_edits _ _ _)

theorem shutdown_start (system : EPollSystem) (created : Result (Socket × Socket))
    (poll : Socket) (outcome : Result Unit) (lastFailure : Failure) :
    (system.start created poll outcome lastFailure).1.service.shutdown =
      system.service.shutdown := by
  rw [start, ← system.shutdown_startBegin created poll lastFailure]
  split
  · rename_i opened begun
    rw [begun]
    exact opened.shutdown_startEnd outcome lastFailure
  · rename_i opened failure begun
    rw [begun]

theorem perform_of_shutdown {system : EPollSystem} (shutdown : system.service.shutdown = true)
    (call : Call) : (system.perform call).1 = system := by
  cases call with
  | start created poll outcome lastFailure =>
    simp only [perform, start, startBegin, shutdown, Bool.or_true, if_true]
    by_cases opened : system.service.poll ≠ invalidSocket
    · rw [if_pos opened]
    · rw [if_neg opened]
  | add sock events outcome => simp only [perform, add, if_pos shutdown]
  | remove sock events outcome => simp only [perform, remove, if_pos shutdown]
  | close sock outcome => simp only [perform, close, if_pos shutdown]
  | stop => simp only [perform, stop, if_pos shutdown]

theorem ended_perform {system : EPollSystem} (running : system.service.shutdown = false)
    {call : Call} (shutdown : (system.perform call).1.service.shutdown = true) :
    (system.perform call).1.service.Ended := by
  have refuted (kept : (system.perform call).1.service.shutdown = system.service.shutdown) :
      (system.perform call).1.service.Ended := by
    rw [kept, running] at shutdown
    cases shutdown
  cases call with
  | start created poll outcome lastFailure => exact refuted (system.shutdown_start ..)
  | add sock events outcome => exact refuted (shutdown_of_edits (system.add_edits ..))
  | remove sock events outcome => exact refuted (shutdown_of_edits (system.remove_edits ..))
  | close sock outcome => exact refuted (shutdown_of_edits (system.close_edits ..))
  | stop =>
    simp only [perform, stop, running, Bool.false_eq_true, if_false]
    exact ⟨rfl, rfl, rfl⟩

end EPollSystem

namespace EPollThreads

variable {action : Action} {after before : EPollThreads}

theorem ended_step (ended : before.system.service.Ended)
    (step_eq : step before action = some after) : after.system.service.Ended := by
  obtain ⟨shutdown, events, results⟩ := ended
  cases step_cases step_eq with
  | perform call =>
    rw [perform_of_shutdown shutdown call]
    exact ⟨shutdown, events, results⟩
  | startBegin created poll lastFailure starts =>
    rw [(before.system.startBegin_eq created poll lastFailure).2 (.inr shutdown)]
    exact ⟨shutdown, events, results⟩
  | startEnd outcome lastFailure starts =>
    have added := perform_of_shutdown shutdown
      (.add before.system.service.pipe.reader (.read ||| .error) outcome)
    rw [startEnd_eq_add, show (before.system.add _ _ _).1 = _ from added]
    exact ⟨shutdown, events, results⟩
  | notify => exact ⟨shutdown, events, results⟩
  | enter => exact ⟨shutdown, events, results⟩
  | refused => exact ⟨shutdown, events, results⟩
  | report => exact ⟨shutdown, events, results⟩
  | leave _ _ _ _ pipe after_results kept =>
    exact ⟨shutdown, events, (kept shutdown).trans results⟩

theorem ended_of_running (running : before.system.service.shutdown = false)
    (step_eq : step before action = some after) (shutdown : after.system.service.shutdown = true) :
    after.system.service.Ended := by
  have refuted (kept : after.system.service.shutdown = before.system.service.shutdown) :
      after.system.service.Ended := by
    rw [kept, running] at shutdown
    cases shutdown
  cases step_cases step_eq with
  | perform call => exact ended_perform running shutdown
  | startBegin => exact refuted (before.system.shutdown_startBegin ..)
  | startEnd => exact refuted (before.system.shutdown_startEnd ..)
  | notify => exact refuted rfl
  | enter => exact refuted rfl
  | refused => exact refuted rfl
  | report => exact refuted rfl
  | leave => exact refuted rfl

/-- Once the service is shut down its tables are empty and stay so in every continuation, where
every call on a socket and every new `Execute` fails. -/
theorem shutdown_is_final {threads : EPollThreads} (reachable : Runs.Reachable step {} threads)
    (shutdown : threads.system.service.shutdown = true) :
    threads.system.service.events = ∅ ∧ threads.system.service.results = [] ∧
      ∀ later after, Runs.run step threads later = some after →
        after.system.service.shutdown = true ∧
          after.system.service.events = threads.system.service.events ∧
          after.system.service.results = threads.system.service.results ∧
          (∀ sock events outcome, Failed (after.system.add sock events outcome).2) ∧
          (∀ sock events outcome, Failed (after.system.remove sock events outcome).2) ∧
          (∀ sock outcome, Failed (after.system.close sock outcome).2) ∧
          Failed after.system.service.executeBegin.2 := by
  have ended : threads.system.service.Ended := by
    refine @Runs.Reachable.invariant _ _ _ _
      (fun threads => threads.system.service.shutdown = true → threads.system.service.Ended)
      (fun shutdown => by cases shutdown) ?_ _ reachable shutdown
    intro before action after earlier step_eq shutdown
    cases stopped : before.system.service.shutdown with
    | true => exact ended_step (earlier stopped) step_eq
    | false => exact ended_of_running stopped step_eq shutdown
  refine ⟨ended.events, ended.results, ?_⟩
  intro later after execution
  have still : after.system.service.Ended := by
    refine @Runs.Reachable.invariant _ _ _ _ (fun threads => threads.system.service.Ended) ended
      ?_ _ ⟨later, execution⟩
    intro before action after ended step_eq
    exact ended_step ended step_eq
  refine ⟨still.shutdown, still.events.trans ended.events.symm,
    still.results.trans ended.results.symm, ?_, ?_, ?_, ?_⟩
  · intro sock events outcome
    unfold add
    rw [if_pos still.shutdown]
    trivial
  · intro sock events outcome
    unfold remove
    rw [if_pos still.shutdown]
    trivial
  · intro sock outcome
    unfold close
    rw [if_pos still.shutdown]
    trivial
  · rw [executeBegin, if_pos still.shutdown]
    trivial

/-- `Stop` runs while a `Start` has yet to add the pipe and an `Execute` has yet to read what its
`epoll_wait` reported; both go on afterwards. -/
theorem shutdown_is_final_interrupted :
    ∃ threads,
      Runs.run step {}
          [.startBegin (.ok (3, 4)) 6 {}, .perform (.add 5 .read (.ok ())), .enter,
            .report 0 (.ok [(5, epollIn)]), .perform .stop, .startEnd (.ok ()) {},
            .leave 0 none] = some threads ∧
        threads.system.service.events = ∅ ∧ threads.system.service.results = [] := by
  refine ⟨_, rfl, ?_⟩
  have final := shutdown_is_final
    ⟨[.startBegin (.ok (3, 4)) 6 {}, .perform (.add 5 .read (.ok ())), .enter,
      .report 0 (.ok [(5, epollIn)]), .perform .stop, .startEnd (.ok ()) {}, .leave 0 none],
      rfl⟩ rfl
  exact ⟨final.1, final.2.1⟩

end EPollThreads
end Fusion
