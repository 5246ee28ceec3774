import Fusion.Library.Polling
import Fusion.Socket.Select
import Fusion.Socket.EPoll

/-!
# Waking the polling thread of a socket service

Both services are pollers: `Execute` enters and leaves in two locked sections around its system
call, and `Notify` is a third section that any thread may run in between.  The select service
forgets a notification that finds no poll in progress, and the epoll service sends nothing at all.
-/

namespace Fusion

open Polling

namespace SelectSocketService

/-- `Notify` and `Execute` of the select service. -/
def poller : Poller SelectSocketService SelectCall SelectOutcome (Option (Nat × Failure)) where
  unread service := service.pipe.unread
  notify := notifyPoller
  enter service :=
    match executeBegin service with
    | (service, .ok call) => some (service, call)
    | (_, .error _) => none
  reports service call
    | .failed _ => true
    | .timeout => service.pipe.unread == 0
    | .ready reads _ _ => decide (call.notify ∈ reads) == decide (0 < service.pipe.unread)
  leave service call outcome fault := (executeEnd service call.notify outcome fault).1

theorem notify_foldl_watch (events : List SocketEvent) (call : SelectCall) :
    (events.foldl SelectCall.watch call).notify = call.notify := by
  induction events generalizing call with
  | nil => rfl
  | cons event events ih => exact ih _

variable {call : SelectCall}

theorem enter_eq_some {before after : SelectSocketService}
    (entered : poller.enter before = some (after, call)) :
    after = { before with polling := true } ∧ call.notify = before.pipe.reader := by
  cases shutdown : before.shutdown with
  | true => simp [poller, executeBegin, shutdown] at entered
  | false =>
    simp only [poller, executeBegin, shutdown, Bool.false_eq_true, if_false, Option.some.injEq,
      Prod.mk.injEq] at entered
    obtain ⟨after_eq, rfl⟩ := entered
    exact ⟨after_eq.symm, notify_foldl_watch ..⟩

variable {service : SelectSocketService}

theorem enter_isSome (running : service.shutdown = false) :
    ∃ call, poller.enter service = some ({ service with polling := true }, call) := by
  simp [poller, executeBegin, running]

/-- The steps of the notifiers and of the polling thread. -/
abbrev Act := Action SelectOutcome (Option (Nat × Failure))

/-- Whether `Execute` has entered and not left, told by the calls alone. -/
def inPoll (front : List Act) : Bool :=
  front.foldl (fun polling action => match action with
    | .enter => true
    | .leave _ => false
    | _ => polling) false

/-- What `select` has reported last. -/
def lastReport (front : List Act) : Option SelectOutcome :=
  front.foldl (fun report action => match action with
    | .wake outcome => some outcome
    | _ => report) none

/-- The sockets that are reported readable. -/
def SelectOutcome.readable : SelectOutcome → Finset Socket
  | .ready reads _ _ => reads
  | _ => ∅

/-- The last call of `select` has found the notification socket readable. -/
def Reported (reader : Socket) (front : List Act) : Prop :=
  ∃ outcome, lastReport front = some outcome ∧ reader ∈ outcome.readable

/-- A notification was made during a poll, and no `Execute` that was told of the notification socket
has returned since. -/
inductive Undrained (reader : Socket) : List Act → Prop
  | sent {front : List Act} (polling : inPoll front = true) : Undrained reader (front ++ [.notify])
  | later {front : List Act} {action : Act} (earlier : Undrained reader front)
      (kept : ∀ fault, action = .leave fault → ¬Reported reader front) :
      Undrained reader (front ++ [action])

/-- If there was a notification since the previous `Execute` returned, the next one enters its poll
only where one that was made during a poll is still to be read. -/
def Heeds (reader : Socket) (front : List Act)
    (before : State SelectSocketService SelectCall SelectOutcome) : Act → Prop
  | .enter => before.notified = true → Undrained reader front
  | _ => True

theorem undrained_nil (reader : Socket) : ¬Undrained reader [] := by
  intro undrained
  generalize front_eq : ([] : List Act) = front at undrained
  cases undrained with
  | sent polling => simp at front_eq
  | later earlier kept => simp at front_eq

variable {action : Act}

theorem undrained_concat {reader : Socket} {front : List Act} :
    Undrained reader (front ++ [action]) ↔
      (action = .notify ∧ inPoll front = true) ∨
        Undrained reader front ∧ ∀ fault, action = .leave fault → ¬Reported reader front := by
  constructor
  · intro undrained
    generalize front_eq : front ++ [action] = whole at undrained
    cases undrained with
    | sent polling =>
      obtain ⟨rfl, last_eq⟩ := List.append_inj' front_eq rfl
      exact .inl ⟨List.singleton_inj.mp last_eq, polling⟩
    | later earlier kept =>
      obtain ⟨rfl, last_eq⟩ := List.append_inj' front_eq rfl
      obtain rfl := List.singleton_inj.mp last_eq
      exact .inr ⟨earlier, kept⟩
  · rintro (⟨rfl, polling⟩ | ⟨earlier, kept⟩)
    · exact .sent polling
    · exact .later earlier kept

/-- Where the thread is, and what `select` watches and has reported, as the calls tell it. -/
def Located (reader : Socket) (front : List Act) : Phase SelectCall SelectOutcome → Prop
  | .idle => inPoll front = false
  | .blocked call => inPoll front = true ∧ call.notify = reader
  | .returned call outcome =>
    inPoll front = true ∧ call.notify = reader ∧ lastReport front = some outcome

/-- A started service as the calls tell it: there is something to read exactly where a notification
is not drained. -/
structure Follows (reader : Socket) (front : List Act)
    (state : State SelectSocketService SelectCall SelectOutcome) : Prop where
  running : state.service.shutdown = false
  reader_eq : state.service.pipe.reader = reader
  polling_eq : state.service.polling = inPoll front
  located : Located reader front state.phase
  unread_iff : 0 < state.service.pipe.unread ↔ Undrained reader front

section Steps

variable {reader : Socket} {front : List Act}
  {before after : State SelectSocketService SelectCall SelectOutcome}

theorem Follows.notify (follows : Follows reader front before) :
    Follows reader (front ++ [.notify])
      { before with service := notifyPoller before.service, notified := true } := by
  have inPoll_eq : inPoll (front ++ [.notify]) = inPoll front := List.foldl_concat ..
  have report_eq : lastReport (front ++ [.notify]) = lastReport front := List.foldl_concat ..
  have located : Located reader (front ++ [.notify]) before.phase := by
    have located := follows.located
    cases phase_eq : before.phase <;> rw [phase_eq] at located <;>
      simpa only [Located, inPoll_eq, report_eq] using located
  have kept : (notifyPoller before.service).shutdown = before.service.shutdown ∧
      (notifyPoller before.service).pipe.reader = before.service.pipe.reader ∧
      (notifyPoller before.service).polling = before.service.polling := by
    unfold notifyPoller notifyLocked
    split <;> exact ⟨rfl, rfl, rfl⟩
  refine ⟨kept.1.trans follows.running, kept.2.1.trans follows.reader_eq,
    kept.2.2.trans (follows.polling_eq.trans inPoll_eq.symm), located, ?_⟩
  rw [undrained_concat, ← follows.polling_eq]
  cases polling : before.service.polling with
  | true =>
    refine iff_of_true ?_ (.inl ⟨rfl, rfl⟩)
    simp [notifyPoller, notifyLocked, polling, SocketPair.send]
  | false => simpa [notifyPoller, notifyLocked, polling] using follows.unread_iff

theorem Follows.enter (follows : Follows reader front before) {service : SelectSocketService}
    {call : SelectCall} (entered : poller.enter before.service = some (service, call)) :
    Follows reader (front ++ [.enter]) { before with service, phase := .blocked call } := by
  have inPoll_eq : inPoll (front ++ [.enter]) = true := List.foldl_concat ..
  obtain ⟨rfl, notify_eq⟩ := enter_eq_some entered
  refine ⟨follows.running, follows.reader_eq, inPoll_eq.symm,
    ⟨inPoll_eq, notify_eq.trans follows.reader_eq⟩, ?_⟩
  rw [undrained_concat]
  simpa using follows.unread_iff

theorem Follows.wake (follows : Follows reader front before) {outcome : SelectOutcome}
    (blocked : before.phase = .blocked call) :
    Follows reader (front ++ [.wake outcome])
      { before with phase := .returned call outcome } := by
  have inPoll_eq : inPoll (front ++ [.wake outcome]) = inPoll front := List.foldl_concat ..
  have report_eq : lastReport (front ++ [.wake outcome]) = some outcome := List.foldl_concat ..
  obtain ⟨polling, notify_eq⟩ : inPoll front = true ∧ call.notify = reader := by
    have located := follows.located
    rwa [blocked] at located
  refine ⟨follows.running, follows.reader_eq, follows.polling_eq.trans inPoll_eq.symm,
    ⟨inPoll_eq.trans polling, notify_eq, report_eq⟩, ?_⟩
  rw [undrained_concat]
  simpa using follows.unread_iff

/-- `Execute` reads everything if it was told of the notification socket, and nothing otherwise. -/
theorem executeEnd_running (running : service.shutdown = false)
    (valid : service.pipe.reader ≠ invalidSocket) (notify : Socket) (outcome : SelectOutcome) :
    let after := (executeEnd service notify outcome none).1
    after.shutdown = false ∧ after.pipe.reader = service.pipe.reader ∧ after.polling = false ∧
      after.pipe.unread = if notify ∈ outcome.readable then 0 else service.pipe.unread := by
  cases outcome with
  | failed failure => simp [executeEnd, running, SelectOutcome.readable]
  | timeout => simp [executeEnd, running, SelectOutcome.readable]
  | ready reads writes errors =>
    by_cases told : notify ∈ reads
    · simp [executeEnd, running, SelectOutcome.readable, told, SocketPair.drain, valid]
    · simp [executeEnd, running, SelectOutcome.readable, told]

theorem Follows.leave (follows : Follows reader front before) (valid : reader ≠ invalidSocket)
    {call : SelectCall} {outcome : SelectOutcome}
    (returned : before.phase = .returned call outcome) :
    Follows reader (front ++ [.leave none])
      { service := poller.leave before.service call outcome none } := by
  have inPoll_eq : inPoll (front ++ [.leave none]) = false := List.foldl_concat ..
  obtain ⟨-, notify_eq, report_eq⟩ : inPoll front = true ∧ call.notify = reader ∧
      lastReport front = some outcome := by
    have located := follows.located
    rwa [returned] at located
  obtain ⟨running, reader_eq, polling, unread_eq⟩ := executeEnd_running follows.running
    (follows.reader_eq ▸ valid) call.notify outcome
  refine ⟨running, reader_eq.trans follows.reader_eq, polling.trans inPoll_eq.symm, inPoll_eq, ?_⟩
  have reported_iff : Reported reader front ↔ call.notify ∈ outcome.readable := by
    rw [notify_eq]
    constructor
    · rintro ⟨other, other_eq, told⟩
      exact Option.some.inj (report_eq.symm.trans other_eq) ▸ told
    · exact fun told => ⟨outcome, report_eq, told⟩
  have undrained_iff : Undrained reader (front ++ [.leave none]) ↔
      Undrained reader front ∧ call.notify ∉ outcome.readable := by
    simp [undrained_concat, reported_iff]
  change 0 < (executeEnd before.service call.notify outcome none).1.pipe.unread ↔ _
  rw [unread_eq, undrained_iff, ← follows.unread_iff]
  split
  · rename_i told
    simp [told]
  · rename_i untold
    simp [untold]

theorem Follows.step (follows : Follows reader front before) (valid : reader ≠ invalidSocket)
    (taken : Step poller before action after) (whole : ∀ fault, action ≠ .leave (some fault)) :
    Follows reader (front ++ [action]) after := by
  cases taken with
  | notify => exact follows.notify
  | enter idle entered => exact follows.enter entered
  | refuse idle refused =>
    obtain ⟨call, entered⟩ := enter_isSome follows.running
    cases refused.symm.trans entered
  | wake blocked reported => exact follows.wake blocked
  | leave fault returned =>
    cases fault with
    | none => exact follows.leave valid returned
    | some fault => exact absurd rfl (whole fault)

theorem Follows.keeps_iff_heeds (follows : Follows reader front before) (action : Act) :
    action.Keeps poller before ↔ Heeds reader front before action := by
  cases action with
  | notify =>
    refine iff_of_true (fun call blocked => ?_) trivial
    have located := follows.located
    rw [blocked] at located
    have polling := follows.polling_eq.trans located.1
    simp [poller, notifyPoller, notifyLocked, polling, SocketPair.send]
  | enter =>
    constructor
    · intro keeps notified
      obtain ⟨call, entered⟩ := enter_isSome follows.running
      have unread_pos := keeps _ call entered notified
      exact follows.unread_iff.mp unread_pos
    · intro heeds service call entered notified
      obtain ⟨rfl, -⟩ := enter_eq_some entered
      exact follows.unread_iff.mpr (heeds notified)
  | wake outcome => exact Iff.rfl
  | leave fault => exact Iff.rfl

end Steps

/-- A service that was started and has not polled. -/
structure Fresh (service : SelectSocketService) : Prop where
  running : service.shutdown = false
  valid : service.pipe.reader ≠ invalidSocket
  idle : service.polling = false
  empty : service.pipe.unread = 0

theorem follows_of_run (fresh : service.Fresh) {actions : List Act}
    (whole : ∀ fault, .leave (some fault) ∉ actions)
    {state : State SelectSocketService SelectCall SelectOutcome}
    (execution : Runs.run (step poller) { service } actions = some state) :
    Follows service.pipe.reader actions state := by
  have every : Runs.EveryStep (step poller) { service }
      (fun _ _ action _ => ∀ fault, action ≠ .leave (some fault)) actions := by
    rintro front action back before after rfl - - fault rfl
    exact whole fault (List.mem_append_right _ List.mem_cons_self)
  refine Runs.EveryStep.invariant ?_ ?_ every execution
  · refine ⟨fresh.running, rfl, fresh.idle, rfl, iff_of_false ?_ (undrained_nil _)⟩
    exact Nat.not_lt.mpr (Nat.le_of_eq fresh.empty)
  · intro front before action after follows step_eq unfaulted
    exact follows.step fresh.valid (step_of_step_eq step_eq) unfaulted

end SelectSocketService

namespace EPollSocketService

/-- `Notify` and `Execute` of the epoll service. -/
def poller :
    Poller EPollSocketService Unit (Result (List (Socket × BitVec 32)))
      (Option (Nat × Failure)) where
  unread service := service.pipe.unread
  notify := notifyPoller
  enter service :=
    match executeBegin service with
    | (service, .ok ()) => some (service, ())
    | (_, .error _) => none
  reports service _
    | .error _ => true
    | .ok reported =>
      decide (service.pipe.reader ∈ reported.map Prod.fst) == decide (0 < service.pipe.unread)
  leave service _ outcome fault := (executeEnd service outcome fault).1

theorem unread_notify (service : EPollSocketService) :
    (notifyPoller service).pipe.unread = service.pipe.unread := by
  unfold notifyPoller notifyLocked
  split
  · rfl
  · rfl

theorem enter_eq_some {before after : EPollSocketService} {call : Unit}
    (entered : poller.enter before = some (after, call)) :
    before.shutdown = false ∧ after = { before with polling := true } := by
  cases shutdown : before.shutdown with
  | true => simp [poller, executeBegin, shutdown] at entered
  | false =>
    simp only [poller, executeBegin, shutdown, Bool.false_eq_true, if_false, Option.some.injEq,
      Prod.mk.injEq] at entered
    exact ⟨rfl, entered.1.symm⟩

theorem enter_isSome {service : EPollSocketService} (running : service.shutdown = false) :
    poller.enter service = some ({ service with polling := true }, ()) := by
  simp [poller, executeBegin, running]

theorem unread_drain_le (pipe : SocketPair) (fault : Option (Nat × Failure)) :
    (pipe.drain fault).1.unread ≤ pipe.unread := by
  unfold SocketPair.drain
  split
  · exact le_rfl
  · cases fault with
    | none => exact Nat.zero_le _
    | some fault => exact Nat.sub_le ..

theorem unread_collect_le (notify : Socket) (fault : Option (Nat × Failure))
    (reported : List (Socket × BitVec 32)) (pipe : SocketPair) (results : List SocketEvent) :
    (collect notify fault reported pipe results).1.unread ≤ pipe.unread := by
  induction reported generalizing pipe results with
  | nil => exact le_rfl
  | cons event reported ih =>
    obtain ⟨sock, events⟩ := event
    simp only [collect]
    split_ifs
    · have drained := unread_drain_le pipe fault
      cases outcome : pipe.drain fault with
      | mk rest result =>
        rw [outcome] at drained
        cases result with
        | ok _ => exact (ih rest results).trans drained
        | error failure => exact drained
    · exact ih pipe _
    · exact ih pipe results

theorem unread_executeEnd_le (service : EPollSocketService)
    (outcome : Result (List (Socket × BitVec 32))) (fault : Option (Nat × Failure)) :
    (executeEnd service outcome fault).1.pipe.unread ≤ service.pipe.unread := by
  simp only [executeEnd]
  split_ifs
  · exact le_rfl
  cases outcome with
  | error failure => exact le_rfl
  | ok reported =>
    cases reported with
    | nil => exact le_rfl
    | cons event reported =>
      have collected := unread_collect_le service.pipe.reader fault (event :: reported)
        service.pipe []
      dsimp only
      generalize collect service.pipe.reader fault (event :: reported) service.pipe [] = ended
        at collected ⊢
      obtain ⟨pipe, results, result⟩ := ended
      cases result with
      | ok _ => exact collected
      | error failure => exact collected

variable {before : State EPollSocketService Unit (Result (List (Socket × BitVec 32)))}

theorem unread_step {after : State EPollSocketService Unit (Result (List (Socket × BitVec 32)))}
    {action : Action (Result (List (Socket × BitVec 32))) (Option (Nat × Failure))}
    (empty : before.service.pipe.unread = 0) (taken : Step poller before action after) :
    after.service.pipe.unread = 0 := by
  cases taken with
  | notify => exact (unread_notify before.service).trans empty
  | enter idle entered =>
    obtain ⟨_, rfl⟩ := enter_eq_some entered
    exact empty
  | refuse idle refused => exact empty
  | wake blocked reported => exact empty
  | @leave call outcome fault returned =>
    have unread_le := unread_executeEnd_le before.service outcome fault
    rw [empty] at unread_le
    exact Nat.le_zero.mp unread_le

/-- No notification is made between the end of one `Execute` and the poll of the next, nor while
it polls. -/
def Undisturbed (before : State EPollSocketService Unit (Result (List (Socket × BitVec 32)))) :
    Action (Result (List (Socket × BitVec 32))) (Option (Nat × Failure)) → Prop
  | .notify => ∀ call, before.phase ≠ .blocked call
  | .enter => before.service.shutdown = false → before.notified = false
  | _ => True

theorem keeps_iff_undisturbed (empty : before.service.pipe.unread = 0)
    (action : Action (Result (List (Socket × BitVec 32))) (Option (Nat × Failure))) :
    action.Keeps poller before ↔ Undisturbed before action := by
  cases action with
  | notify =>
    have unread_eq : poller.unread (poller.notify before.service) = 0 :=
      (unread_notify before.service).trans empty
    constructor
    · intro keeps call blocked
      have unread_pos := keeps call blocked
      omega
    · intro undisturbed call blocked
      exact absurd blocked (undisturbed call)
  | enter =>
    constructor
    · intro keeps running
      have unread_pos := keeps _ () (enter_isSome running)
      simpa [poller, empty] using unread_pos
    · intro undisturbed service call entered notified
      obtain ⟨running, rfl⟩ := enter_eq_some entered
      rw [undisturbed running] at notified
      cases notified
  | wake outcome => exact Iff.rfl
  | leave fault => exact Iff.rfl

end EPollSocketService

/-- A notification is never lost on the select service exactly when no `Execute` polls after one
unless another, made during a poll, is still to be read, and on the epoll service exactly when none
is made before or during a poll. -/
theorem awake_iff_heeds_and_undisturbed {select : SelectSocketService} (fresh : select.Fresh)
    (selectActions : List SelectSocketService.Act)
    (whole : ∀ fault, .leave (some fault) ∉ selectActions)
    (epoll : EPollSocketService) (empty : epoll.pipe.unread = 0)
    (epollActions : List (Action (Result (List (Socket × BitVec 32))) (Option (Nat × Failure)))) :
    (Runs.EveryState (step SelectSocketService.poller) { service := select }
          (fun _ state => state.Awake SelectSocketService.poller) selectActions ↔
        Runs.EveryStep (step SelectSocketService.poller) { service := select }
          (fun front before action _ =>
            SelectSocketService.Heeds select.pipe.reader front before action) selectActions) ∧
      (Runs.EveryState (step EPollSocketService.poller) { service := epoll }
          (fun _ state => state.Awake EPollSocketService.poller) epollActions ↔
        Runs.EveryStep (step EPollSocketService.poller) { service := epoll }
          (fun _ before action _ => EPollSocketService.Undisturbed before action)
          epollActions) := by
  constructor
  · rw [everyState_awake_iff]
    have follows : ∀ {front action back before}, selectActions = front ++ action :: back →
        Runs.run (step SelectSocketService.poller) { service := select } front = some before →
        SelectSocketService.Follows select.pipe.reader front before := by
      rintro front action back before rfl execution
      refine SelectSocketService.follows_of_run fresh (fun fault member => ?_) execution
      exact whole fault (List.mem_append_left _ member)
    constructor
    · intro every front action back before after split execution step_eq
      exact ((follows split execution).keeps_iff_heeds action).mp
        (every front action back before after split execution step_eq)
    · intro every front action back before after split execution step_eq
      exact ((follows split execution).keeps_iff_heeds action).mpr
        (every front action back before after split execution step_eq)
  · rw [everyState_awake_iff]
    refine @Runs.everyStep_iff _ _ _ _ _ _ (fun _ state => state.service.pipe.unread = 0) empty
      ?_ ?_ epollActions
    · intro _ before action after still_empty _
      exact EPollSocketService.keeps_iff_undisturbed still_empty action
    · intro _ before action after still_empty step_eq _
      exact EPollSocketService.unread_step still_empty (step_of_step_eq step_eq)

/-- A notification after a poll of the select service has ended is read by the next, and so is one
that comes between the two; there is none at all on the epoll service. -/
theorem awake_iff_heeds_and_undisturbed_two_executes :
    Runs.EveryState (step SelectSocketService.poller)
        { service := { pipe := { reader := 3, writer := 4 }, started := true } }
        (fun _ state => state.Awake SelectSocketService.poller)
        [.enter, .wake .timeout, .notify, .leave none, .notify, .enter] ∧
      Runs.EveryState (step EPollSocketService.poller)
        { service := { pipe := { reader := 3, writer := 4 }, poll := 6, started := true } }
        (fun _ state => state.Awake EPollSocketService.poller) [.enter] := by
  have sent : SelectSocketService.Undrained 3 [.enter, .wake .timeout, .notify] :=
    @SelectSocketService.Undrained.sent 3 [.enter, .wake .timeout] rfl
  have left : SelectSocketService.Undrained 3 [.enter, .wake .timeout, .notify, .leave none] := by
    refine @SelectSocketService.Undrained.later 3 [.enter, .wake .timeout, .notify] _ sent ?_
    rintro _ _ ⟨outcome, report_eq, told⟩
    obtain rfl := Option.some.inj report_eq
    cases told
  have again : SelectSocketService.Undrained 3
      [.enter, .wake .timeout, .notify, .leave none, .notify] :=
    @SelectSocketService.Undrained.later 3 [.enter, .wake .timeout, .notify, .leave none] _ left
      fun _ same => by cases same
  have awake := awake_iff_heeds_and_undisturbed
    (⟨rfl, by decide, rfl, rfl⟩ :
      SelectSocketService.Fresh { pipe := { reader := 3, writer := 4 }, started := true })
    [.enter, .wake .timeout, .notify, .leave none, .notify, .enter] (by simp)
    { pipe := { reader := 3, writer := 4 }, poll := 6, started := true } rfl [.enter]
  constructor
  · refine awake.1.mpr ?_
    refine Runs.everyStep_cons rfl (fun notified => by cases notified) ?_
    refine Runs.everyStep_cons rfl trivial (Runs.everyStep_cons rfl trivial ?_)
    refine Runs.everyStep_cons rfl trivial (Runs.everyStep_cons rfl trivial ?_)
    exact Runs.everyStep_cons rfl (fun _ => again) (Runs.everyStep_nil _ _ _)
  · refine awake.2.mpr ?_
    exact Runs.everyStep_cons rfl (fun _ => rfl) (Runs.everyStep_nil _ _ _)

/-- A notification before `Execute` leaves the select service blocked on an empty pipe, and so
does one during the poll of the epoll service. -/
theorem not_awake_notify_enter :
    (¬ Runs.EveryState (step SelectSocketService.poller)
        { service := { pipe := { reader := 3, writer := 4 }, started := true } }
        (fun _ state => state.Awake SelectSocketService.poller) [.notify, .enter]) ∧
      ¬ Runs.EveryState (step EPollSocketService.poller)
        { service := { pipe := { reader := 3, writer := 4 }, poll := 6, started := true } }
        (fun _ state => state.Awake EPollSocketService.poller) [.enter, .notify] := by
  constructor
  · intro every
    have awake := every [.notify, .enter] [] _ rfl rfl _ rfl rfl
    exact absurd awake (by decide)
  · intro every
    have awake := every [.enter, .notify] [] _ rfl rfl () rfl rfl
    exact absurd awake (by decide)

end Fusion
