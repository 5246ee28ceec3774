import Fusion.Socket.SelectInterest
import Fusion.Socket.EPollInterest

/-!
# Agreement of the two socket services

A program is linked with one of two implementations of `SocketService`.  Here both receive the same
calls, every system call of the epoll service succeeds, and the two are compared: what they watch,
what the kernel watches for the epoll service, and what each call returns.  They can be told apart
in two ways only.  `Remove` and `Close` refuse a socket that is not registered under epoll and
accept it under select, and a `Remove` under epoll that takes an operation from a socket takes all
of them where `Error` should stay.
-/

namespace Fusion

open SelectSocketService

/-- The two services under the same calls. -/
structure Backends where
  select : SelectSocketService
  epoll : EPollSystem

namespace Backends

open SelectSocketService (Call Table registered operations)
open EPollSocketService (toEPollEvents)

/-- The call on the epoll service. -/
def onEPoll (system : EPollSystem) : Call → EPollSystem × Result Unit
  | .add sock events => system.add sock events (.ok ())
  | .remove sock events => system.remove sock events (.ok ())
  | .close sock => system.close sock (.ok ())

/-- Both services make the call.  The notification pipe is no socket of a caller. -/
def step (backends : Backends) (call : Call) : Option Backends :=
  if call.sock = backends.epoll.service.pipe.reader then none
  else some
    { select := (call.perform backends.select).1, epoll := (onEPoll backends.epoll call).1 }

/-- The same operations of the socket are registered with both services and with the kernel. -/
def AgreeOn (backends : Backends) (sock : Socket) : Prop :=
  backends.epoll.registered sock = registered backends.select.events sock ∧
    backends.epoll.kernel sock = (registered backends.select.events sock).map toEPollEvents

/-- The services agree on every socket of a caller. -/
def Agree (backends : Backends) : Prop :=
  ∀ sock, sock ≠ backends.epoll.service.pipe.reader → backends.AgreeOn sock

/-- The call returns the same from both services. -/
def SameReply (backends : Backends) (call : Call) : Prop :=
  (call.perform backends.select).2 = (onEPoll backends.epoll call).2

/-- A `Remove` or `Close` of a valid socket names a registered one, and no `Remove` takes an
operation from a socket that should stay registered for `Error`. -/
def Exchangeable (backends : Backends) : Call → Prop
  | .add _ _ => True
  | .remove sock events =>
    sock = invalidSocket ∨ events = .none ∨
      ∃ old, registered backends.select.events sock = some old ∧
        (old &&& events ≠ .none → (old &&& ~~~events) &&& .error ≠ .error)
  | .close sock => sock = invalidSocket ∨ (registered backends.select.events sock).isSome

/-! ## Entries -/

/-- The entry of a socket with these operations. -/
def entry (ops : SocketOperation) : Option SocketOperation :=
  if ops = .none then none else some ops

theorem entry_of_ne {ops : SocketOperation} (nonempty : ops ≠ .none) :
    entry ops = some ops := if_neg nonempty

@[simp]
theorem entry_none : entry .none = none := rfl

theorem entry_injective : Function.Injective entry := by
  intro left right equal
  unfold entry at equal
  split_ifs at equal with left_empty right_empty
  · rw [left_empty, right_empty]
  · exact Option.some.inj equal

theorem registered_eq_entry {events : List SocketEvent} (table : Table events) (sock : Socket) :
    registered events sock = entry (operations events sock) := by
  have nonempty := table.isSome_registered_iff sock
  unfold operations at nonempty ⊢
  cases found : registered events sock with
  | none => rfl
  | some ops =>
    rw [found] at nonempty
    exact (entry_of_ne (by simpa using nonempty)).symm

/-- What the epoll service makes of the operations of the call's socket. -/
def epollEffect (old : SocketOperation) : Call → SocketOperation
  | .add _ events => if old = .none then events else old.merge events
  | .remove _ events =>
    if old &&& events = .none then old else EPollSystem.remaining old events
  | .close _ => .none

/-- `Remove` differs where `Error` should stay. -/
theorem epollEffect_remove_eq_iff (old : SocketOperation) (sock : Socket)
    (events : SocketOperation) :
    epollEffect old (.remove sock events) = (Call.remove sock events).effect old ↔
      (old &&& events ≠ .none → (old &&& ~~~events) &&& .error ≠ .error) := by
  simp only [epollEffect, Call.effect]
  by_cases disjoint : old &&& events = .none
  · rw [if_pos disjoint, SocketOperation.and_not_of_disjoint disjoint]
    exact iff_of_true rfl fun shared => absurd disjoint shared
  rw [if_neg disjoint]
  simp only [EPollSystem.remaining, ne_eq, disjoint, not_false_eq_true, true_imp_iff]
  by_cases errors : (old &&& ~~~events) &&& .error = .error
  · rw [if_pos errors]
    refine iff_of_false ?_ (not_not.mpr errors)
    intro emptied
    rw [← emptied] at errors
    exact absurd errors (by decide)
  · rw [if_neg errors]
    exact iff_of_true rfl errors

/-! ## One call -/

/-- The epoll service accepts calls and the table of the select service has its shape. -/
structure Running (backends : Backends) : Prop where
  table : Table backends.select.events
  running : backends.epoll.service.shutdown = false
  opened : backends.epoll.service.poll ≠ invalidSocket

/-- What a call leaves alone: the flags and the pipe of the epoll service, and the other sockets
of both. -/
structure Framed (before after : Backends) (sock : Socket) : Prop where
  shutdown_eq : after.epoll.service.shutdown = before.epoll.service.shutdown
  poll_eq : after.epoll.service.poll = before.epoll.service.poll
  pipe_eq : after.epoll.service.pipe = before.epoll.service.pipe
  table : Table after.select.events
  select_eq : ∀ other, other ≠ sock →
    registered after.select.events other = registered before.select.events other
  epoll_eq : EPollSystem.AgreeOff sock before.epoll after.epoll

theorem service_onEPoll (system : EPollSystem) (call : Call) :
    (onEPoll system call).1.service.shutdown = system.service.shutdown ∧
      (onEPoll system call).1.service.poll = system.service.poll ∧
      (onEPoll system call).1.service.pipe = system.service.pipe := by
  cases call with
  | add sock events =>
    simp only [onEPoll, EPollSystem.add]
    split_ifs
    all_goals first | exact ⟨rfl, rfl, rfl⟩ | (split <;> exact ⟨rfl, rfl, rfl⟩)
  | remove sock events =>
    simp only [onEPoll, EPollSystem.remove]
    split_ifs
    all_goals first | exact ⟨rfl, rfl, rfl⟩ | split
    all_goals first | exact ⟨rfl, rfl, rfl⟩ | (split_ifs <;> exact ⟨rfl, rfl, rfl⟩)
  | close sock =>
    simp only [onEPoll, EPollSystem.close]
    split_ifs
    all_goals first | exact ⟨rfl, rfl, rfl⟩ | (split <;> exact ⟨rfl, rfl, rfl⟩)

theorem agreeOff_onEPoll (system : EPollSystem) (call : Call) :
    EPollSystem.AgreeOff call.sock system (onEPoll system call).1 := by
  cases call with
  | add sock events => exact system.add_agreeOff sock events (.ok ())
  | remove sock events => exact system.remove_agreeOff sock events (.ok ())
  | close sock => exact system.close_agreeOff sock (.ok ())

variable {call : Call} {service : SelectSocketService}

theorem perform_effects (table : Table service.events) (valid : call.sock ≠ invalidSocket) :
    SelectSocketService.Effects service.events (call.perform service).1.events call := by
  cases call with
  | add sock events => exact add_effects events table valid
  | remove sock events => exact remove_effects events table valid
  | close sock => exact close_effects table valid

theorem perform_succeeds (service : SelectSocketService) (valid : call.sock ≠ invalidSocket) :
    (call.perform service).2 = .ok () := by
  cases call with
  | add sock events =>
    simp only [Call.perform, SelectSocketService.add, if_neg (show sock ≠ invalidSocket from valid)]
    split_ifs
    · rfl
    · split <;> rfl
  | remove sock events =>
    simp only [Call.perform, SelectSocketService.remove,
      if_neg (show sock ≠ invalidSocket from valid)]
    split_ifs
    · rfl
    · split <;> rfl
  | close sock =>
    simp only [Call.perform, SelectSocketService.close,
      if_neg (show sock ≠ invalidSocket from valid)]
    split_ifs <;> rfl

variable {backends : Backends}

theorem refused (running : backends.Running) (invalid : call.sock = invalidSocket) :
    call.perform backends.select =
        (backends.select, .error { error := .invalidArgument, message := "invalid socket" }) ∧
      onEPoll backends.epoll call =
        (backends.epoll, .error { error := .invalidArgument, message := "invalid socket" }) := by
  have not_shutdown : ¬ backends.epoll.service.shutdown = true := by simp [running.running]
  cases call with
  | add sock events =>
    obtain rfl : sock = invalidSocket := invalid
    constructor
    · simp [Call.perform, SelectSocketService.add]
    · simp [onEPoll, EPollSystem.add, not_shutdown]
  | remove sock events =>
    obtain rfl : sock = invalidSocket := invalid
    constructor
    · simp [Call.perform, SelectSocketService.remove]
    · simp [onEPoll, EPollSystem.remove, not_shutdown]
  | close sock =>
    obtain rfl : sock = invalidSocket := invalid
    constructor
    · simp [Call.perform, SelectSocketService.close]
    · simp [onEPoll, EPollSystem.close, not_shutdown]

/-- The map and the interest set hold these operations for the socket. -/
structure Holds (system : EPollSystem) (sock : Socket) (ops : SocketOperation) : Prop where
  registered_eq : system.registered sock = entry ops
  kernel_eq : system.kernel sock = (entry ops).map toEPollEvents

/-- The epoll service finds the entry that the call needs. -/
def Finds (old : SocketOperation) : Call → Prop
  | .add _ _ => True
  | .remove _ events => events = .none ∨ old ≠ .none
  | .close _ => old ≠ .none

/-- What the epoll service makes of a call on a valid socket: the new operations on both sides,
and a failure where `Remove` or `Close` finds no entry. -/
structure EPollEffects (system : EPollSystem) (call : Call) (old : SocketOperation) : Prop where
  holds : Holds (onEPoll system call).1 call.sock (epollEffect old call)
  reply : (onEPoll system call).2 = .ok () ↔ Finds old call

variable {old : SocketOperation} {sock : Socket} {system : EPollSystem}

theorem Holds.lookup_eq_none (holds : Holds system sock old) (absent : old = .none) :
    system.service.events.lookup sock = none :=
  holds.registered_eq.trans (by rw [absent, entry_none])

theorem Holds.lookup_eq_some (holds : Holds system sock old) (present : old ≠ .none) :
    system.service.events.lookup sock = some old :=
  holds.registered_eq.trans (entry_of_ne present)

theorem add_epollEffects (accepted : system.Accepts sock) (holds : Holds system sock old)
    (events : SocketOperation) : EPollEffects system (.add sock events) old := by
  have added_eq : onEPoll system (.add sock events) = system.add sock events (.ok ()) := rfl
  unfold EPollSystem.add at added_eq
  rw [if_neg (by simp [accepted.running]), if_neg accepted.valid, if_neg accepted.opened]
    at added_eq
  by_cases empty : events = .none
  · rw [if_pos empty] at added_eq
    constructor
    · rw [added_eq]
      have unchanged : epollEffect old (.add sock events) = old := by
        simp only [epollEffect, empty, SocketOperation.merge_none]
        split
        · exact Eq.symm ‹_›
        · rfl
      rw [unchanged]
      exact holds
    · simp [Finds, added_eq]
  rw [if_neg empty] at added_eq
  by_cases absent : old = .none
  · simp only [holds.lookup_eq_none absent] at added_eq
    constructor
    · rw [added_eq]
      simp only [epollEffect, if_pos absent]
      constructor
      · rw [EPollSystem.registered_insert, entry_of_ne empty]
        exact Function.update_self ..
      · rw [entry_of_ne empty]
        exact Function.update_self ..
    · simp [Finds, added_eq, EPollSystem.withContext]
  · simp only [holds.lookup_eq_some absent] at added_eq
    have merged_ne : old.merge events ≠ .none :=
      SocketOperation.merge_ne_none events absent
    constructor
    · rw [added_eq]
      simp only [epollEffect, if_neg absent]
      constructor
      · rw [EPollSystem.registered_insert, entry_of_ne merged_ne]
        exact Function.update_self ..
      · rw [entry_of_ne merged_ne]
        exact Function.update_self ..
    · simp [Finds, added_eq, EPollSystem.withContext]

theorem close_epollEffects (accepted : system.Accepts sock) (holds : Holds system sock old) :
    EPollEffects system (.close sock) old := by
  have closed_eq : onEPoll system (.close sock) = system.close sock (.ok ()) := rfl
  unfold EPollSystem.close at closed_eq
  rw [if_neg (by simp [accepted.running]), if_neg accepted.valid, if_neg accepted.opened]
    at closed_eq
  by_cases absent : old = .none
  · simp only [holds.lookup_eq_none absent] at closed_eq
    constructor
    · rw [closed_eq, epollEffect, ← absent]
      exact holds
    · simp [Finds, closed_eq, absent]
  · simp only [holds.lookup_eq_some absent] at closed_eq
    constructor
    · rw [closed_eq]
      constructor
      · rw [EPollSystem.registered_erase]
        exact Function.update_self ..
      · exact Function.update_self ..
    · simp [Finds, closed_eq, EPollSystem.withContext, absent]

theorem remove_epollEffects (accepted : system.Accepts sock) (holds : Holds system sock old)
    (events : SocketOperation) : EPollEffects system (.remove sock events) old := by
  have removed_eq : onEPoll system (.remove sock events) = system.remove sock events (.ok ()) := rfl
  unfold EPollSystem.remove at removed_eq
  rw [if_neg (by simp [accepted.running]), if_neg accepted.valid, if_neg accepted.opened]
    at removed_eq
  by_cases empty : events = .none
  · rw [if_pos empty] at removed_eq
    constructor
    · rw [removed_eq]
      have unchanged : epollEffect old (.remove sock events) = old := by
        simp [epollEffect, empty, SocketOperation.none]
      rw [unchanged]
      exact holds
    · rw [removed_eq]
      exact iff_of_true rfl (.inl empty)
  rw [if_neg empty] at removed_eq
  by_cases absent : old = .none
  · simp only [holds.lookup_eq_none absent] at removed_eq
    constructor
    · rw [removed_eq]
      have unchanged : epollEffect old (.remove sock events) = old := by
        simp [epollEffect, absent, SocketOperation.none]
      rw [unchanged]
      exact holds
    · simp [Finds, removed_eq, empty, absent]
  simp only [holds.lookup_eq_some absent] at removed_eq
  by_cases disjoint : old &&& events = .none
  · rw [if_neg (not_not.mpr disjoint)] at removed_eq
    constructor
    · rw [removed_eq]
      simp only [epollEffect, if_pos disjoint]
      exact holds
    · simp [Finds, removed_eq, absent]
  rw [if_pos disjoint] at removed_eq
  by_cases emptied : EPollSystem.remaining old events = .none
  · rw [if_pos emptied] at removed_eq
    constructor
    · rw [removed_eq]
      simp only [epollEffect, if_neg disjoint, emptied]
      constructor
      · rw [EPollSystem.registered_erase_insert]
        exact Function.update_self ..
      · exact Function.update_self ..
    · simp [Finds, removed_eq, EPollSystem.withContext, absent]
  · rw [if_neg emptied] at removed_eq
    constructor
    · rw [removed_eq]
      simp only [epollEffect, if_neg disjoint]
      constructor
      · rw [EPollSystem.registered_insert, entry_of_ne emptied]
        exact Function.update_self ..
      · rw [entry_of_ne emptied]
        exact Function.update_self ..
    · simp [Finds, removed_eq, EPollSystem.withContext, absent]

theorem epollEffects (accepted : system.Accepts call.sock) (holds : Holds system call.sock old) :
    EPollEffects system call old := by
  cases call with
  | add sock events => exact add_epollEffects accepted holds events
  | remove sock events => exact remove_epollEffects accepted holds events
  | close sock => exact close_epollEffects accepted holds

/-! ## Steps -/

variable {after before : Backends}

theorem step_cases (step_eq : before.step call = some after) :
    call.sock ≠ before.epoll.service.pipe.reader ∧
      after.select = (call.perform before.select).1 ∧
      after.epoll = (onEPoll before.epoll call).1 := by
  unfold step at step_eq
  split_ifs at step_eq with pipe
  obtain rfl := Option.some.inj step_eq
  exact ⟨pipe, rfl, rfl⟩

theorem framed_of_step (running : before.Running) (step_eq : before.step call = some after) :
    Framed before after call.sock := by
  obtain ⟨-, select_eq, epoll_eq⟩ := step_cases step_eq
  obtain ⟨shutdown_eq, poll_eq, pipe_eq⟩ := service_onEPoll before.epoll call
  rw [← epoll_eq] at shutdown_eq poll_eq pipe_eq
  have others : EPollSystem.AgreeOff call.sock before.epoll after.epoll := by
    rw [epoll_eq]
    exact agreeOff_onEPoll before.epoll call
  by_cases valid : call.sock = invalidSocket
  · have unchanged : after.select = before.select := by
      rw [select_eq, (refused running valid).1]
    exact ⟨shutdown_eq, poll_eq, pipe_eq, unchanged ▸ running.table,
      fun _ _ => by rw [unchanged], others⟩
  · have effects := perform_effects running.table valid
    rw [← select_eq] at effects
    exact ⟨shutdown_eq, poll_eq, pipe_eq, effects.table, effects.frame, others⟩

theorem Framed.running (framed : Framed before after sock) (running : before.Running) :
    after.Running :=
  ⟨framed.table, framed.shutdown_eq.trans running.running, framed.poll_eq ▸ running.opened⟩

theorem Framed.agree_iff (framed : Framed before after sock) (agree : before.Agree)
    (own : sock ≠ before.epoll.service.pipe.reader) : after.Agree ↔ after.AgreeOn sock := by
  constructor
  · intro after_agree
    exact after_agree sock (framed.pipe_eq ▸ own)
  · intro here other other_ne
    by_cases same : other = sock
    · exact same ▸ here
    · have earlier := agree other (framed.pipe_eq ▸ other_ne)
      unfold AgreeOn at earlier ⊢
      rwa [(framed.epoll_eq other same).1, (framed.epoll_eq other same).2,
        framed.select_eq other same]

/-- A call on a valid socket keeps the agreement and gets one reply exactly where the services are
exchangeable. -/
theorem valid_step_iff (running : before.Running) (agree : before.Agree)
    (step_eq : before.step call = some after) (valid : call.sock ≠ invalidSocket) :
    after.AgreeOn call.sock ∧ before.SameReply call ↔ before.Exchangeable call := by
  obtain ⟨own, select_eq, epoll_eq⟩ := step_cases step_eq
  set old := operations before.select.events call.sock with old_eq
  have select_entry := registered_eq_entry running.table call.sock
  rw [← old_eq] at select_entry
  have holds : Holds before.epoll call.sock old := by
    obtain ⟨registered_eq, kernel_eq⟩ := agree call.sock own
    rw [select_entry] at registered_eq kernel_eq
    exact ⟨registered_eq, kernel_eq⟩
  have effects := epollEffects ⟨running.running, valid, running.opened⟩ holds
  have select_effects := perform_effects running.table valid
  rw [← select_eq] at select_effects
  have select_after : registered after.select.events call.sock = entry (call.effect old) := by
    rw [registered_eq_entry select_effects.table, select_effects.own]
  have agree_iff : after.AgreeOn call.sock ↔ epollEffect old call = call.effect old := by
    have after_holds := effects.holds
    rw [← epoll_eq] at after_holds
    unfold AgreeOn
    rw [select_after, after_holds.registered_eq, after_holds.kernel_eq]
    constructor
    · rintro ⟨equal, -⟩
      exact entry_injective equal
    · intro equal
      rw [equal]
      exact ⟨rfl, rfl⟩
  have reply_iff : before.SameReply call ↔ (onEPoll before.epoll call).2 = .ok () := by
    unfold SameReply
    rw [perform_succeeds before.select valid]
    exact eq_comm
  rw [agree_iff, reply_iff, effects.reply]
  cases call with
  | add sock events => simp [epollEffect, Call.effect, Exchangeable, Finds]
  | close sock =>
    have present := running.table.isSome_registered_iff sock
    simp only [epollEffect, Call.effect, Exchangeable, Finds, true_and,
      show sock ≠ invalidSocket from valid, false_or, present]
    rfl
  | remove sock events =>
    rw [epollEffect_remove_eq_iff]
    simp only [Exchangeable, Finds, show sock ≠ invalidSocket from valid, false_or]
    rw [show registered before.select.events sock = entry old from select_entry]
    by_cases empty : events = .none
    · simp [empty, SocketOperation.none]
    by_cases absent : old = .none
    · simp [empty, absent]
    · simp [empty, absent, entry_of_ne absent]

theorem exact_step (running : before.Running) (agree : before.Agree)
    (step_eq : before.step call = some after) :
    after.Agree ∧ before.SameReply call ↔ before.Exchangeable call := by
  obtain ⟨own, select_eq, epoll_eq⟩ := step_cases step_eq
  have framed := framed_of_step running step_eq
  rw [framed.agree_iff agree own]
  by_cases valid : call.sock = invalidSocket
  · obtain ⟨select_refuses, epoll_refuses⟩ := refused running valid
    rw [select_refuses] at select_eq
    rw [epoll_refuses] at epoll_eq
    refine iff_of_true ⟨?_, ?_⟩ ?_
    · have earlier := agree call.sock own
      unfold AgreeOn at earlier ⊢
      rwa [select_eq, epoll_eq]
    · unfold SameReply
      rw [select_refuses, epoll_refuses]
    · cases call with
      | add => trivial
      | remove => exact .inl valid
      | close => exact .inl valid
  · exact valid_step_iff running agree step_eq valid

/-! ## From the start -/

/-- Two services that have just been started. -/
structure Started (backends : Backends) : Prop where
  select : ∃ created, start {} created = (backends.select, .ok ())
  epoll : ∃ created poll lastFailure,
    EPollSystem.start {} created poll (.ok ()) lastFailure = (backends.epoll, .ok ())

variable {created : Result (Socket × Socket)}

theorem events_of_select_started
    (started : start {} created = (service, .ok ())) : service.events = [] := by
  unfold start at started
  rw [if_neg (by decide)] at started
  split at started
  · obtain rfl := (Prod.mk.inj started).1
    rfl
  · cases (Prod.mk.inj started).2

/-- A started epoll service accepts calls and has the notification pipe as its only entry. -/
theorem epoll_started {poll : Socket} {lastFailure : Failure}
    (started : EPollSystem.start {} created poll (.ok ()) lastFailure = (system, .ok ())) :
    system.service.shutdown = false ∧ system.service.poll ≠ invalidSocket ∧
      ∀ sock, sock ≠ system.service.pipe.reader →
        system.registered sock = none ∧ system.kernel sock = none := by
  unfold EPollSystem.start EPollSystem.startBegin at started
  rw [if_neg (by decide), if_neg (by decide)] at started
  cases piped : SocketPair.start (EPollSystem.service {}).pipe created with
  | mk pipe outcome =>
  rw [piped] at started
  cases outcome with
  | error failure => cases (Prod.mk.inj started).2
  | ok _ =>
    dsimp only at started
    split_ifs at started with unopened
    · cases (Prod.mk.inj started).2
    dsimp only [EPollSystem.startEnd] at started
    split at started
    · obtain rfl := (Prod.mk.inj started).1
      generalize running_eq : ({ service := { pipe, poll, shutdown := false, started := true } } :
        EPollSystem) = running
      obtain ⟨shutdown_eq, poll_eq, pipe_eq⟩ := service_onEPoll running
        (.add pipe.reader (.read ||| .error))
      have others := running.add_agreeOff pipe.reader (.read ||| .error) (.ok ())
      simp only [onEPoll] at shutdown_eq poll_eq pipe_eq
      rw [shutdown_eq, poll_eq, pipe_eq]
      subst running_eq
      refine ⟨rfl, unopened, ?_⟩
      intro sock sock_ne
      exact others sock sock_ne
    · cases (Prod.mk.inj started).2

theorem Started.running (started : backends.Started) : backends.Running := by
  obtain ⟨⟨_, select_started⟩, ⟨_, _, _, epoll_started_eq⟩⟩ := started
  obtain ⟨not_shutdown, opened, -⟩ := epoll_started epoll_started_eq
  exact ⟨events_of_select_started select_started ▸ Table.nil, not_shutdown, opened⟩

theorem Started.agree (started : backends.Started) : backends.Agree := by
  obtain ⟨⟨_, select_started⟩, ⟨_, _, _, epoll_started_eq⟩⟩ := started
  obtain ⟨-, -, unregistered⟩ := epoll_started epoll_started_eq
  intro sock sock_ne
  unfold AgreeOn
  rw [events_of_select_started select_started]
  exact unregistered sock sock_ne

/-- Along any calls after `Start` the two services watch the same and answer the same exactly when
every call is one for which they are exchangeable. -/
theorem agree_throughout_iff {initial : Backends} (started : initial.Started)
    (calls : List Call) :
    Runs.EveryStep step initial
        (fun _ before call after => after.Agree ∧ before.SameReply call) calls ↔
      Runs.EveryStep step initial (fun _ before call _ => before.Exchangeable call) calls := by
  refine @Runs.everyStep_iff _ _ _ _ _ _ (fun _ backends => backends.Running ∧ backends.Agree)
    ⟨started.running, started.agree⟩ ?_ ?_ calls
  · rintro front before call after ⟨running, agree⟩ step_eq
    exact exact_step running agree step_eq
  · rintro front before call after ⟨running, agree⟩ step_eq exchangeable
    exact ⟨(framed_of_step running step_eq).running running,
      ((exact_step running agree step_eq).mpr exchangeable).1⟩

/-- Both services on the same pipe, just started. -/
def bothStarted : Backends where
  select := (start {} (.ok (10, 11))).1
  epoll := (EPollSystem.start {} (.ok (10, 11)) 12 (.ok ()) {}).1

/-- Requests that widen, narrow and drop two sockets keep the services together. -/
theorem agree_throughout_two_sockets :
    Runs.EveryStep step bothStarted
      (fun _ before call after => after.Agree ∧ before.SameReply call)
      [.add 3 .read, .add 4 .accept, .add 3 .write, .remove 3 .read, .remove 4 .accept,
        .close 3] := by
  refine (agree_throughout_iff ⟨⟨.ok (10, 11), rfl⟩, ⟨.ok (10, 11), 12, {}, rfl⟩⟩ _).mpr ?_
  refine Runs.everyStep_cons rfl trivial ?_
  refine Runs.everyStep_cons rfl trivial ?_
  refine Runs.everyStep_cons rfl trivial ?_
  refine Runs.everyStep_cons rfl (.inr (.inr ⟨_, rfl, fun _ => by decide⟩)) ?_
  refine Runs.everyStep_cons rfl (.inr (.inr ⟨_, rfl, fun _ => by decide⟩)) ?_
  exact Runs.everyStep_cons rfl (.inr rfl) (Runs.everyStep_nil _ _ _)

end Backends
end Fusion
