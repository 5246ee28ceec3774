import Fusion.Socket.EPollInterest
import Fusion.Socket.EPollShutdown

/-!
# The events that the epoll service reports

`Execute` hands out what `epoll_wait` reported without a look at the map.  What it hands out is
registered where the map and the interest set agree and where no call has taken interest from a
reported socket in the meantime.
-/

namespace Fusion

open EPollSocketService EPollSystem Runs

namespace SocketOperation

theorem meets_merge {old operation : SocketOperation} (events : SocketOperation)
    (meets : old.meets operation = true) : (old.merge events).meets operation = true := by
  unfold merge
  split
  · simp only [SocketOperation.meets, bne_iff_ne] at meets ⊢
    intro empty
    rw [BitVec.and_or_distrib_right] at empty
    exact meets (BitVec.or_eq_zero_iff.mp empty).1
  · exact meets

end SocketOperation

variable {mask : BitVec 32}

namespace EPollSocketService

/-- The operations that have an event of the kernel's each. -/
def flagged : List (SocketOperation × BitVec 32) := [(.read, epollIn), (.write, epollOut)]

section Flagged

variable {operation : SocketOperation} {flag : BitVec 32} (pair : (operation, flag) ∈ flagged)
include pair

theorem and_eq_of_meets_fromSocketEvents (meets : (fromSocketEvents mask).meets operation = true) :
    mask &&& flag = flag := by
  by_contra absent
  rcases List.mem_pair.mp pair with same | same
  all_goals
    cases same
    rw [fromSocketEvents, if_neg absent] at meets
    revert meets
    split <;> split <;> decide

theorem meets_of_toEPollEvents_and_eq {ops : SocketOperation}
    (watched : toEPollEvents ops &&& flag = flag) : ops.meets operation = true := by
  by_contra absent
  rcases List.mem_pair.mp pair with same | same
  all_goals
    cases same
    rw [toEPollEvents, if_neg absent] at watched
    revert watched
    split <;> split <;> decide

end Flagged

variable {event : SocketEvent} {fault : Option (Nat × Failure)}

/-- An event that `Execute` collects has the socket and the operations of a reported one. -/
theorem mem_collect {notify : Socket} {reported : List (Socket × BitVec 32)} {pipe : SocketPair}
    {earlier : List SocketEvent}
    (member : event ∈ (collect notify fault reported pipe earlier).2.1) :
    event ∈ earlier ∨
      ∃ entry ∈ reported, event = { sock := entry.1, events := fromSocketEvents entry.2 } := by
  induction reported generalizing pipe earlier with
  | nil => exact .inl member
  | cons entry reported ih =>
    obtain ⟨sock, mask⟩ := entry
    simp only [collect] at member
    split at member
    · split at member
      · rcases ih member with old | ⟨entry, reported_mem, event_eq⟩
        · exact .inl old
        · exact .inr ⟨entry, List.mem_cons_of_mem _ reported_mem, event_eq⟩
      · exact .inl member
    · split at member
      · rcases ih member with old | ⟨entry, reported_mem, event_eq⟩
        · rcases List.mem_append.mp old with old | new
          · exact .inl old
          · exact .inr ⟨(sock, mask), List.mem_cons_self, List.mem_singleton.mp new⟩
        · exact .inr ⟨entry, List.mem_cons_of_mem _ reported_mem, event_eq⟩
      · rcases ih member with old | ⟨entry, reported_mem, event_eq⟩
        · exact .inl old
        · exact .inr ⟨entry, List.mem_cons_of_mem _ reported_mem, event_eq⟩

/-- An event that `Execute` returns was reported to a service that is not shut down. -/
theorem mem_executeEnd {service after : EPollSocketService}
    {outcome : Result (List (Socket × BitVec 32))} {results : List SocketEvent}
    (ended : executeEnd service outcome fault = (after, .ok results)) (member : event ∈ results) :
    service.shutdown = false ∧
      ∃ reported, outcome = .ok reported ∧ ∃ entry ∈ reported,
        event = { sock := entry.1, events := fromSocketEvents entry.2 } := by
  simp only [executeEnd] at ended
  split at ended
  · obtain rfl := Except.ok.inj (Prod.mk.inj ended).2
    cases member
  · rename_i running
    refine ⟨eq_false_of_ne_true running, ?_⟩
    split at ended
    · cases ended
    · obtain rfl := Except.ok.inj (Prod.mk.inj ended).2
      cases member
    · rename_i reported _
      split at ended
      · rename_i collected
        obtain rfl := Except.ok.inj (Prod.mk.inj ended).2
        have from_collect : event ∈
            (collect service.pipe.reader fault reported service.pipe []).2.1 := by
          rw [collected]
          exact member
        rcases mem_collect from_collect with old | from_entry
        · cases old
        · exact ⟨reported, rfl, from_entry⟩
      · cases ended

end EPollSocketService

/-! ## Reported sockets -/

/-- The kernel may report the mask: the socket is a member of the interest set, which has the read
and write events of the mask. -/
def EPollSystem.Offers (system : EPollSystem) (sock : Socket) (mask : BitVec 32) : Prop :=
  ∃ watched, system.kernel sock = some watched ∧
    (mask &&& epollIn = epollIn → watched &&& epollIn = epollIn) ∧
    (mask &&& epollOut = epollOut → watched &&& epollOut = epollOut)

/-- The socket is registered with the operations of the set among `Read` and `Write`. -/
def EPollSystem.Holds (system : EPollSystem) (sock : Socket) (events : SocketOperation) : Prop :=
  ∃ ops, system.registered sock = some ops ∧
    (events.meets .read = true → ops.meets .read = true) ∧
    (events.meets .write = true → ops.meets .write = true)

variable {sock : Socket} {system : EPollSystem} {events : SocketOperation}

namespace EPollSystem

theorem Synced.holds_of_offers (synced : system.Synced) (offers : system.Offers sock mask) :
    system.Holds sock (fromSocketEvents mask) := by
  obtain ⟨watched, member, reads, writes⟩ := offers
  rw [synced.kernel_eq] at member
  obtain ⟨ops, found, rfl⟩ := Option.map_eq_some_iff.mp member
  have covers : ∀ pair ∈ flagged,
      (mask &&& pair.2 = pair.2 → toEPollEvents ops &&& pair.2 = pair.2) →
        (fromSocketEvents mask).meets pair.1 = true → ops.meets pair.1 = true :=
    fun pair listed offered meets => meets_of_toEPollEvents_and_eq listed
      (offered (and_eq_of_meets_fromSocketEvents listed meets))
  exact ⟨ops, found, covers (.read, epollIn) List.mem_cons_self reads,
    covers (.write, epollOut) (List.mem_cons_of_mem _ List.mem_cons_self) writes⟩

theorem Holds.of_registered_eq {before after : EPollSystem} (holds : before.Holds sock events)
    (registered_eq : after.registered sock = before.registered sock) : after.Holds sock events := by
  obtain ⟨ops, found, covers⟩ := holds
  exact ⟨ops, registered_eq.trans found, covers⟩

/-- `Add` never narrows an entry, whatever the outcome of its system call. -/
theorem Holds.add (holds : system.Holds sock events) (other : Socket)
    (requested : SocketOperation) (outcome : Result Unit) :
    (system.add other requested outcome).1.Holds sock events := by
  by_cases elsewhere : sock = other
  case neg =>
    exact holds.of_registered_eq (add_agreeOff system other requested outcome sock elsewhere).1
  subst elsewhere
  obtain ⟨ops, found, reads, writes⟩ := holds
  have lookup_eq : system.service.events.lookup sock = some ops := found
  unfold EPollSystem.add
  split_ifs
  · exact ⟨ops, found, reads, writes⟩
  · exact ⟨ops, found, reads, writes⟩
  · exact ⟨ops, found, reads, writes⟩
  · exact ⟨ops, found, reads, writes⟩
  · simp only [lookup_eq]
    refine ⟨ops.merge requested, ?_, ?_, ?_⟩
    · rw [registered_insert, Function.update_self]
    · exact fun meets => SocketOperation.meets_merge requested (reads meets)
    · exact fun meets => SocketOperation.meets_merge requested (writes meets)

end EPollSystem

namespace EPollThreads

/-- Some `epoll_wait` has reported the socket and its `Execute` has yet to take the lock. -/
def Reported (threads : EPollThreads) (sock : Socket) : Prop :=
  ∃ reported, some (.ok reported) ∈ threads.polls ∧ ∃ mask, (sock, mask) ∈ reported

/-- `epoll_wait` reports members of the interest set. -/
def Honest (before : EPollThreads) : Action → Prop
  | .report _ (.ok reported) => ∀ entry ∈ reported, before.system.Offers entry.1 entry.2
  | _ => True

/-- No call takes interest from a reported socket, and no failing system call changes the map. -/
def Undisturbed (before : EPollThreads) : Action → Prop
  | .perform call =>
    call.Safe before.system ∧
      match call with
      | .remove sock _ _ => ¬ before.Reported sock
      | .close sock _ => ¬ before.Reported sock
      | _ => True
  | .startEnd outcome _ =>
    (Call.add before.system.service.pipe.reader (.read ||| .error) outcome).Safe before.system
  | _ => True

/-- The events that `Execute` returns are registered when it takes the lock again. -/
def ReturnsCurrent (before : EPollThreads) : Action → Prop
  | .leave index fault =>
    ∀ outcome after results, before.polls[index]? = some (some outcome) →
      executeEnd before.system.service outcome fault = (after, .ok results) →
        ∀ event ∈ results, before.system.Holds event.sock event.events
  | _ => True

/-- The map and the interest set agree, and every reported event is registered. -/
structure Current (threads : EPollThreads) : Prop where
  consistent : threads.system.Open
  synced : threads.system.Synced
  holds : threads.system.service.shutdown = false →
    ∀ reported, some (.ok reported) ∈ threads.polls →
      ∀ entry ∈ reported, threads.system.Holds entry.1 (fromSocketEvents entry.2)

theorem Current.transfer {before after : EPollThreads} (current : before.Current)
    (events_eq : after.system.service.events = before.system.service.events)
    (kernel_eq : after.system.kernel = before.system.kernel)
    (shutdown_eq : after.system.service.shutdown = before.system.service.shutdown)
    (accepts : ∀ other, before.system.Accepts other → after.system.Accepts other)
    (polls_subset : ∀ reported, some (.ok reported) ∈ after.polls →
      some (.ok reported) ∈ before.polls) : after.Current := by
  have registered_eq : after.system.registered = before.system.registered := by
    unfold registered
    rw [events_eq]
  refine ⟨?_, ⟨?_, ?_⟩, ?_⟩
  · intro sock ops found
    rw [registered_eq] at found
    exact accepts sock (current.consistent sock ops found)
  · rw [registered_eq, kernel_eq]
    exact current.synced.kernel_eq
  · rw [registered_eq]
    exact current.synced.nonempty
  · intro running reported member entry entry_mem
    have held := current.holds (shutdown_eq.symm.trans running) reported
      (polls_subset reported member) entry entry_mem
    exact held.of_registered_eq (congrFun registered_eq entry.1)

/-- A call keeps what is registered for a socket that it does not take interest from. -/
theorem holds_perform (consistent : system.Open) (holds : system.Holds sock events) (call : Call)
    (remove_ne : ∀ other removed outcome, call = .remove other removed outcome → sock ≠ other)
    (close_ne : ∀ other outcome, call = .close other outcome → sock ≠ other)
    (running : (system.perform call).1.service.shutdown = false) :
    (system.perform call).1.Holds sock events := by
  cases call with
  | start created poll outcome lastFailure =>
    obtain ⟨ops, found, _⟩ := id holds
    have opened := (consistent sock ops found).opened
    have refused : (system.start created poll outcome lastFailure).1 = system := by
      unfold start startBegin
      rw [if_pos opened]
    rw [perform, refused]
    exact holds
  | add other requested outcome => exact holds.add other requested outcome
  | remove other removed outcome =>
    exact holds.of_registered_eq (remove_agreeOff system other removed outcome sock
      (remove_ne other removed outcome rfl)).1
  | close other outcome =>
    exact holds.of_registered_eq (close_agreeOff system other outcome sock
      (close_ne other outcome rfl)).1
  | stop =>
    simp only [EPollSystem.perform, stop] at running
    split at running
    · rename_i shutdown
      rw [shutdown] at running
      cases running
    · cases running

variable {before : EPollThreads}

theorem Current.perform (current : before.Current) (call : Call)
    (undisturbed : before.Undisturbed (.perform call)) :
    Current { before with system := (before.system.perform call).1 } := by
  have edit := perform_edit current.consistent call
  refine ⟨edit.keeps_open current.consistent,
    ((edit.atomic_iff_safe current.synced).mpr undisturbed.1).synced, ?_⟩
  intro running reported member entry entry_mem
  have was_running : before.system.service.shutdown = false := by
    cases shutdown : before.system.service.shutdown with
    | false => rfl
    | true =>
      dsimp only at running
      rw [perform_of_shutdown shutdown call, shutdown] at running
      cases running
  have is_reported : before.Reported entry.1 := ⟨reported, member, entry.2, entry_mem⟩
  refine holds_perform current.consistent
    (current.holds was_running reported member entry entry_mem) call ?_ ?_ running
  · rintro other removed outcome rfl rfl
    exact undisturbed.2 is_reported
  · rintro other outcome rfl rfl
    exact undisturbed.2 is_reported

theorem Current.step {after : EPollThreads} {action : Action} (current : before.Current)
    (honest : before.Honest action) (undisturbed : before.Undisturbed action)
    (step_eq : step before action = some after) : after.Current := by
  cases step_cases step_eq with
  | perform call => exact current.perform call undisturbed
  | startBegin created poll lastFailure starts =>
    obtain ⟨⟨pipe, opened, started, begun⟩, unchanged⟩ :=
      before.system.startBegin_eq created poll lastFailure
    by_cases unopened : before.system.service.poll = invalidSocket
    · rw [begun]
      refine current.transfer rfl rfl rfl ?_ fun _ member => member
      exact fun other accepted => absurd unopened accepted.opened
    · rw [unchanged (.inl unopened)]
      exact current.transfer rfl rfl rfl (accepts_of_eq rfl rfl) fun _ member => member
  | startEnd outcome lastFailure starts =>
    rw [startEnd_eq_add]
    have added := current.perform
      (.add before.system.service.pipe.reader
        (SocketOperation.read ||| SocketOperation.error) outcome)
      ⟨undisturbed, trivial⟩
    exact added.transfer rfl rfl rfl (accepts_of_eq rfl rfl) fun _ member => member
  | notify => exact current.transfer rfl rfl rfl (accepts_of_eq rfl rfl) fun _ member => member
  | enter =>
    refine current.transfer rfl rfl rfl (accepts_of_eq rfl rfl) fun reported member => ?_
    simpa using member
  | refused => exact current
  | report index outcome waiting =>
    refine ⟨current.consistent, current.synced, ?_⟩
    intro running reported member entry entry_mem
    rcases List.mem_or_eq_of_mem_set member with old | new
    · exact current.holds running reported old entry entry_mem
    · obtain rfl := Option.some.inj new
      exact current.synced.holds_of_offers (honest entry entry_mem)
  | leave index fault outcome returned pipe results kept =>
    refine current.transfer rfl rfl rfl (accepts_of_eq rfl rfl) fun reported member => ?_
    exact List.mem_of_mem_eraseIdx member

theorem current_initial : Current {} where
  consistent := open_initial
  synced := synced_initial
  holds _ _ member := nomatch member

theorem Current.returnsCurrent (current : before.Current) (action : Action) :
    before.ReturnsCurrent action := by
  cases action with
  | leave index fault =>
    intro outcome after results returned ended event member
    obtain ⟨running, reported, rfl, entry, entry_mem, rfl⟩ := mem_executeEnd ended member
    exact current.holds running reported (List.mem_of_getElem? returned) entry entry_mem
  | perform => trivial
  | startBegin => trivial
  | startEnd => trivial
  | notify => trivial
  | enter => trivial
  | report => trivial

/-- In every run in which `epoll_wait` reports members of the interest set, the map and the
interest set are kept in agreement and no call takes interest from a reported socket before its
`Execute` has taken the lock again, every event that `Execute` returns is registered. -/
theorem returnsCurrent_of_undisturbed {actions : List Action}
    (honest : Runs.EveryStep step {} (fun _ before action _ => before.Honest action) actions)
    (undisturbed :
      Runs.EveryStep step {} (fun _ before action _ => before.Undisturbed action) actions) :
    Runs.EveryStep step {} (fun _ before action _ => before.ReturnsCurrent action) actions := by
  rintro front action back before after rfl execution step_eq
  have kept : Runs.EveryStep step {}
      (fun _ before action _ => before.Honest action ∧ before.Undisturbed action) front := by
    intro earlier performed later middle next split reached taken
    exact ⟨honest.of_append earlier performed later middle next split reached taken,
      undisturbed.of_append earlier performed later middle next split reached taken⟩
  have current : before.Current := by
    refine @Runs.EveryStep.invariant _ _ _ _ _ (fun _ threads => threads.Current) current_initial
      ?_ _ kept _ execution
    rintro _ middle performed next current taken ⟨honest, undisturbed⟩
    exact current.step honest undisturbed taken
  exact current.returnsCurrent action

/-- Interest is added to socket 7 and taken from socket 8 while an event of socket 7 is reported. -/
theorem returnsCurrent_of_undisturbed_other_socket :
    Runs.EveryStep step {} (fun _ before action _ => before.ReturnsCurrent action)
      [.perform (.start (.ok (3, 4)) 6 (.ok ()) {}), .perform (.add 7 .read (.ok ())),
        .perform (.add 8 .read (.ok ())), .enter, .report 0 (.ok [(7, epollIn)]),
        .perform (.add 7 .write (.ok ())), .perform (.close 8 (.ok ())), .leave 0 none] := by
  refine returnsCurrent_of_undisturbed ?_ ?_
  · refine everyStep_cons rfl trivial ?_
    refine everyStep_cons rfl trivial ?_
    refine everyStep_cons rfl trivial ?_
    refine everyStep_cons rfl trivial ?_
    refine everyStep_cons rfl ?_ ?_
    · intro entry member
      obtain rfl := List.mem_singleton.mp member
      exact ⟨epollIn, rfl, fun _ => rfl, fun absent => absurd absent (by decide)⟩
    refine everyStep_cons rfl trivial ?_
    refine everyStep_cons rfl trivial ?_
    exact everyStep_cons rfl trivial (everyStep_nil _ _ _)
  · refine everyStep_cons rfl ⟨trivial, trivial⟩ ?_
    refine everyStep_cons rfl ⟨False.elim, trivial⟩ ?_
    refine everyStep_cons rfl ⟨False.elim, trivial⟩ ?_
    refine everyStep_cons rfl trivial ?_
    refine everyStep_cons rfl trivial ?_
    refine everyStep_cons rfl ⟨False.elim, trivial⟩ ?_
    refine everyStep_cons rfl ⟨trivial, ?_⟩ ?_
    · rintro ⟨reported, member, mask, entry_mem⟩
      obtain rfl : reported = [(7, epollIn)] := by simpa using member
      simp at entry_mem
    exact everyStep_cons rfl trivial (everyStep_nil _ _ _)

/-- `Close` completes between the return of `epoll_wait` and the second section of `Execute`, which
still hands out the event. -/
theorem not_returnsCurrent_closed_socket :
    ∃ actions, Runs.EveryStep step {} (fun _ before action _ => before.Honest action) actions ∧
      ¬ Runs.EveryStep step {} (fun _ before action _ => before.ReturnsCurrent action) actions := by
  refine ⟨[.perform (.start (.ok (3, 4)) 6 (.ok ()) {}), .perform (.add 7 .read (.ok ())), .enter,
    .report 0 (.ok [(7, epollIn)]), .perform (.close 7 (.ok ())), .leave 0 none], ?_, ?_⟩
  · refine everyStep_cons rfl trivial ?_
    refine everyStep_cons rfl trivial ?_
    refine everyStep_cons rfl trivial ?_
    refine everyStep_cons rfl ?_ ?_
    · intro entry member
      obtain rfl := List.mem_singleton.mp member
      exact ⟨epollIn, rfl, fun _ => rfl, fun absent => absurd absent (by decide)⟩
    refine everyStep_cons rfl trivial ?_
    exact everyStep_cons rfl trivial (everyStep_nil _ _ _)
  · intro every
    have current := every
      [.perform (.start (.ok (3, 4)) 6 (.ok ()) {}), .perform (.add 7 .read (.ok ())), .enter,
        .report 0 (.ok [(7, epollIn)]), .perform (.close 7 (.ok ()))]
      (.leave 0 none) [] _ _ rfl rfl rfl
    obtain ⟨ops, found, _⟩ :=
      current (.ok [(7, epollIn)]) _ [⟨7, .read⟩] rfl rfl ⟨7, .read⟩ (List.mem_singleton.mpr rfl)
    cases found

end EPollThreads
end Fusion
