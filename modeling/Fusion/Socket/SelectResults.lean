import Fusion.Socket.SelectShutdown

/-!
# The events that the select service reports

`Execute` builds its three sets from one snapshot of the table and reads them back against
another.  Both sides are compared as operation sets: the operations of a socket in a table, and
the operations whose set of a `select` call contains the socket.
-/

namespace Fusion

open SocketOperation

/-! ## Operation sets from flags -/

namespace SocketOperation

/-- The set of the chosen ones among `Read`, `Write` and `Error`. -/
def ofFlags (reads writes errors : Bool) : SocketOperation :=
  (if reads then read else none) ||| (if writes then write else none) |||
    (if errors then error else none)

theorem ofFlags_or (a b c x y z : Bool) :
    ofFlags (a || x) (b || y) (c || z) = ofFlags a b c ||| ofFlags x y z := by
  decide +revert

theorem ofFlags_and (a b c x y z : Bool) :
    ofFlags (a && x) (b && y) (c && z) = ofFlags a b c &&& ofFlags x y z := by
  decide +revert

/-- The three tests of a table entry read all of its operations that `select` knows. -/
theorem ofFlags_meets (events : SocketOperation) :
    ofFlags (events.meets read) (events.meets write) (events.meets error) =
      events &&& ofFlags true true true := by
  decide +revert +kernel

end SocketOperation

namespace SelectSocketService

/-- The operations for which the socket is in the set of a `select` call. -/
def inSets (reads writes errors : Finset Socket) (sock : Socket) : SocketOperation :=
  .ofFlags (decide (sock ∈ reads)) (decide (sock ∈ writes)) (decide (sock ∈ errors))

theorem inSets_le (reads writes errors : Finset Socket) (sock : Socket) :
    inSets reads writes errors sock &&& .ofFlags true true true =
      inSets reads writes errors sock := by
  unfold inSets
  rw [← ofFlags_and]
  simp only [Bool.and_true]

theorem inSets_subset {reads writes errors passedReads passedWrites passedErrors : Finset Socket}
    (reads_subset : reads ⊆ passedReads) (writes_subset : writes ⊆ passedWrites)
    (errors_subset : errors ⊆ passedErrors) (sock : Socket) :
    inSets reads writes errors sock &&& inSets passedReads passedWrites passedErrors sock =
      inSets reads writes errors sock := by
  have absorb {left passed : Finset Socket} (subset : left ⊆ passed) :
      (decide (sock ∈ left) && decide (sock ∈ passed)) = decide (sock ∈ left) := by
    by_cases member : sock ∈ left
    · simp [member, subset member]
    · simp [member]
  unfold inSets
  rw [← ofFlags_and, absorb reads_subset, absorb writes_subset, absorb errors_subset]

theorem forward_eq (reads writes errors : Finset Socket) (event : SocketEvent) :
    forward reads writes errors event = event.events &&& inSets reads writes errors event.sock := by
  have flags : forward reads writes errors event =
      .ofFlags (event.events.meets .read && decide (event.sock ∈ reads))
        (event.events.meets .write && decide (event.sock ∈ writes))
        (event.events.meets .error && decide (event.sock ∈ errors)) := by
    simp only [forward, SocketOperation.ofFlags, Bool.and_eq_true, decide_eq_true_eq]
  rw [flags, ofFlags_and, ofFlags_meets, BitVec.and_assoc,
    BitVec.and_comm (SocketOperation.ofFlags true true true)]
  exact congrArg (event.events &&& ·) (inSets_le reads writes errors event.sock)

/-! ## The sets that `Execute` builds -/

/-- The operations for which the call watches the socket. -/
def SelectCall.watched (call : SelectCall) (sock : Socket) : SocketOperation :=
  inSets call.reads call.writes call.errors sock

theorem watched_watch (call : SelectCall) (event : SocketEvent) (sock : Socket) :
    (call.watch event).watched sock =
      call.watched sock |||
        if event.sock = sock then event.events &&& .ofFlags true true true else .none := by
  have mem_insert_if (condition : Bool) (sockets : Finset Socket) :
      decide (sock ∈ if condition then insert event.sock sockets else sockets) =
        (decide (sock ∈ sockets) || (condition && decide (event.sock = sock))) := by
    cases condition with
    | false => simp
    | true => simp [eq_comm, Bool.or_comm]
  unfold SelectCall.watched inSets
  rw [show decide (sock ∈ (call.watch event).reads) = _ from mem_insert_if _ _,
    show decide (sock ∈ (call.watch event).writes) = _ from mem_insert_if _ _,
    show decide (sock ∈ (call.watch event).errors) = _ from mem_insert_if _ _,
    ofFlags_or]
  congr 1
  by_cases same : event.sock = sock
  · simp only [same, decide_true, Bool.and_true, if_true]
    exact ofFlags_meets event.events
  · simp [same, SocketOperation.ofFlags, SocketOperation.none]

theorem operations_cons (event : SocketEvent) (events : List SocketEvent) (sock : Socket) :
    operations (event :: events) sock =
      if event.sock = sock then event.events else operations events sock := by
  unfold operations
  rw [registered_cons]
  split <;> rfl

variable {events : List SocketEvent}

theorem operations_eq_none {sock : Socket} (absent : sock ∉ events.map SocketEvent.sock) :
    operations events sock = .none := by
  unfold operations
  rw [registered_eq_none_iff.mpr absent]
  rfl

theorem watched_foldl (call : SelectCall) (nodup : (events.map SocketEvent.sock).Nodup)
    (sock : Socket) :
    (events.foldl SelectCall.watch call).watched sock =
      call.watched sock ||| (operations events sock &&& .ofFlags true true true) := by
  induction events generalizing call with
  | nil => simp [operations, SocketOperation.none]
  | cons event events ih =>
    obtain ⟨absent, tail_nodup⟩ := List.nodup_cons.mp nodup
    rw [List.foldl_cons, ih _ tail_nodup, watched_watch, operations_cons]
    by_cases same : event.sock = sock
    · rw [operations_eq_none (same ▸ absent)]
      simp [same, SocketOperation.none]
    · simp [same, SocketOperation.none]

theorem notify_foldl (call : SelectCall) (events : List SocketEvent) :
    (events.foldl SelectCall.watch call).notify = call.notify := by
  induction events generalizing call with
  | nil => rfl
  | cons event events ih => exact ih (call.watch event)

/-- `Execute` watches every socket but the notification socket for its operations. -/
theorem watched_executeBegin {before begun : SelectSocketService} {call : SelectCall}
    (table : Table before.events) (entered : executeBegin before = (begun, .ok call))
    {sock : Socket} (other : sock ≠ call.notify) :
    call.watched sock = operations before.events sock &&& .ofFlags true true true := by
  unfold executeBegin at entered
  split at entered
  · cases entered
  · obtain rfl := Except.ok.inj (Prod.mk.inj entered).2
    have watched := watched_foldl
      { notify := before.pipe.reader, nFds := 0, reads := ∅, writes := ∅, errors := ∅ }
      table.nodup sock
    have elsewhere : sock ≠ before.pipe.reader := by
      rwa [notify_foldl] at other
    simpa [SelectCall.watched, inSets, elsewhere, SocketOperation.ofFlags, SocketOperation.none]
      using watched

/-! ## The events that `Execute` returns -/

theorem mem_collect_iff (notify : Socket) (reads writes errors : Finset Socket)
    (result : SocketEvent) :
    result ∈ collect notify reads writes errors events ↔
      result.sock ≠ notify ∧ result.events ≠ .none ∧
        ∃ event ∈ events, event.sock = result.sock ∧
          result.events = event.events &&& inSets reads writes errors result.sock := by
  simp only [collect, List.mem_filterMap, forward_eq]
  constructor
  · rintro ⟨event, member, collected⟩
    split at collected
    · cases collected
    · rename_i kept
      rw [not_or] at kept
      obtain rfl := Option.some.inj collected
      exact ⟨kept.1, kept.2, event, member, rfl, rfl⟩
  · rintro ⟨other, nonempty, event, member, same, mask⟩
    refine ⟨event, member, ?_⟩
    rw [same, ← mask, if_neg (by simp [other, nonempty])]

theorem sublist_collect (notify : Socket) (reads writes errors : Finset Socket)
    (events : List SocketEvent) :
    ((collect notify reads writes errors events).map SocketEvent.sock).Sublist
      (events.map SocketEvent.sock) := by
  induction events with
  | nil => exact List.Sublist.refl _
  | cons event events ih =>
    unfold collect at ih ⊢
    rw [List.filterMap_cons]
    split
    · exact ih.cons _
    · rename_i result collected
      dsimp only at collected
      split at collected
      · cases collected
      · obtain rfl := Option.some.inj collected
        exact ih.cons_cons _

theorem mem_iff_registered (nodup : (events.map SocketEvent.sock).Nodup) (event : SocketEvent) :
    event ∈ events ↔ registered events event.sock = some event.events := by
  induction events with
  | nil => simp
  | cons head events ih =>
    obtain ⟨absent, tail_nodup⟩ := List.nodup_cons.mp nodup
    rw [List.mem_cons, registered_cons, ih tail_nodup]
    by_cases same : head.sock = event.sock
    · rw [if_pos same, registered_eq_none_iff.mpr (same ▸ absent)]
      cases head
      cases event
      simp_all [eq_comm]
    · rw [if_neg same, or_iff_right]
      rintro rfl
      exact same rfl

/-- The operations of a socket that both tables have and that `select` reported. -/
def current (built retaken : List SocketEvent) (reads writes errors : Finset Socket)
    (sock : Socket) : SocketOperation :=
  operations built sock &&& operations retaken sock &&& inSets reads writes errors sock

theorem mem_collect_iff_operations (table : Table events) (notify : Socket)
    (reads writes errors : Finset Socket) (result : SocketEvent) :
    result ∈ collect notify reads writes errors events ↔
      result.sock ≠ notify ∧ result.events ≠ .none ∧
        result.events =
          operations events result.sock &&& inSets reads writes errors result.sock := by
  rw [mem_collect_iff]
  refine and_congr_right fun other => and_congr_right fun nonempty => ?_
  constructor
  · rintro ⟨event, member, same, mask⟩
    have found := (mem_iff_registered table.nodup event).mp member
    rw [mask, ← same, operations, found]
    rfl
  · intro mask
    cases found : registered events result.sock with
    | none =>
      rw [operations, found] at mask
      exact absurd (mask.trans (by simp [SocketOperation.none])) nonempty
    | some value =>
      refine ⟨⟨result.sock, value⟩, (mem_iff_registered table.nodup _).mpr found, rfl, ?_⟩
      rw [mask, operations, found]
      rfl

theorem results_eq_collect {later after : SelectSocketService} {notify : Socket}
    {reads writes errors : Finset Socket} {fault : Option (Nat × Failure)}
    {results : List SocketEvent}
    (left : executeEnd later notify (.ready reads writes errors) fault = (after, .ok results)) :
    later.shutdown = false ∧ results = collect notify reads writes errors later.events := by
  simp only [executeEnd] at left
  split at left
  · cases left
  · rename_i running
    split at left
    · cases left
    · exact ⟨eq_false_of_ne_true running, (Except.ok.inj (Prod.mk.inj left).2).symm⟩

theorem perform_table {service : SelectSocketService} (table : Table service.events)
    (call : Call) : Table (call.perform service).1.events := by
  cases call with
  | add sock events =>
    by_cases invalid : sock = invalidSocket
    · simpa [Call.perform, add, invalid] using table
    · exact (add_effects events table invalid).table
  | remove sock events =>
    by_cases invalid : sock = invalidSocket
    · simpa [Call.perform, remove, invalid] using table
    · exact (remove_effects events table invalid).table
  | close sock =>
    by_cases invalid : sock = invalidSocket
    · simpa [Call.perform, close, invalid] using table
    · exact (close_effects table invalid).table

end SelectSocketService

namespace SelectSystem

open SelectSocketService

theorem table_of_run {spurious : Bool} {system after : SelectSystem} {actions : List Action}
    (table : Table system.service.events)
    (execution : Runs.run (step spurious) system actions = some after) :
    Table after.service.events := by
  refine @Runs.Reachable.invariant _ _ _ _ (fun system => Table system.service.events) table ?_ _
    ⟨actions, execution⟩
  intro before action after table step_eq
  cases step_cases step_eq with
  | start => exact table
  | perform call => exact perform_table table call
  | notify => exact table
  | enter => exact table
  | refused => exact table
  | leave => exact table
  | stop => exact Table.nil
  | stopped => exact table
  | resume => exact table
  | callback => exact table

/-- Whatever other threads do between the two sections of `Execute`, it returns for each socket
other than the notification socket the operations that were registered when it built its sets,
are registered when it takes the lock again, and were reported by `select`. -/
theorem execute_returns_current {spurious : Bool} {before later : SelectSystem}
    {begun after : SelectSocketService} {call : SelectCall} {actions : List Action}
    {reads writes errors : Finset Socket} {fault : Option (Nat × Failure)}
    {results : List SocketEvent}
    (reachable : Runs.Reachable (step spurious) {} before)
    (entered : executeBegin before.service = (begun, .ok call))
    (between : Runs.run (step spurious)
      { before with service := begun, polls := before.polls ++ [call] } actions = some later)
    (reads_subset : reads ⊆ call.reads) (writes_subset : writes ⊆ call.writes)
    (errors_subset : errors ⊆ call.errors)
    (left : executeEnd later.service call.notify (.ready reads writes errors) fault =
      (after, .ok results)) :
    (∀ event ∈ results, event.sock ≠ call.notify ∧ event.events ≠ .none ∧
        event.events =
          current before.service.events later.service.events reads writes errors event.sock) ∧
      (∀ sock, sock ≠ call.notify →
        current before.service.events later.service.events reads writes errors sock ≠ .none →
        ⟨sock, current before.service.events later.service.events reads writes errors sock⟩ ∈
          results) ∧
      (results.map SocketEvent.sock).Nodup := by
  obtain ⟨earlier, execution⟩ := reachable
  have built : Table before.service.events := @table_of_run _ {} _ _ Table.nil execution
  have begun_events : begun.events = before.service.events := by
    unfold executeBegin at entered
    split at entered
    · cases entered
    · obtain rfl := (Prod.mk.inj entered).1
      rfl
  have retaken : Table later.service.events := by
    refine table_of_run ?_ between
    rw [begun_events]
    exact built
  obtain ⟨_, rfl⟩ := results_eq_collect left
  -- a reported operation was watched, so it was registered when the sets were built
  have current_eq (sock : Socket) (other : sock ≠ call.notify) :
      operations later.service.events sock &&& inSets reads writes errors sock =
        current before.service.events later.service.events reads writes errors sock := by
    have watched := inSets_subset reads_subset writes_subset errors_subset sock
    rw [show inSets call.reads call.writes call.errors sock = _ from
      watched_executeBegin built entered other] at watched
    calc
      operations later.service.events sock &&& inSets reads writes errors sock =
          operations later.service.events sock &&& (inSets reads writes errors sock &&&
            (operations before.service.events sock &&& .ofFlags true true true)) := by
        rw [watched]
      _ = operations before.service.events sock &&& operations later.service.events sock &&&
            (inSets reads writes errors sock &&& .ofFlags true true true) := by
        ac_rfl
      _ = current before.service.events later.service.events reads writes errors sock := by
        rw [inSets_le, current]
  refine ⟨?_, ?_, ?_⟩
  · intro event member
    obtain ⟨other, nonempty, mask⟩ :=
      (mem_collect_iff_operations retaken _ _ _ _ event).mp member
    exact ⟨other, nonempty, mask.trans (current_eq event.sock other)⟩
  · intro sock other nonempty
    exact (mem_collect_iff_operations retaken _ _ _ _ _).mpr
      ⟨other, nonempty, (current_eq sock other).symm⟩
  · exact retaken.nodup.sublist (sublist_collect _ _ _ _ _)

/-- Socket 5 loses its write interest and socket 6 is closed while `select` reports both. -/
theorem execute_returns_current_narrowed :
    ∃ before later begun after call results,
      Runs.Reachable (step false) {} before ∧
        executeBegin before.service = (begun, .ok call) ∧
        Runs.run (step false) { before with service := begun, polls := before.polls ++ [call] }
          [.perform (.remove 5 .write), .perform (.close 6)] = some later ∧
        executeEnd later.service call.notify (.ready {5, 6} {5} ∅) none = (after, .ok results) ∧
        results = [⟨5, .read⟩] ∧ (results.map SocketEvent.sock).Nodup := by
  have reachable : Runs.Reachable (step false) {} _ :=
    ⟨[.start (.ok (10, 11)), .perform (.add 5 .readWrite), .perform (.add 6 .read)], rfl⟩
  refine ⟨_, _, _, _, _, _, reachable, rfl, rfl, rfl, by decide, ?_⟩
  exact (@execute_returns_current false _ _ _ _ _
    [.perform (.remove 5 .write), .perform (.close 6)] {5, 6} {5} ∅ none _ reachable rfl rfl
    (by decide) (by decide) (by decide) rfl).2.2

end SelectSystem
end Fusion
