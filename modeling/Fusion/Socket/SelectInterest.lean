import Mathlib.Data.List.Nodup
import Fusion.Socket.Select

/-!
# The interest set of the select service

The table of a select service is compared with the map from sockets to operation sets that its
successful calls describe.  The two agree after every call exactly when no `Add` asks a registered
socket for a strict superset of its operations: the guard of the merge compares the union with the
requested set where it should compare it with the recorded one.
-/

namespace Fusion.SelectSocketService

/-! ## Tables -/

/-- The operations recorded for a socket; a socket without an entry has none. -/
def operations (events : List SocketEvent) (sock : Socket) : SocketOperation :=
  (registered events sock).getD .none

/-- No socket has two entries and no entry is empty. -/
structure Table (events : List SocketEvent) : Prop where
  nodup : (events.map SocketEvent.sock).Nodup
  nonempty : ∀ event ∈ events, event.events ≠ .none

@[simp]
theorem registered_nil (sock : Socket) : registered [] sock = none := rfl

variable (events : List SocketEvent) (event : SocketEvent)

theorem registered_cons (events : List SocketEvent) (sock : Socket) :
    registered (event :: events) sock =
      if event.sock = sock then some event.events else registered events sock := by
  unfold registered
  rw [List.find?_cons]
  by_cases same : event.sock = sock
  · simp [same]
  · rw [beq_false_of_ne same, if_neg same]

variable {events : List SocketEvent}

theorem registered_eq_none_iff {sock : Socket} :
    registered events sock = none ↔ sock ∉ events.map SocketEvent.sock := by
  induction events with
  | nil => simp
  | cons event events ih =>
    rw [registered_cons]
    by_cases same : event.sock = sock
    · simp [same]
    · simp [same, ih, Ne.symm same]

theorem registered_append (sock : Socket) :
    registered (events ++ [event]) sock =
      (registered events sock).or (if event.sock = sock then some event.events else none) := by
  induction events with
  | nil => simp [registered_cons]
  | cons head events ih =>
    rw [List.cons_append, registered_cons, registered_cons, ih]
    by_cases same : head.sock = sock <;> simp [same]

theorem assign_cons (events : List SocketEvent) (sock : Socket) (value : SocketOperation) :
    assign (event :: events) sock value =
      if event.sock = sock then { event with events := value } :: events
      else event :: assign events sock value := by
  unfold assign
  by_cases same : event.sock = sock <;> simp [same]

theorem map_sock_assign (sock : Socket) (value : SocketOperation) :
    (assign events sock value).map SocketEvent.sock = events.map SocketEvent.sock := by
  induction events with
  | nil => rfl
  | cons event events ih =>
    rw [assign_cons]
    by_cases same : event.sock = sock
    · simp [same]
    · simp [same, ih]

theorem registered_assign (sock other : Socket) (value : SocketOperation) :
    registered (assign events sock value) other =
      if other = sock then (registered events sock).map fun _ => value
      else registered events other := by
  induction events with
  | nil => simp [assign]
  | cons event events ih =>
    rw [assign_cons]
    by_cases same : event.sock = sock
    · by_cases here : other = sock
      · simp [registered_cons, same, here]
      · have elsewhere : event.sock ≠ other := fun equality => here (equality.symm.trans same)
        simp [registered_cons, same, here, Ne.symm here]
    · rw [if_neg same, registered_cons, registered_cons, registered_cons, ih]
      by_cases here : other = sock
      · simp [here, same]
      · simp [here]

theorem erase_cons (events : List SocketEvent) (sock : Socket) :
    erase (event :: events) sock =
      if event.sock = sock then events else event :: erase events sock := by
  unfold erase
  rw [List.eraseP_cons]
  by_cases same : event.sock = sock
  · simp [same]
  · rw [beq_false_of_ne same, if_neg same, cond_false]

theorem erase_assign (sock : Socket) (value : SocketOperation) :
    erase (assign events sock value) sock = erase events sock := by
  induction events with
  | nil => rfl
  | cons event events ih =>
    rw [assign_cons, erase_cons]
    by_cases same : event.sock = sock
    · simp [same, erase_cons]
    · simp [same, erase_cons, ih]

theorem registered_erase (sock other : Socket) (nodup : (events.map SocketEvent.sock).Nodup) :
    registered (erase events sock) other =
      if other = sock then none else registered events other := by
  induction events with
  | nil => simp [erase]
  | cons event events ih =>
    obtain ⟨absent, tail_nodup⟩ := List.nodup_cons.mp nodup
    rw [erase_cons]
    by_cases same : event.sock = sock
    · rw [if_pos same]
      by_cases here : other = sock
      · rw [if_pos here, registered_eq_none_iff, here, ← same]
        exact absent
      · have elsewhere : event.sock ≠ other := fun equality => here (equality.symm.trans same)
        rw [if_neg here, registered_cons, if_neg elsewhere]
    · rw [if_neg same, registered_cons, registered_cons, ih tail_nodup]
      by_cases here : other = sock
      · simp [here, same]
      · simp [here]

namespace Table

theorem nil : Table [] := ⟨List.nodup_nil, by simp⟩

theorem append {events : List SocketEvent} (table : Table events) {event : SocketEvent}
    (absent : registered events event.sock = none)
    (nonempty : event.events ≠ .none) : Table (events ++ [event]) where
  nodup := by
    rw [List.map_append, List.nodup_append]
    refine ⟨table.nodup, by simp, ?_⟩
    rintro left left_mem right right_mem rfl
    obtain rfl : left = event.sock := by simpa using right_mem
    exact registered_eq_none_iff.mp absent left_mem
  nonempty := by
    intro entry member
    obtain old | new := List.mem_append.mp member
    · exact table.nonempty entry old
    · obtain rfl : entry = event := by simpa using new
      exact nonempty

theorem erase (table : Table events) (sock : Socket) :
    Table (SelectSocketService.erase events sock) where
  nodup := table.nodup.sublist (List.eraseP_sublist.map SocketEvent.sock)
  nonempty event member := table.nonempty event (List.mem_of_mem_eraseP member)

theorem assign (table : Table events) (sock : Socket) {value : SocketOperation}
    (nonempty : value ≠ .none) :
    Table (SelectSocketService.assign events sock value) where
  nodup := by
    rw [map_sock_assign]
    exact table.nodup
  nonempty := by
    have entries := table.nonempty
    clear table
    induction events with
    | nil => simp [SelectSocketService.assign]
    | cons event events ih =>
      rw [List.forall_mem_cons] at entries
      rw [assign_cons]
      split
      · exact List.forall_mem_cons.mpr ⟨nonempty, entries.2⟩
      · exact List.forall_mem_cons.mpr ⟨entries.1, ih entries.2⟩

theorem isSome_registered_iff (table : Table events) (sock : Socket) :
    (registered events sock).isSome ↔ operations events sock ≠ .none := by
  unfold operations
  cases found : registered events sock with
  | none => simp
  | some value =>
    have value_ne : value ≠ .none := by
      obtain ⟨event, find_eq, rfl⟩ := Option.map_eq_some_iff.mp found
      exact table.nonempty event (List.mem_of_find?_eq_some find_eq)
    simpa using value_ne

end Table

/-! ## Calls -/

/-- A call that names one socket. -/
inductive Call
  | add (sock : Socket) (events : SocketOperation)
  | remove (sock : Socket) (events : SocketOperation)
  | close (sock : Socket)
deriving DecidableEq, Repr

namespace Call

/-- The socket that a call names. -/
def sock : Call → Socket
  | add sock _ => sock
  | remove sock _ => sock
  | close sock => sock

def perform (service : SelectSocketService) : Call → SelectSocketService × Result Unit
  | add sock events => service.add sock events
  | remove sock events => service.remove sock events
  | close sock => service.close sock

/-- Make the call if it succeeds. -/
def succeed (service : SelectSocketService) (call : Call) : Option SelectSocketService :=
  match call.perform service with
  | (after, .ok ()) => some after
  | (_, .error _) => none

/-- What a call means for the operation set of its socket: union, difference, clear. -/
def apply (old : SocketOperation) : Call → SocketOperation
  | add _ events => old ||| events
  | remove _ events => old &&& ~~~events
  | close _ => .none

/-- What the code makes of the operation set of the call's socket. -/
def effect (old : SocketOperation) : Call → SocketOperation
  | add _ events => if old = .none then events else old.merge events
  | remove _ events => old &&& ~~~events
  | close _ => .none

/-- The call does not ask a registered socket for a strict superset of its operations. -/
def Merges (old : SocketOperation) : Call → Prop
  | add _ events => old = .none ∨ old ||| events ≠ events ∨ old = events
  | remove _ _ => True
  | close _ => True

end Call

/-- The operation set that a sequence of calls describes for a socket. -/
def interest (sock : Socket) (calls : List Call) : SocketOperation :=
  (calls.filter fun call => call.sock = sock).foldl Call.apply .none

theorem interest_concat (sock : Socket) (calls : List Call) (call : Call) :
    interest sock (calls ++ [call]) =
      if call.sock = sock then call.apply (interest sock calls) else interest sock calls := by
  unfold interest
  rw [List.filter_append, List.foldl_append]
  by_cases same : call.sock = sock <;> simp [same]

@[simp]
theorem events_notifyLocked (service : SelectSocketService) :
    (notifyLocked service).events = service.events := by
  unfold notifyLocked
  split <;> rfl

theorem Call.effect_eq_apply_iff (old : SocketOperation) (call : Call) :
    call.effect old = call.apply old ↔ call.Merges old := by
  cases call with
  | remove => simp [effect, apply, Merges]
  | close => simp [effect, apply, Merges]
  | add sock events =>
    simp only [effect, apply, Merges]
    by_cases empty : old = .none
    · simp [empty, SocketOperation.none]
    · rw [if_neg empty, SocketOperation.merge_eq_or_iff, imp_iff_not_or]
      simp only [empty, false_or, ne_eq]

/-- What one successful call does to the table: it keeps its shape, changes the call's own socket
by the call's effect and no other socket. -/
structure Effects (before after : List SocketEvent) (call : Call) : Prop where
  table : Table after
  frame : ∀ other, other ≠ call.sock → registered after other = registered before other
  own : operations after call.sock = call.effect (operations before call.sock)

variable {service : SelectSocketService}

theorem add_effects {sock : Socket} (events : SocketOperation) (table : Table service.events)
    (valid : sock ≠ invalidSocket) :
    Effects service.events (service.add sock events).1.events (.add sock events) := by
  rw [add, if_neg valid]
  by_cases empty : events = .none
  · rw [if_pos empty]
    refine ⟨table, fun _ _ => rfl, ?_⟩
    simp only [Call.sock, Call.effect, empty, SocketOperation.merge_none]
    split
    · assumption
    · rfl
  · rw [if_neg empty]
    have old_ne := table.isSome_registered_iff sock
    cases found : registered service.events sock with
    | none =>
      rw [found] at old_ne
      refine ⟨?_, ?_, ?_⟩
      · have appended : Table (service.events ++ [⟨sock, events⟩]) := table.append found empty
        simpa using appended
      · intro other (elsewhere : other ≠ sock)
        simp [registered_append, Ne.symm elsewhere]
      · simp [operations, registered_append, found, Call.sock, Call.effect]
    | some old =>
      rw [found] at old_ne
      have old_nonempty : old ≠ .none := by
        simpa [operations, found] using old_ne
      refine ⟨?_, ?_, ?_⟩
      · simpa using table.assign sock (SocketOperation.merge_ne_none events old_nonempty)
      · intro other (elsewhere : other ≠ sock)
        simp [registered_assign, elsewhere]
      · simp [operations, registered_assign, found, old_nonempty, Call.sock, Call.effect]

theorem remove_effects {sock : Socket} (events : SocketOperation) (table : Table service.events)
    (valid : sock ≠ invalidSocket) :
    Effects service.events (service.remove sock events).1.events (.remove sock events) := by
  rw [remove, if_neg valid]
  by_cases empty : events = .none
  · rw [if_pos empty]
    refine ⟨table, fun _ _ => rfl, ?_⟩
    simp only [Call.sock, Call.effect, empty]
    exact (BitVec.and_allOnes).symm
  · rw [if_neg empty]
    cases found : registered service.events sock with
    | none =>
      refine ⟨table, fun _ _ => rfl, ?_⟩
      simp [operations, found, Call.sock, Call.effect, SocketOperation.none]
    | some old =>
      have kept_eq :
          (if old &&& events ≠ .none then old &&& ~~~events else old) = old &&& ~~~events := by
        split
        · rfl
        · rename_i disjoint
          exact (SocketOperation.and_not_of_disjoint (not_not.mp disjoint)).symm
      simp only [kept_eq, events_notifyLocked]
      by_cases dropped : old &&& ~~~events = .none
      · rw [if_pos dropped, erase_assign]
        refine ⟨table.erase sock, ?_, ?_⟩
        · intro other (elsewhere : other ≠ sock)
          simp [registered_erase sock other table.nodup, elsewhere]
        · simp [operations, registered_erase sock sock table.nodup, found, Call.sock,
            Call.effect, dropped]
      · rw [if_neg dropped]
        refine ⟨table.assign sock dropped, ?_, ?_⟩
        · intro other (elsewhere : other ≠ sock)
          simp [registered_assign, elsewhere]
        · simp [operations, registered_assign, found, Call.sock, Call.effect]

theorem close_effects {sock : Socket} (table : Table service.events)
    (valid : sock ≠ invalidSocket) :
    Effects service.events (service.close sock).1.events (.close sock) := by
  rw [close, if_neg valid]
  by_cases found : (registered service.events sock).isSome
  · rw [if_pos found]
    refine ⟨?_, ?_, ?_⟩
    · simpa using table.erase sock
    · intro other (elsewhere : other ≠ sock)
      simp [registered_erase sock other table.nodup, elsewhere]
    · simp [operations, registered_erase sock sock table.nodup, Call.sock, Call.effect]
  · rw [if_neg found]
    refine ⟨table, fun _ _ => rfl, ?_⟩
    have absent := (table.isSome_registered_iff sock).not.mp found
    simpa [Call.sock, Call.effect] using absent

variable {after before : SelectSocketService} {call : Call}

theorem succeed_effects (table : Table before.events) (success : call.succeed before = some after) :
    Effects before.events after.events call := by
  have performed : call.perform before = (after, .ok ()) := by
    unfold Call.succeed at success
    split at success
    · rename_i performed
      rw [performed, Option.some.inj success]
    · cases success
  cases call with
  | add sock events =>
    have valid : sock ≠ invalidSocket := by
      rintro rfl
      simp [Call.perform, add] at performed
    have effects := add_effects events table valid
    rwa [show before.add sock events = (after, .ok ()) from performed] at effects
  | remove sock events =>
    have valid : sock ≠ invalidSocket := by
      rintro rfl
      simp [Call.perform, remove] at performed
    have effects := remove_effects events table valid
    rwa [show before.remove sock events = (after, .ok ()) from performed] at effects
  | close sock =>
    have valid : sock ≠ invalidSocket := by
      rintro rfl
      simp [Call.perform, close] at performed
    have effects := close_effects table valid
    rwa [show before.close sock = (after, .ok ()) from performed] at effects

/-! ## Sequences of calls -/

/-- The table records what the calls describe: equal operation sets, and an entry exactly for each
non-empty one. -/
def Records (calls : List Call) (service : SelectSocketService) : Prop :=
  ∀ sock, operations service.events sock = interest sock calls ∧
    ((registered service.events sock).isSome ↔ interest sock calls ≠ .none)

theorem records_concat_iff {calls : List Call} (table : Table before.events)
    (records : Records calls before) (success : call.succeed before = some after) :
    Records (calls ++ [call]) after ↔ call.Merges (operations before.events call.sock) := by
  have effects := succeed_effects table success
  rw [← Call.effect_eq_apply_iff, ← effects.own, (records call.sock).1]
  constructor
  · intro recorded
    have own := (recorded call.sock).1
    rwa [interest_concat, if_pos rfl] at own
  · intro own sock
    have recorded : operations after.events sock = interest sock (calls ++ [call]) := by
      rw [interest_concat]
      by_cases same : call.sock = sock
      · rw [if_pos same, ← same]
        exact own
      · rw [if_neg same, ← (records sock).1]
        unfold operations
        rw [effects.frame sock (Ne.symm same)]
    exact ⟨recorded, recorded ▸ effects.table.isSome_registered_iff sock⟩

/-- Along a sequence of successful calls the table records what the calls describe after every
call exactly when no `Add` asks a registered socket for a strict superset of its operations.  No
call changes a socket that it does not name. -/
theorem records_iff_merges (initial : SelectSocketService) (empty : initial.events = [])
    (calls : List Call) :
    (Runs.EveryState Call.succeed initial Records calls ↔
        Runs.EveryStep Call.succeed initial
          (fun _ before call _ => call.Merges (operations before.events call.sock)) calls) ∧
      Runs.EveryStep Call.succeed initial
        (fun _ before call after => ∀ other, other ≠ call.sock →
          registered after.events other = registered before.events other) calls := by
  have table : Table initial.events := by
    rw [empty]
    exact Table.nil
  have start : Records [] initial := by
    intro sock
    simp [operations, empty, interest]
  refine ⟨?_, ?_⟩
  · rw [Runs.everyState_iff_everyStep start]
    refine @Runs.everyStep_iff _ _ _ _ _ _
      (fun front service => Table service.events ∧ Records front service) ⟨table, start⟩ ?_ ?_ calls
    · rintro front before call after ⟨before_table, records⟩ success
      exact records_concat_iff before_table records success
    · rintro front before call after ⟨before_table, records⟩ success merges
      exact ⟨(succeed_effects before_table success).table,
        (records_concat_iff before_table records success).mpr merges⟩
  · rintro front call back before after rfl execution success
    have before_table : Table before.events := by
      refine @Runs.Reachable.invariant _ _ _ _ (fun service => Table service.events) table ?_ _
        ⟨front, execution⟩
      intro before call after before_table success
      exact (succeed_effects before_table success).table
    exact (succeed_effects before_table success).frame

/-- Two sockets, overlapping requests and a removal, none of which loses an operation. -/
theorem records_iff_merges_two_sockets :
    Runs.EveryState Call.succeed {} Records
      [.add 3 .read, .add 4 .accept, .add 3 .write, .remove 4 .read, .close 3] := by
  refine (records_iff_merges {} rfl _).1.mpr ?_
  refine Runs.everyStep_cons rfl (.inl rfl) ?_
  refine Runs.everyStep_cons rfl (.inl rfl) ?_
  refine Runs.everyStep_cons rfl (.inr (.inl (by decide))) ?_
  refine Runs.everyStep_cons rfl trivial ?_
  exact Runs.everyStep_cons rfl trivial (Runs.everyStep_nil _ _ _)

/-- Asking for reads and then for reads and writes leaves the socket without writes. -/
theorem not_records_read_then_readWrite :
    ¬ Runs.EveryState Call.succeed {} Records [.add 3 .read, .add 3 .readWrite] := by
  intro every
  have records := every [.add 3 .read, .add 3 .readWrite] [] _ rfl rfl
  have lost := (records 3).1
  revert lost
  decide

end Fusion.SelectSocketService
