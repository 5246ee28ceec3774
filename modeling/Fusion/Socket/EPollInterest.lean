import Fusion.Socket.EPollRegistry

/-!
# Accumulated interest in the epoll service

Successful `Add` calls for one socket are meant to accumulate: the map and the kernel should both
end with the union of all the sets passed.  They do exactly when no `Add` asks for a strict
superset of what is registered, for the guard of the merge drops such a request.
-/

namespace Fusion.EPollSystem

open EPollSocketService

/-! ## Calls for other sockets -/

/-- The two systems agree on every other socket. -/
def AgreeOff (sock : Socket) (before after : EPollSystem) : Prop :=
  ∀ other, other ≠ sock →
    after.registered other = before.registered other ∧ after.kernel other = before.kernel other

theorem agreeOff_self (sock : Socket) (system : EPollSystem) : AgreeOff sock system system :=
  fun _ _ => ⟨rfl, rfl⟩

variable {sock : Socket}

theorem epollCtl_of_ne (kernel : Socket → Option (BitVec 32)) (operation : ControlOperation)
    (event : BitVec 32) (outcome : Result Unit) {other : Socket} (elsewhere : other ≠ sock) :
    epollCtl kernel operation sock event outcome other = kernel other := by
  cases outcome with
  | error failure => rfl
  | ok _ => cases operation <;> exact Function.update_of_ne elsewhere _ _

variable {after before : EPollSystem}

theorem agreeOff_of_update {ops : Option SocketOperation} (operation : ControlOperation)
    (event : BitVec 32) (outcome : Result Unit)
    (registered_eq : after.registered = Function.update before.registered sock ops)
    (kernel_eq : after.kernel = epollCtl before.kernel operation sock event outcome) :
    AgreeOff sock before after := by
  intro other elsewhere
  rw [registered_eq, kernel_eq, Function.update_of_ne elsewhere,
    epollCtl_of_ne before.kernel operation event outcome elsewhere]
  exact ⟨rfl, rfl⟩

theorem add_agreeOff (system : EPollSystem) (sock : Socket) (events : SocketOperation)
    (outcome : Result Unit) : AgreeOff sock system (system.add sock events outcome).1 := by
  unfold add
  split_ifs
  · exact agreeOff_self sock system
  · exact agreeOff_self sock system
  · exact agreeOff_self sock system
  · exact agreeOff_self sock system
  · split
    · exact agreeOff_of_update .mod _ outcome (registered_insert ..) rfl
    · cases outcome with
      | error failure => exact agreeOff_self sock system
      | ok _ =>
        exact agreeOff_of_update .add _ (.ok ()) (registered_insert ..) rfl

theorem close_agreeOff (system : EPollSystem) (sock : Socket) (outcome : Result Unit) :
    AgreeOff sock system (system.close sock outcome).1 := by
  unfold close
  split_ifs
  · exact agreeOff_self sock system
  · exact agreeOff_self sock system
  · exact agreeOff_self sock system
  · split
    · cases outcome with
      | error failure => exact agreeOff_self sock system
      | ok _ =>
        exact agreeOff_of_update .del 0 (.ok ()) (registered_erase ..) rfl
    · exact agreeOff_self sock system

theorem remove_agreeOff (system : EPollSystem) (sock : Socket) (events : SocketOperation)
    (outcome : Result Unit) : AgreeOff sock system (system.remove sock events outcome).1 := by
  unfold remove
  split_ifs
  · exact agreeOff_self sock system
  · exact agreeOff_self sock system
  · exact agreeOff_self sock system
  · exact agreeOff_self sock system
  · split
    · split_ifs
      · dsimp only
        split_ifs
        · cases outcome with
          | error failure =>
            exact agreeOff_of_update .del 0 (.error failure) (registered_insert ..) rfl
          | ok _ => exact agreeOff_of_update .del 0 (.ok ()) (registered_erase_insert ..) rfl
        · exact agreeOff_of_update .mod _ outcome (registered_insert ..) rfl
      · exact agreeOff_self sock system
    · exact agreeOff_self sock system

/-! ## Calls for the socket itself -/

/-- The operations of a registered socket after a call of `Add` that is not refused. -/
def widened (old : Option SocketOperation) (events : SocketOperation) : SocketOperation :=
  match old with
  | some old => old.merge events
  | none => events

/-- A successful `Add` gives the map and the kernel the same operations. -/
theorem add_succeeds {events : SocketOperation} {outcome : Result Unit}
    (nonempty : events ≠ .none)
    (added : before.add sock events outcome = (after, .ok ())) :
    after.registered sock = some (widened (before.registered sock) events) ∧
      after.kernel sock = some (toEPollEvents (widened (before.registered sock) events)) := by
  unfold add at added
  split_ifs at added
  · cases added
  · cases added
  · cases added
  cases found : before.registered sock with
  | some old =>
    have lookup_eq : before.service.events.lookup sock = some old := found
    simp only [lookup_eq, Prod.mk.injEq] at added
    obtain ⟨rfl, succeeded⟩ := added
    cases outcome with
    | error failure => cases succeeded
    | ok _ =>
      rw [registered_insert]
      exact ⟨Function.update_self .., Function.update_self ..⟩
  | none =>
    have lookup_eq : before.service.events.lookup sock = none := found
    simp only [lookup_eq, Prod.mk.injEq] at added
    obtain ⟨rfl, succeeded⟩ := added
    cases outcome with
    | error failure => cases succeeded
    | ok _ =>
      dsimp only
      rw [registered_insert]
      exact ⟨Function.update_self .., Function.update_self ..⟩

/-- A call while interest in the socket accumulates: a successful `Add` of a non-empty set for it,
or any call for another socket. -/
def accumulate (sock : Socket) (system : EPollSystem) : Call → Option EPollSystem
  | .add other events outcome =>
    if other = sock then
      if events = .none then none
      else
        match system.add sock events outcome with
        | (after, .ok ()) => some after
        | (_, .error _) => none
    else some (system.add other events outcome).1
  | .remove other events outcome =>
    if other = sock then none else some (system.remove other events outcome).1
  | .close other outcome => if other = sock then none else some (system.close other outcome).1
  | .start .. => none
  | .stop => none

/-- The union of the sets passed to `Add` for the socket, if there is one. -/
def requested (sock : Socket) (calls : List Call) : Option SocketOperation :=
  calls.foldl
    (fun union call =>
      match call with
      | .add other events _ =>
        if other = sock then some (union.getD .none ||| events) else union
      | _ => union)
    none

/-- The map and the kernel have the union of the sets passed to `Add` for the socket. -/
structure Accumulated (sock : Socket) (calls : List Call) (system : EPollSystem) : Prop where
  registered_eq : system.registered sock = requested sock calls
  kernel_eq : ∀ union, requested sock calls = some union →
    system.kernel sock = some (toEPollEvents union)

/-- The call does not ask the registered socket for a strict superset of its operations. -/
def Call.Merges (sock : Socket) (system : EPollSystem) : Call → Prop
  | .add other events _ =>
    other = sock → ∀ old, system.registered sock = some old → old ||| events = events → old = events
  | _ => True

variable {call : Call}

theorem requested_concat_of_ne (calls : List Call)
    (elsewhere : ∀ events outcome, call ≠ .add sock events outcome) :
    requested sock (calls ++ [call]) = requested sock calls := by
  unfold requested
  rw [List.foldl_append]
  cases call with
  | add other events outcome =>
    have other_ne : other ≠ sock := by
      rintro rfl
      exact elsewhere events outcome rfl
    simp [other_ne]
  | start => rfl
  | remove => rfl
  | close => rfl
  | stop => rfl

theorem requested_concat_add (sock : Socket) (calls : List Call) (events : SocketOperation)
    (outcome : Result Unit) :
    requested sock (calls ++ [.add sock events outcome]) =
      some ((requested sock calls).getD .none ||| events) := by
  unfold requested
  rw [List.foldl_append]
  simp

/-- What one of these calls does: an `Add` for the socket widens it on both sides and touches no
other socket, and a call for another socket does not touch this one. -/
theorem accumulate_cases (accumulated : accumulate sock before call = some after) :
    (∃ events outcome, call = .add sock events outcome ∧ AgreeOff sock before after ∧
        after.registered sock = some (widened (before.registered sock) events) ∧
        after.kernel sock = some (toEPollEvents (widened (before.registered sock) events))) ∨
      ((∀ events outcome, call ≠ .add sock events outcome) ∧
        after.registered sock = before.registered sock ∧
        after.kernel sock = before.kernel sock) := by
  cases call with
  | start => cases accumulated
  | stop => cases accumulated
  | add other events outcome =>
    simp only [accumulate] at accumulated
    split_ifs at accumulated with same empty
    · subst same
      split at accumulated
      · rename_i added_system added
        obtain rfl := Option.some.inj accumulated
        refine .inl ⟨events, outcome, rfl, ?_, add_succeeds empty added⟩
        have agree := add_agreeOff before other events outcome
        rwa [added] at agree
      · cases accumulated
    · obtain rfl := Option.some.inj accumulated
      refine .inr ⟨?_, add_agreeOff before other events outcome sock (Ne.symm same)⟩
      rintro _ _ call_eq
      exact same (Call.add.inj call_eq).1
  | remove other events outcome =>
    simp only [accumulate] at accumulated
    split_ifs at accumulated with same
    obtain rfl := Option.some.inj accumulated
    exact .inr ⟨nofun, remove_agreeOff before other events outcome sock (Ne.symm same)⟩
  | close other outcome =>
    simp only [accumulate] at accumulated
    split_ifs at accumulated with same
    obtain rfl := Option.some.inj accumulated
    exact .inr ⟨nofun, close_agreeOff before other outcome sock (Ne.symm same)⟩

theorem widened_eq_or_iff (old : Option SocketOperation) (events : SocketOperation) :
    widened old events = old.getD .none ||| events ↔
      ∀ value, old = some value → value ||| events = events → value = events := by
  cases old with
  | none => simp [widened, SocketOperation.none]
  | some old => simp [widened, SocketOperation.merge_eq_or_iff]

theorem accumulated_concat_iff {calls : List Call} (earlier : Accumulated sock calls before)
    (accumulated : accumulate sock before call = some after) :
    Accumulated sock (calls ++ [call]) after ↔ call.Merges sock before := by
  rcases accumulate_cases accumulated with
    ⟨events, outcome, rfl, _, registered_eq, kernel_eq⟩ | ⟨elsewhere, registered_eq, kernel_eq⟩
  · have merges_iff : (Call.add sock events outcome).Merges sock before ↔
        widened (before.registered sock) events = (requested sock calls).getD .none ||| events := by
      rw [← earlier.registered_eq, widened_eq_or_iff]
      exact ⟨fun merges => merges rfl, fun merges _ => merges⟩
    rw [merges_iff]
    constructor
    · intro accumulated
      have recorded := accumulated.registered_eq
      rw [registered_eq, requested_concat_add] at recorded
      exact Option.some.inj recorded
    · intro union
      refine ⟨?_, ?_⟩
      · rw [registered_eq, requested_concat_add, union]
      · intro total total_eq
        rw [requested_concat_add] at total_eq
        rw [kernel_eq, union, Option.some.inj total_eq]
  · refine iff_of_true ⟨?_, ?_⟩ ?_
    · rw [registered_eq, requested_concat_of_ne calls elsewhere, earlier.registered_eq]
    · intro union union_eq
      rw [requested_concat_of_ne calls elsewhere] at union_eq
      rw [kernel_eq, earlier.kernel_eq union union_eq]
    · cases call with
      | add other events outcome =>
        rintro rfl
        exact absurd rfl (elsewhere events outcome)
      | start => trivial
      | remove => trivial
      | close => trivial
      | stop => trivial

/-- From a system that has not registered the socket, the map and the kernel have the union of the
sets passed for it after every call exactly when no `Add` asks for a strict superset of what is
registered.  The `Add` calls for the socket change no other one. -/
theorem accumulated_iff_merges {initial : EPollSystem} {sock : Socket}
    (unregistered : initial.registered sock = none) (calls : List Call) :
    (Runs.EveryState (accumulate sock) initial (Accumulated sock) calls ↔
        Runs.EveryStep (accumulate sock) initial (fun _ before call _ => call.Merges sock before)
          calls) ∧
      Runs.EveryStep (accumulate sock) initial
        (fun _ before call after => ∀ events outcome, call = .add sock events outcome →
          AgreeOff sock before after) calls := by
  have start : Accumulated sock [] initial := by
    refine ⟨unregistered, ?_⟩
    intro union union_eq
    cases union_eq
  refine ⟨?_, ?_⟩
  · rw [Runs.everyState_iff_everyStep start]
    refine @Runs.everyStep_iff _ _ _ _ _ _ (Accumulated sock) start ?_ ?_ calls
    · intro front before call after earlier accumulated
      exact accumulated_concat_iff earlier accumulated
    · intro front before call after earlier accumulated merges
      exact (accumulated_concat_iff earlier accumulated).mpr merges
  · rintro front call back before after rfl _ accumulated events outcome rfl
    rcases accumulate_cases accumulated with ⟨_, _, _, agree, _⟩ | ⟨elsewhere, _⟩
    · exact agree
    · exact absurd rfl (elsewhere events outcome)

/-- Reads and then writes, each with errors, beside another socket. -/
theorem accumulated_accept_then_write :
    Runs.EveryState (accumulate 5) (startAndAdd 8 .read) (Accumulated 5)
      [.add 5 .accept (.ok ()), .close 8 (.ok ()), .add 5 (.write ||| .error) (.ok ())] := by
  refine (accumulated_iff_merges (by decide +kernel) _).1.mpr ?_
  refine Runs.everyStep_cons rfl (fun _ old found => ?_) ?_
  · cases found
  refine Runs.everyStep_cons rfl trivial ?_
  refine Runs.everyStep_cons rfl (fun _ old found => ?_) (Runs.everyStep_nil _ _ _)
  cases found
  decide

/-- Asking for reads and then for reads and writes leaves both sides without writes. -/
theorem not_accumulated_read_then_readWrite :
    ¬ Runs.EveryState (accumulate 5) (startAndAdd 8 .read) (Accumulated 5)
      [.add 5 .read (.ok ()), .add 5 .readWrite (.ok ())] := by
  intro every
  have accumulated := every [.add 5 .read (.ok ()), .add 5 .readWrite (.ok ())] [] _ rfl rfl
  exact absurd accumulated.registered_eq (by decide +kernel)

end Fusion.EPollSystem
