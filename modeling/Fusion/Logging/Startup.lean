import Fusion.Library.Runs
import Mathlib.Logic.Function.Basic

/-!
# Starting and stopping the logging system

`Start` and `Stop` look at the flag, take the lock and look again; `Instance` looks at the flag and
copies the pointer without the lock.  Each access to the flag, the pointer or the lock is one step
of a thread.
-/

namespace Fusion.Logging

open Runs

/-! ## Threads -/

inductive Call
  | start
  | stop
  | getInstance
deriving DecidableEq, Repr

/-- What a thread does next. -/
inductive Place
  | idle
  | startLooks
  | startLocks
  | startLooksAgain
  | startCreates
  | startRaises
  | startUnlocks
  | stopLooks
  | stopLocks
  | stopLooksAgain
  | stopResets
  | stopLowers
  | stopUnlocks
  | instanceLooks
  | instanceCopies
deriving DecidableEq, Repr

/-- A call that has returned. -/
inductive Event
  | started
  | stopped
  /-- The root that `Instance` returned, or null. -/
  | gotInstance (root : Option Nat)
deriving DecidableEq, Repr

/-- The static members, and where each thread is. -/
structure State where
  /-- `s_started`. -/
  started : Bool := false
  /-- `s_instance`; the roots are numbered in the order of their creation. -/
  root : Option Nat := none
  /-- The thread that holds `s_mutex`. -/
  lock : Option Nat := none
  created : Nat := 0
  dropped : Nat := 0
  place : Nat → Place := fun _ => .idle
  events : List Event := []

/-- A thread begins a call or takes its next step. -/
inductive Action
  | call (thread : Nat) (call : Call)
  | proceed (thread : Nat)
deriving DecidableEq, Repr

/-- Where a call begins. -/
def Call.place : Call → Place
  | .start => .startLooks
  | .stop => .stopLooks
  | .getInstance => .instanceLooks

namespace State

@[simp] def goesTo (state : State) (thread : Nat) (place : Place) : State :=
  { state with place := Function.update state.place thread place }

@[simp] def returns (state : State) (thread : Nat) (event : Event) : State :=
  { state with
    place := Function.update state.place thread .idle
    events := state.events ++ [event] }

/-- The next step of `Internal::Logging::Start`, `Stop` or `Instance`. -/
def proceed (state : State) (thread : Nat) : Option State :=
  match state.place thread with
  | .idle => none
  | .startLooks =>
    some (if state.started then state.returns thread .started else state.goesTo thread .startLocks)
  | .startLocks =>
    if state.lock = none then
      some ({ state with lock := some thread }.goesTo thread .startLooksAgain)
    else none
  | .startLooksAgain =>
    some (state.goesTo thread (if state.started then .startUnlocks else .startCreates))
  | .startCreates =>
    some ({ state with root := some state.created, created := state.created + 1 }.goesTo thread
      .startRaises)
  | .startRaises => some ({ state with started := true }.goesTo thread .startUnlocks)
  | .startUnlocks => some ({ state with lock := none }.returns thread .started)
  | .stopLooks =>
    some (if state.started then state.goesTo thread .stopLocks else state.returns thread .stopped)
  | .stopLocks =>
    if state.lock = none then
      some ({ state with lock := some thread }.goesTo thread .stopLooksAgain)
    else none
  | .stopLooksAgain =>
    some (state.goesTo thread (if state.started then .stopResets else .stopUnlocks))
  | .stopResets =>
    some ({ state with root := none, dropped := state.dropped + 1 }.goesTo thread .stopLowers)
  | .stopLowers => some ({ state with started := false }.goesTo thread .stopUnlocks)
  | .stopUnlocks => some ({ state with lock := none }.returns thread .stopped)
  | .instanceLooks =>
    some (if state.started then state.goesTo thread .instanceCopies
      else state.returns thread (.gotInstance none))
  | .instanceCopies => some (state.returns thread (.gotInstance state.root))

end State

def step (state : State) : Action → Option State
  | .call thread call =>
    if state.place thread = .idle then some (state.goesTo thread call.place) else none
  | .proceed thread => state.proceed thread

/-! ## The lock -/

/-- The places between taking the lock and giving it back. -/
def Place.locked : Place → Bool
  | .startLooksAgain | .startCreates | .startRaises | .startUnlocks
  | .stopLooksAgain | .stopResets | .stopLowers | .stopUnlocks => true
  | _ => false

/-- What the flag and the pointer are while the thread with the lock is at a place. -/
def Agree (started : Bool) (root : Option Nat) : Place → Prop
  | .startCreates => started = false ∧ root = none
  | .startRaises => started = false ∧ root.isSome
  | .stopResets => started = true ∧ root.isSome
  | .stopLowers => started = true ∧ root = none
  | _ => started = root.isSome

/-- What the mutex guards. -/
structure Guarded (state : State) : Prop where
  owner : ∀ thread, (state.place thread).locked = true ↔ state.lock = some thread
  held : ∀ thread, state.lock = some thread → Agree state.started state.root (state.place thread)
  free : state.lock = none → state.started = state.root.isSome
  counted : state.created = state.dropped + state.root.toList.length
  newest : ∀ root, state.root = some root → root + 1 = state.created

theorem Guarded.withEvents {state : State} (guarded : Guarded state) (events : List Event) :
    Guarded { state with events } :=
  ⟨guarded.owner, guarded.held, guarded.free, guarded.counted, guarded.newest⟩

theorem guarded_initial : Guarded {} := by
  constructor <;> simp [Place.locked]

variable {after : State}

section Steps

variable {state : State} {thread : Nat} {place : Place}

theorem locked_update {lock : Option Nat} (others : ∀ other, other ≠ thread →
      ((state.place other).locked = true ↔ lock = some other))
    (here : place.locked = true ↔ lock = some thread) (other : Nat) :
    (Function.update state.place thread place other).locked = true ↔ lock = some other := by
  by_cases same : other = thread
  · rw [same, Function.update_self, here]
  · rw [Function.update_of_ne same, others other same]

variable (guarded : Guarded state)
include guarded

theorem Guarded.moves (kept : place.locked = (state.place thread).locked)
    (agree : state.lock = some thread → Agree state.started state.root place)
    (events : List Event) :
    Guarded { state with place := Function.update state.place thread place, events } := by
  refine ⟨locked_update (fun other _ => guarded.owner other) (kept ▸ guarded.owner thread), ?_,
    guarded.free, guarded.counted, guarded.newest⟩
  intro other owns
  by_cases same : other = thread
  · subst same
    simpa using agree owns
  · simpa [same] using guarded.held other owns

theorem Guarded.writes (owns : state.lock = some thread) (locked : place.locked = true)
    {started : Bool} {root : Option Nat} {created dropped : Nat}
    (agree : Agree started root place) (counted : created = dropped + root.toList.length)
    (newest : ∀ number, root = some number → number + 1 = created) :
    Guarded ({ state with started, root, created, dropped }.goesTo thread place) := by
  refine ⟨locked_update (fun other _ => guarded.owner other) (by simp [locked, owns]), ?_, ?_,
    counted, newest⟩
  · intro other other_owns
    obtain rfl : other = thread := Option.some.inj (other_owns.symm.trans owns)
    simpa using agree
  · exact fun free => absurd (owns.symm.trans free) (by simp)

theorem Guarded.takes (free : state.lock = none) (locked : place.locked = true)
    (agree : Agree state.started state.root place) :
    Guarded ({ state with lock := some thread }.goesTo thread place) := by
  refine ⟨locked_update (fun other different => ?_) (by simp [locked]), ?_, by simp,
    guarded.counted, guarded.newest⟩
  · simpa [guarded.owner other, free] using different.symm
  · intro other other_owns
    obtain rfl : thread = other := Option.some.inj other_owns
    simpa using agree

theorem Guarded.gives (owns : state.lock = some thread)
    (agree : state.started = state.root.isSome) (event : Event) :
    Guarded ({ state with lock := none }.returns thread event) := by
  refine ⟨locked_update (fun other different => ?_) (by simp [Place.locked]),
    by simp, fun _ => agree, guarded.counted, guarded.newest⟩
  simpa [guarded.owner other, owns] using different.symm

theorem Guarded.proceed (step_eq : state.proceed thread = some after) : Guarded after := by
  -- Inside the lock, the place tells what the flag and the pointer are.
  have inside : ∀ {place}, state.place thread = place → place.locked = true →
      state.lock = some thread ∧ Agree state.started state.root place := by
    rintro place rfl locked
    have owns := (guarded.owner thread).mp locked
    exact ⟨owns, guarded.held thread owns⟩
  have outside : ∀ {place next}, state.place thread = place → place.locked = false →
      next.locked = false → ∀ events,
        Guarded { state with place := Function.update state.place thread next, events } := by
    rintro place next rfl unlocked next_unlocked events
    refine guarded.moves (next_unlocked.trans unlocked.symm) (fun owns => ?_) events
    rw [(guarded.owner thread).mpr owns] at unlocked
    cases unlocked
  cases at_place : state.place thread with
  | idle => simp [State.proceed, at_place] at step_eq
  | startLooks | stopLooks | instanceLooks =>
    simp only [State.proceed, at_place, Option.some.injEq] at step_eq
    subst step_eq
    split
    · exact outside at_place rfl rfl _
    · exact outside at_place rfl rfl _
  | instanceCopies =>
    simp only [State.proceed, at_place, Option.some.injEq] at step_eq
    subst step_eq
    exact outside at_place rfl rfl _
  | startLocks | stopLocks =>
    simp only [State.proceed, at_place, Option.ite_none_right_eq_some, Option.some.injEq] at step_eq
    obtain ⟨free, rfl⟩ := step_eq
    exact guarded.takes free rfl (guarded.free free)
  | startLooksAgain | stopLooksAgain =>
    obtain ⟨owns, agree⟩ := inside at_place rfl
    simp only [State.proceed, at_place, Option.some.injEq] at step_eq
    subst step_eq
    change state.started = state.root.isSome at agree
    apply guarded.writes owns _ _ guarded.counted guarded.newest
    · split <;> rfl
    · split <;> simp_all [Agree]
  | startCreates =>
    obtain ⟨owns, lowered, root_none⟩ := inside at_place rfl
    simp only [State.proceed, at_place, Option.some.injEq] at step_eq
    subst step_eq
    have counted := guarded.counted
    rw [root_none] at counted
    refine guarded.writes owns rfl ⟨lowered, rfl⟩ (congrArg Nat.succ counted) ?_
    intro number same
    rw [Option.some.inj same]
  | startRaises =>
    obtain ⟨owns, -, some_root⟩ := inside at_place rfl
    simp only [State.proceed, at_place, Option.some.injEq] at step_eq
    subst step_eq
    exact guarded.writes owns rfl some_root.symm guarded.counted guarded.newest
  | stopResets =>
    obtain ⟨owns, raised, some_root⟩ := inside at_place rfl
    simp only [State.proceed, at_place, Option.some.injEq] at step_eq
    subst step_eq
    obtain ⟨root, root_eq⟩ := Option.isSome_iff_exists.mp some_root
    have counted := guarded.counted
    rw [root_eq] at counted
    exact guarded.writes owns rfl ⟨raised, rfl⟩ counted (by simp)
  | stopLowers =>
    obtain ⟨owns, -, root_none⟩ := inside at_place rfl
    simp only [State.proceed, at_place, Option.some.injEq] at step_eq
    subst step_eq
    refine guarded.writes owns rfl ?_ guarded.counted guarded.newest
    rw [root_none]
    rfl
  | startUnlocks | stopUnlocks =>
    obtain ⟨owns, agree⟩ := inside at_place rfl
    simp only [State.proceed, at_place, Option.some.injEq] at step_eq
    subst step_eq
    exact guarded.gives owns agree _

theorem Guarded.step {action : Action} (step_eq : step state action = some after) :
    Guarded after := by
  cases action with
  | proceed thread => exact guarded.proceed step_eq
  | call thread call =>
    simp only [Logging.step, Option.ite_none_right_eq_some, Option.some.injEq] at step_eq
    obtain ⟨idle, rfl⟩ := step_eq
    have unlocked : call.place.locked = (state.place thread).locked := by
      rw [idle]
      cases call <;> rfl
    refine guarded.moves unlocked (fun owns => ?_) state.events
    have locked := (guarded.owner thread).mpr owns
    rw [idle] at locked
    cases locked

end Steps

theorem guarded_of_reachable {state : State} (reachable : Reachable step {} state) :
    Guarded state :=
  reachable.invariant guarded_initial fun _ _ _ guarded step_eq => guarded.step step_eq

/-- At most one thread is inside the lock.  The flag tells whether there is a root, but for the
thread that has the lock and has written only one of the two.  No root is lost: each was dropped by
`Stop`, but for the last one. -/
structure Consistent (state : State) : Prop where
  exclusive : ∀ thread other, (state.place thread).locked → (state.place other).locked →
    thread = other
  flagged : state.started = state.root.isSome ∨
    ∃ thread, state.place thread = .startRaises ∨ state.place thread = .stopLowers
  kept : state.created = state.dropped + state.root.toList.length

theorem consistent_of_run {actions : List Action} {state : State}
    (execution : run step {} actions = some state) : Consistent state := by
  have guarded := guarded_of_reachable ⟨actions, execution⟩
  refine ⟨fun thread other locked other_locked => ?_, ?_, guarded.counted⟩
  · have owns := (guarded.owner thread).mp locked
    have other_owns := (guarded.owner other).mp other_locked
    exact Option.some.inj (owns.symm.trans other_owns)
  · cases lock_eq : state.lock with
    | none => exact .inl (guarded.free lock_eq)
    | some thread =>
      have agree := guarded.held thread lock_eq
      cases at_place : state.place thread with
      | startRaises => exact .inr ⟨thread, .inl at_place⟩
      | stopLowers => exact .inr ⟨thread, .inr at_place⟩
      | startCreates | stopResets =>
        rw [at_place] at agree
        refine .inl ?_
        simp [agree.1, agree.2]
      | _ =>
        rw [at_place] at agree
        exact .inl agree

/-- Two threads start at once; the second waits for the lock and finds the flag raised. -/
def twoStarts : List Action :=
  [.call 0 .start, .call 1 .start, .proceed 0, .proceed 1, .proceed 0, .proceed 0, .proceed 0,
    .proceed 0, .proceed 0, .proceed 1, .proceed 1, .proceed 1]

theorem consistent_twoStarts :
    ∃ state, run step {} twoStarts = some state ∧ state.created = 1 ∧ Consistent state :=
  ⟨_, rfl, rfl, consistent_of_run (rfl : run step {} twoStarts = some _)⟩

/-! ## Without `Stop` -/

/-- The places inside `Stop`. -/
def Place.stops : Place → Bool
  | .stopLooks | .stopLocks | .stopLooksAgain | .stopResets | .stopLowers | .stopUnlocks => true
  | _ => false

/-- The places that are reached under a raised flag only. -/
def Place.underFlag : Place → Bool
  | .startUnlocks | .instanceCopies => true
  | _ => false

/-- Once a call of `Start` has returned, `Instance` returns the first root. -/
def Settled (events : List Event) : Prop :=
  events.Pairwise fun earlier later =>
    earlier = .started → ∀ root, later = .gotInstance root → root = some 0

/-- What holds as long as nobody stops the system. -/
structure Running (state : State) : Prop where
  guarded : Guarded state
  unstopped : ∀ thread, (state.place thread).stops = false
  undropped : state.dropped = 0
  looked : ∀ thread, (state.place thread).underFlag = true → state.started = true
  announced : .started ∈ state.events → state.started = true
  same : ∀ root, .gotInstance (some root) ∈ state.events → root = 0
  settled : Settled state.events

theorem running_initial : Running {} := by
  constructor <;> simp [guarded_initial, Place.stops, Place.underFlag, Settled]

namespace Running

variable {state : State} {thread : Nat}

theorem root_eq_zero (running : Running state) {root : Nat} (root_eq : state.root = some root) :
    root = 0 := by
  have counted := running.guarded.counted
  have newest := running.guarded.newest root root_eq
  rw [root_eq, running.undropped] at counted
  simp only [Option.toList_some, List.length_singleton] at counted
  omega

theorem root_of_started (running : Running state) (raised : state.started = true) :
    state.root = some 0 := by
  have some_root : state.root.isSome = true := by
    cases lock_eq : state.lock with
    | none => rw [← running.guarded.free lock_eq, raised]
    | some owner =>
      have agree := running.guarded.held owner lock_eq
      have unstopped := running.unstopped owner
      cases at_place : state.place owner <;> simp_all [Agree, Place.stops]
  obtain ⟨root, root_eq⟩ := Option.isSome_iff_exists.mp some_root
  rw [root_eq, running.root_eq_zero root_eq]

theorem moves (running : Running state) {place : Place} (guarded : Guarded after)
    (place_eq : after.place = Function.update state.place thread place)
    (unstopped : place.stops = false) (dropped_eq : after.dropped = state.dropped)
    (raised : state.started = true → after.started = true)
    (looked : place.underFlag = true → after.started = true)
    (events_eq : after.events = state.events) : Running after := by
  refine ⟨guarded, fun other => ?_, dropped_eq.trans running.undropped, fun other looks => ?_,
    ?_, ?_, ?_⟩
  · rw [place_eq]
    by_cases same : other = thread
    · rw [same, Function.update_self, unstopped]
    · rw [Function.update_of_ne same, running.unstopped]
  · rw [place_eq] at looks
    by_cases same : other = thread
    · rw [same, Function.update_self] at looks
      exact looked looks
    · rw [Function.update_of_ne same] at looks
      exact raised (running.looked other looks)
  · rw [events_eq]
    exact fun member => raised (running.announced member)
  · rw [events_eq]
    exact running.same
  · rw [events_eq]
    exact running.settled

/-- A call returns: of `Start`, under the raised flag, or of `Instance`. -/
theorem returns (running : Running state) {lock : Option Nat} {event : Event}
    (guarded : Guarded ({ state with lock }.returns thread event))
    (event_eq : event = .started ∧ state.started = true ∨
      event = .gotInstance none ∧ state.started = false ∨ event = .gotInstance (some 0)) :
    Running ({ state with lock }.returns thread event) := by
  have moved : Running ({ state with lock }.goesTo thread .idle) :=
    running.moves (guarded.withEvents state.events) rfl rfl rfl id (by simp [Place.underFlag]) rfl
  refine ⟨guarded, moved.unstopped, moved.undropped, moved.looked, fun member => ?_,
    fun root member => ?_,
    List.pairwise_append.mpr ⟨running.settled, List.pairwise_singleton _ _, ?_⟩⟩
  · rcases List.mem_append.mp member with before | last
    · exact running.announced before
    · rcases event_eq with ⟨-, raised⟩ | ⟨rfl, -⟩ | rfl
      · exact raised
      · simp at last
      · simp at last
  · rcases List.mem_append.mp member with before | last
    · exact running.same root before
    · rcases event_eq with ⟨rfl, -⟩ | ⟨rfl, -⟩ | rfl
      · simp at last
      · simp at last
      · simpa using last
  · rintro earlier before _ last rfl root rfl
    obtain rfl := List.mem_singleton.mp last
    rcases event_eq with ⟨same, -⟩ | ⟨-, lowered⟩ | same
    · cases same
    · rw [running.announced before] at lowered
      cases lowered
    · exact Event.gotInstance.inj same

theorem proceed (running : Running state) (step_eq : state.proceed thread = some after) :
    Running after := by
  have guarded := running.guarded.proceed step_eq
  have unstopped := running.unstopped thread
  cases at_place : state.place thread with
  | idle => simp [State.proceed, at_place] at step_eq
  | stopLooks | stopLocks | stopLooksAgain | stopResets | stopLowers | stopUnlocks =>
    rw [at_place] at unstopped
    cases unstopped
  | startLooks =>
    simp only [State.proceed, at_place, Option.some.injEq] at step_eq
    subst step_eq
    split at guarded
    · rename_i raised
      rw [if_pos raised]
      exact running.returns guarded (.inl ⟨rfl, raised⟩)
    · rename_i lowered
      rw [if_neg lowered]
      exact running.moves guarded rfl rfl rfl id (by simp [Place.underFlag]) rfl
  | startLooksAgain =>
    simp only [State.proceed, at_place, Option.some.injEq] at step_eq
    subst step_eq
    refine running.moves guarded rfl (by split <;> rfl) rfl id ?_ rfl
    split
    · rename_i raised
      exact fun _ => raised
    · simp [Place.underFlag]
  | startLocks =>
    simp only [State.proceed, at_place, Option.ite_none_right_eq_some, Option.some.injEq] at step_eq
    obtain ⟨-, rfl⟩ := step_eq
    exact running.moves guarded rfl rfl rfl id (by simp [Place.underFlag]) rfl
  | startCreates =>
    simp only [State.proceed, at_place, Option.some.injEq] at step_eq
    subst step_eq
    exact running.moves guarded rfl rfl rfl id (by simp [Place.underFlag]) rfl
  | startRaises =>
    simp only [State.proceed, at_place, Option.some.injEq] at step_eq
    subst step_eq
    exact running.moves guarded rfl rfl rfl (fun _ => rfl) (fun _ => rfl) rfl
  | startUnlocks =>
    simp only [State.proceed, at_place, Option.some.injEq] at step_eq
    subst step_eq
    have raised := running.looked thread (by rw [at_place]; rfl)
    exact running.returns guarded (.inl ⟨rfl, raised⟩)
  | instanceLooks =>
    simp only [State.proceed, at_place, Option.some.injEq] at step_eq
    subst step_eq
    split at guarded
    · rename_i raised
      rw [if_pos raised]
      exact running.moves guarded rfl rfl rfl id (fun _ => raised) rfl
    · rename_i lowered
      rw [if_neg lowered]
      exact running.returns guarded (.inr (.inl ⟨rfl, by simpa using lowered⟩))
  | instanceCopies =>
    simp only [State.proceed, at_place, Option.some.injEq] at step_eq
    subst step_eq
    have raised := running.looked thread (by rw [at_place]; rfl)
    exact running.returns guarded (.inr (.inr (congrArg _ (running.root_of_started raised))))

theorem step (running : Running state) {action : Action}
    (allowed : ∀ thread, action ≠ .call thread .stop) (step_eq : step state action = some after) :
    Running after := by
  have guarded := running.guarded.step step_eq
  cases action with
  | proceed thread => exact running.proceed step_eq
  | call thread call =>
    simp only [Logging.step, Option.ite_none_right_eq_some, Option.some.injEq] at step_eq
    obtain ⟨-, rfl⟩ := step_eq
    cases call with
    | stop => exact absurd rfl (allowed thread)
    | start | getInstance =>
      exact running.moves guarded rfl rfl rfl id (by simp [Call.place, Place.underFlag]) rfl

end Running

/-- At most one root is created, and `Instance` never returns another one.  Once a call of `Start`
has returned, `Instance` returns the root.  The pointer is not copied while it is written. -/
structure Published (state : State) : Prop where
  once : state.created ≤ 1
  same : ∀ root, .gotInstance (some root) ∈ state.events → root = 0
  settled : Settled state.events
  raceFree : ∀ thread other, state.place thread = .instanceCopies →
    state.place other ≠ .startCreates

theorem published_of_run {actions : List Action} {state : State}
    (never : ∀ thread, Action.call thread .stop ∉ actions)
    (execution : run step {} actions = some state) : Published state := by
  have running : Running state := by
    induction actions using List.reverseRecOn generalizing state with
    | nil =>
      obtain rfl := Option.some.inj execution
      exact running_initial
    | append_singleton front action ih =>
      obtain ⟨before, earlier, step_eq⟩ := run_concat_eq_some.mp execution
      have running_before :=
        ih (fun thread member => never thread (List.mem_append_left _ member)) earlier
      refine running_before.step (fun thread same => never thread ?_) step_eq
      exact List.mem_append_right _ (List.mem_singleton.mpr same.symm)
  refine ⟨?_, running.same, running.settled, fun thread other copies creates => ?_⟩
  · have counted := running.guarded.counted
    have length_le : state.root.toList.length ≤ 1 := by cases state.root <;> simp
    have undropped := running.undropped
    omega
  · have raised := running.looked thread (by rw [copies]; rfl)
    have owns := (running.guarded.owner other).mp (by rw [creates]; rfl)
    have agree := running.guarded.held other owns
    rw [creates, raised] at agree
    cases agree.1

/-- Two threads have started the system, and a third asks for the instance. -/
def startsThenInstance : List Action :=
  twoStarts ++ [.call 2 .getInstance, .proceed 2, .proceed 2]

theorem published_startsThenInstance :
    ∃ state, run step {} startsThenInstance = some state ∧
      state.events = [.started, .started, .gotInstance (some 0)] ∧ Published state :=
  ⟨_, rfl, rfl, published_of_run (by simp [startsThenInstance, twoStarts])
    (rfl : run step {} startsThenInstance = some _)⟩

/-- With `Stop` between its two steps, `Instance` copies a null pointer under a raised flag. -/
example : ((run step {} (twoStarts ++ [.call 2 .getInstance, .proceed 2, .call 0 .stop, .proceed 0,
    .proceed 0, .proceed 0, .proceed 0, .proceed 2])).map State.events) =
      some [.started, .started, .gotInstance none] := by
  rfl

end Fusion.Logging
