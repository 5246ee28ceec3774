import Fusion.Library.Runs
import Mathlib.Algebra.Group.Int.Defs

/-!
# Contexts

Copies of a context share one state: a flag, and a deadline that is zero when there is none.  A
ledger of the calls tells which contexts share a state and what was done to it, in whole numbers;
the code keeps its times in 64 bits, and a sum that does not fit is not defined.
-/

namespace Fusion.Context

open Runs

/-- `Context::State`; times are counts of the clock since its epoch. -/
structure State where
  flag : Bool := false
  deadline : Int64 := 0

/-- The heap of states and the contexts of a program. -/
structure World where
  states : List State := []
  /-- `m_state` of each context; a context that was moved from has none. -/
  contexts : List (Option Nat) := []
  /-- What the clock shows. -/
  now : Int64

/-- The calls of the interface; where the clock is read twice, `again` is the second reading. -/
inductive Call
  | make
  | makeAfter (duration again : Int64)
  | copy (source : Nat)
  | move (source : Nat)
  | assign (target source : Nat)
  | moveAssign (target source : Nat)
  | cancel (context : Nat)
  | cancelAt (context : Nat) (time : Int64)
  | cancelAfter (context : Nat) (duration again : Int64)
  | releaseDeadline (context : Nat)
  /-- The clock shows another time. -/
  | clock (reading : Int64)
deriving DecidableEq, Repr

/-- A result of arithmetic on times; what does not fit is not defined. -/
def ofTime (time : Int) : Option Int64 :=
  if -2 ^ 63 ≤ time ∧ time < 2 ^ 63 then some (Int64.ofInt time) else none

def add (left right : Int64) : Option Int64 := ofTime (left.toInt + right.toInt)

def sub (left right : Int64) : Option Int64 := ofTime (left.toInt - right.toInt)

namespace World

/-- The state of a context; to look through a null pointer is not defined. -/
def stateOf (world : World) (context : Nat) : Option Nat := world.contexts[context]?.join

/-- A call that writes to the state of a context. -/
def write (world : World) (context : Nat) (change : State → State) : Option World :=
  (world.stateOf context).bind fun number =>
    world.states[number]?.map fun state =>
      { world with states := world.states.set number (change state) }

/-- `make_shared<State>`. -/
def make (world : World) : World :=
  { world with
    states := world.states ++ [{}]
    contexts := world.contexts ++ [some world.states.length] }

/-- The deadline is computed from the clock, and is the time that was given. -/
def cancelAt (world : World) (context : Nat) (time : Int64) : Option World := do
  let deadline ← add world.now (← sub time world.now)
  world.write context fun state => { state with deadline }

def cancelAfter (world : World) (context : Nat) (duration again : Int64) : Option World := do
  let time ← add world.now duration
  { world with now := again }.cancelAt context time

def isCancelled (world : World) (context : Nat) : Option Bool :=
  (world.stateOf context).bind fun number =>
    world.states[number]?.map fun state =>
      state.flag || (decide (state.deadline ≠ 0) && decide (state.deadline ≤ world.now))

end World

/-- One call on the contexts of a program. -/
def step (world : World) : Call → Option World
  | .make => some world.make
  | .makeAfter duration again => world.make.cancelAfter world.contexts.length duration again
  | .copy source =>
    world.contexts[source]?.map fun state =>
      { world with contexts := world.contexts ++ [state] }
  | .move source =>
    world.contexts[source]?.map fun state =>
      { world with contexts := world.contexts.set source none ++ [state] }
  | .assign target source =>
    world.contexts[target]?.bind fun _ =>
      world.contexts[source]?.map fun state =>
        { world with contexts := world.contexts.set target state }
  | .moveAssign target source =>
    world.contexts[target]?.bind fun old =>
      world.contexts[source]?.map fun state =>
        if old ≠ state then
          { world with contexts := (world.contexts.set source none).set target state }
        else world
  | .cancel context => world.write context fun state => { state with flag := true }
  | .cancelAt context time => world.cancelAt context time
  | .cancelAfter context duration again => world.cancelAfter context duration again
  | .releaseDeadline context => world.write context fun state => { state with deadline := 0 }
  | .clock reading => some { world with now := reading }

/-! ## The ledger of the calls -/

/-- What a call does to the state of a context. -/
inductive Event
  | cancelled
  | deadline (time : Int)
deriving DecidableEq, Repr

/-- What calls mean. -/
structure Ledger where
  /-- How many states were made. -/
  made : Nat := 0
  /-- Which of them each context shares. -/
  owners : List (Option Nat) := []
  now : Int
  /-- What was done to the states, the last first. -/
  record : List (Nat × Event) := []

namespace Ledger

/-- Record an event of the state behind a context. -/
def enter (ledger : Ledger) (context : Nat) (event : Event) : Ledger :=
  match ledger.owners[context]?.join with
  | some number => { ledger with record := (number, event) :: ledger.record }
  | none => ledger

def make (ledger : Ledger) : Ledger :=
  { ledger with made := ledger.made + 1, owners := ledger.owners ++ [some ledger.made] }

/-- The context gets a deadline that is so far away. -/
def defer (ledger : Ledger) (context : Nat) (duration again : Int64) : Ledger :=
  { ledger with now := again.toInt }.enter context (.deadline (ledger.now + duration.toInt))

/-- What a call adds. -/
def note (ledger : Ledger) : Call → Ledger
  | .make => ledger.make
  | .makeAfter duration again => ledger.make.defer ledger.owners.length duration again
  | .copy source => { ledger with owners := ledger.owners ++ [ledger.owners[source]?.join] }
  | .move source =>
    { ledger with owners := ledger.owners.set source none ++ [ledger.owners[source]?.join] }
  | .assign target source =>
    { ledger with owners := ledger.owners.set target ledger.owners[source]?.join }
  | .moveAssign target source =>
    if ledger.owners[target]?.join = ledger.owners[source]?.join then ledger
    else
      { ledger with
        owners := (ledger.owners.set source none).set target ledger.owners[source]?.join }
  | .cancel context => ledger.enter context .cancelled
  | .cancelAt context time => ledger.enter context (.deadline time.toInt)
  | .cancelAfter context duration again => ledger.defer context duration again
  | .releaseDeadline context => ledger.enter context (.deadline 0)
  | .clock reading => { ledger with now := reading.toInt }

end Ledger

/-- The ledger after calls that begin at a time. -/
def ledger (start : Int64) (calls : List Call) : Ledger :=
  calls.foldl Ledger.note { now := start.toInt }

/-- The deadline that was set last. -/
def lastDeadline (number : Nat) : List (Nat × Event) → Int
  | [] => 0
  | (other, .deadline time) :: record =>
    if other = number then time else lastDeadline number record
  | (_, .cancelled) :: record => lastDeadline number record

/-- A state is what the record says of it. -/
structure Told (number : Nat) (record : List (Nat × Event)) (state : State) : Prop where
  flag : state.flag = true ↔ (number, .cancelled) ∈ record
  deadline : state.deadline.toInt = lastDeadline number record

/-- The world is as the ledger has it. -/
structure Kept (ledger : Ledger) (world : World) : Prop where
  contexts : world.contexts = ledger.owners
  states : world.states.length = ledger.made
  now : world.now.toInt = ledger.now
  told : ∀ number state, world.states[number]? = some state → Told number ledger.record state
  valid : ∀ number, some number ∈ ledger.owners → number < ledger.made
  written : ∀ number event, (number, event) ∈ ledger.record → number < ledger.made

theorem kept_initial (start : Int64) : Kept { now := start.toInt } { now := start } := by
  constructor <;> simp

theorem toInt_ofTime {time : Int} {fitted : Int64} (fits : ofTime time = some fitted) :
    fitted.toInt = time := by
  obtain ⟨⟨above, below⟩, same⟩ := Option.ite_none_right_eq_some.mp fits
  rw [← Option.some.inj same]
  exact Int64.toInt_ofInt_of_le above below

theorem lastDeadline_of_absent {number : Nat} {record : List (Nat × Event)}
    (absent : ∀ event, (number, event) ∉ record) : lastDeadline number record = 0 := by
  induction record with
  | nil => rfl
  | cons entry record ih =>
    obtain ⟨other, event⟩ := entry
    have rest := ih fun event member => absent event (List.mem_cons_of_mem _ member)
    cases event with
    | cancelled => exact rest
    | deadline time =>
      have different : other ≠ number := by
        rintro rfl
        exact absent (.deadline time) List.mem_cons_self
      rw [lastDeadline, if_neg different, rest]

namespace Told

variable {number : Nat} {record : List (Nat × Event)} {state : State}

theorem cancel (told : Told number record state) :
    Told number ((number, .cancelled) :: record) { state with flag := true } :=
  ⟨by simp, told.deadline⟩

theorem defer (told : Told number record state) (time : Int64) :
    Told number ((number, .deadline time.toInt) :: record) { state with deadline := time } :=
  ⟨by simpa using told.flag, by simp [lastDeadline]⟩

theorem other (told : Told number record state) {other : Nat} (different : other ≠ number)
    (event : Event) : Told number ((other, event) :: record) state := by
  refine ⟨told.flag.trans ?_, told.deadline.trans ?_⟩
  · simp [different.symm]
  · cases event <;> simp [lastDeadline, different]

end Told

namespace Kept

variable {ledger : Ledger} {world after : World}

theorem make (kept : Kept ledger world) : Kept ledger.make world.make := by
  refine ⟨?_, ?_, kept.now, fun number state state_eq => ?_, fun number member => ?_,
    fun number event member => Nat.lt_succ_of_lt (kept.written number event member)⟩
  · rw [World.make, Ledger.make, kept.contexts, kept.states]
  · simp [World.make, Ledger.make, kept.states]
  · rcases Nat.lt_trichotomy number world.states.length with old | rfl | beyond
    · exact kept.told number state ((List.getElem?_append_left old).symm.trans state_eq)
    · have absent : ∀ event, (world.states.length, event) ∉ ledger.record := fun event member =>
        Nat.lt_irrefl _ (kept.states ▸ kept.written _ event member)
      obtain rfl : ({} : State) = state := by simpa [World.make] using state_eq
      exact ⟨iff_of_false Bool.false_ne_true (absent .cancelled),
        (lastDeadline_of_absent absent).symm⟩
    · have outside : world.make.states.length ≤ number := by
        simpa [World.make, Nat.succ_le_iff] using beyond
      rw [List.getElem?_eq_none outside] at state_eq
      cases state_eq
  · rcases List.mem_append.mp member with old | new
    · exact Nat.lt_succ_of_lt (kept.valid number old)
    · exact Nat.lt_succ_of_le (Nat.le_of_eq (Option.some.inj (List.mem_singleton.mp new)))

theorem write (kept : Kept ledger world) {context : Nat} {event : Event} {change : State → State}
    (means : ∀ number record state, Told number record state →
      Told number ((number, event) :: record) (change state))
    (write_eq : world.write context change = some after) :
    Kept (ledger.enter context event) after := by
  obtain ⟨number, pointer, write_eq⟩ := Option.bind_eq_some_iff.mp write_eq
  obtain ⟨state, state_eq, rfl⟩ := Option.map_eq_some_iff.mp write_eq
  obtain ⟨inside, -⟩ := List.getElem?_eq_some_iff.mp state_eq
  have entered : ledger.enter context event =
      { ledger with record := (number, event) :: ledger.record } := by
    rw [World.stateOf, kept.contexts] at pointer
    rw [Ledger.enter, pointer]
  rw [entered]
  refine ⟨kept.contexts, (List.length_set ..).trans kept.states, kept.now,
    fun other found found_eq => ?_, kept.valid, fun other entry member => ?_⟩
  · by_cases same : number = other
    · subst same
      obtain rfl := Option.some.inj ((List.getElem?_set_self inside).symm.trans found_eq)
      exact means _ _ _ (kept.told number state state_eq)
    · rw [List.getElem?_set_ne same] at found_eq
      exact (kept.told other found found_eq).other same event
  · rcases List.mem_cons.mp member with new | old
    · obtain ⟨rfl, -⟩ := Prod.mk.inj new
      exact kept.states ▸ inside
    · exact kept.written other entry old

variable (kept : Kept ledger world)
include kept

theorem repoint {owners : List (Option Nat)}
    (among : ∀ number, some number ∈ owners → some number ∈ ledger.owners) :
    Kept { ledger with owners } { world with contexts := owners } :=
  ⟨rfl, kept.states, kept.now, kept.told,
    fun number member => kept.valid number (among number member), kept.written⟩

theorem clock (reading : Int64) :
    Kept { ledger with now := reading.toInt } { world with now := reading } :=
  ⟨kept.contexts, kept.states, rfl, kept.told, kept.valid, kept.written⟩

theorem cancelAt {context : Nat} {time : Int64}
    (cancelAt_eq : world.cancelAt context time = some after) :
    Kept (ledger.enter context (.deadline time.toInt)) after := by
  obtain ⟨difference, sub_eq, cancelAt_eq⟩ := Option.bind_eq_some_iff.mp cancelAt_eq
  obtain ⟨deadline, add_eq, write_eq⟩ := Option.bind_eq_some_iff.mp cancelAt_eq
  obtain rfl : deadline = time := by
    rw [← Int64.toInt_inj, toInt_ofTime add_eq, toInt_ofTime sub_eq]
    omega
  exact kept.write (fun _ _ _ told => told.defer _) write_eq

theorem cancelAfter {context : Nat} {duration again : Int64}
    (cancelAfter_eq : world.cancelAfter context duration again = some after) :
    Kept (ledger.defer context duration again) after := by
  obtain ⟨time, add_eq, cancelAt_eq⟩ := Option.bind_eq_some_iff.mp cancelAfter_eq
  have deferred := (kept.clock again).cancelAt cancelAt_eq
  rw [toInt_ofTime add_eq, kept.now] at deferred
  exact deferred

theorem step {call : Call} (step_eq : step world call = some after) :
    Kept (ledger.note call) after := by
  have owners_eq := kept.contexts
  cases call with
  | make =>
    obtain rfl := Option.some.inj step_eq
    exact kept.make
  | makeAfter duration again =>
    rw [Ledger.note, ← owners_eq]
    exact kept.make.cancelAfter step_eq
  | copy source =>
    obtain ⟨state, state_eq, rfl⟩ := Option.map_eq_some_iff.mp step_eq
    rw [owners_eq] at state_eq ⊢
    simp only [Ledger.note, state_eq, Option.join_some]
    refine kept.repoint fun number member => ?_
    rcases List.mem_append.mp member with old | new
    · exact old
    · rw [List.mem_singleton.mp new]
      exact List.mem_of_getElem? state_eq
  | move source =>
    obtain ⟨state, state_eq, rfl⟩ := Option.map_eq_some_iff.mp step_eq
    rw [owners_eq] at state_eq ⊢
    simp only [Ledger.note, state_eq, Option.join_some]
    refine kept.repoint fun number member => ?_
    rcases List.mem_append.mp member with old | new
    · exact (List.mem_or_eq_of_mem_set old).resolve_right (by simp)
    · rw [List.mem_singleton.mp new]
      exact List.mem_of_getElem? state_eq
  | assign target source =>
    obtain ⟨-, -, step_eq⟩ := Option.bind_eq_some_iff.mp step_eq
    obtain ⟨state, state_eq, rfl⟩ := Option.map_eq_some_iff.mp step_eq
    rw [owners_eq] at state_eq ⊢
    simp only [Ledger.note, state_eq, Option.join_some]
    refine kept.repoint fun number member => ?_
    rcases List.mem_or_eq_of_mem_set member with old | rfl
    · exact old
    · exact List.mem_of_getElem? state_eq
  | moveAssign target source =>
    obtain ⟨old, old_eq, step_eq⟩ := Option.bind_eq_some_iff.mp step_eq
    obtain ⟨state, state_eq, rfl⟩ := Option.map_eq_some_iff.mp step_eq
    rw [owners_eq] at old_eq state_eq ⊢
    simp only [Ledger.note, old_eq, state_eq, Option.join_some, ne_eq, ite_not]
    split
    · exact kept
    · refine kept.repoint fun number member => ?_
      rcases List.mem_or_eq_of_mem_set member with kept | rfl
      · exact (List.mem_or_eq_of_mem_set kept).resolve_right (by simp)
      · exact List.mem_of_getElem? state_eq
  | cancel context => exact kept.write (fun _ _ _ told => told.cancel) step_eq
  | cancelAt context time => exact kept.cancelAt step_eq
  | cancelAfter context duration again => exact kept.cancelAfter step_eq
  | releaseDeadline context =>
    exact kept.write (fun _ _ _ told => told.defer 0) step_eq
  | clock reading =>
    obtain rfl := Option.some.inj step_eq
    exact kept.clock reading

end Kept

theorem kept_of_run {calls : List Call} {start : Int64} {world : World}
    (execution : run step { now := start } calls = some world) :
    Kept (ledger start calls) world := by
  induction calls using List.reverseRecOn generalizing world with
  | nil =>
    obtain rfl := Option.some.inj execution
    exact kept_initial start
  | append_singleton calls call ih =>
    obtain ⟨before, earlier, step_eq⟩ := run_concat_eq_some.mp execution
    rw [ledger, List.foldl_concat]
    exact (ih earlier).step step_eq

/-- Whether a context is cancelled is a matter of the calls on all contexts that had the same state:
whether one of them was cancelled, or the deadline that was set last has passed, unless it is the
epoch of the clock. -/
theorem isCancelled_of_run {calls : List Call} {start : Int64} {world : World}
    (execution : run step { now := start } calls = some world) {context number : Nat}
    (shares : (ledger start calls).owners[context]? = some (some number)) :
    world.isCancelled context =
      some (decide ((number, .cancelled) ∈ (ledger start calls).record ∨
        lastDeadline number (ledger start calls).record ≠ 0 ∧
          lastDeadline number (ledger start calls).record ≤ (ledger start calls).now)) := by
  have kept := kept_of_run execution
  have inside : number < world.states.length :=
    kept.states ▸ kept.valid number (List.mem_of_getElem? shares)
  obtain ⟨state, state_eq⟩ : ∃ state, world.states[number]? = some state :=
    ⟨_, List.getElem?_eq_getElem inside⟩
  have told := kept.told number state state_eq
  have epoch : state.deadline.toInt = 0 ↔ state.deadline = 0 := by
    rw [← Int64.toInt_zero, Int64.toInt_inj]
  rw [← kept.contexts] at shares
  rw [World.isCancelled, World.stateOf, shares, Option.join_some, Option.bind_some, state_eq,
    Option.map_some, ← told.deadline, ← kept.now]
  refine congrArg some (Bool.eq_iff_iff.mpr ?_)
  simp only [Bool.or_eq_true, Bool.and_eq_true, decide_eq_true_eq, told.flag, ne_eq, epoch,
    Int64.le_iff_toInt_le]

/-- A deadline that is set through a copy. -/
def throughCopy : List Call := [.make, .copy 0, .cancelAfter 1 5 101, .clock 107]

def pastDeadline : World where
  states := [{ deadline := 105 }]
  contexts := [some 0, some 0]
  now := 107

theorem isCancelled_throughCopy :
    run step { now := 100 } throughCopy = some pastDeadline ∧
      pastDeadline.isCancelled 0 = some true :=
  ⟨rfl, (isCancelled_of_run (rfl : run step { now := 100 } throughCopy = some pastDeadline)
    (rfl : (ledger 100 throughCopy).owners[0]? = some (some 0))).trans (by decide)⟩

/-- A deadline that has passed can be released, and the context is not cancelled any more. -/
example : (run step { now := 100 } (throughCopy ++ [.releaseDeadline 0])).bind (·.isCancelled 1) =
    some false := by
  rfl

/-- A deadline that does not fit into 64 bits is not defined. -/
example : step { now := 1 } (.makeAfter Int64.maxValue 1) = none := by
  rfl

end Fusion.Context
