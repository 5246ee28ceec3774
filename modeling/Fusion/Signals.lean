import Fusion.Library.Runs
import Fusion.Library.Sorting

/-!
# Signal handlers

`RaiseSignal` sends a signal out as its number and takes it back as a signal through the platform's
numbers.  The handlers of the signal that comes back are taken out of the list, called, and
registered again if they return true.  Handlers act on a world of their own and do not call the
manager.
-/

namespace Fusion

inductive Signal
  | none
  | hangup
  | interrupt
  | quit
  | abort
  | kill
  | terminate
  | usr1
  | usr2
  | child
  | break_
deriving DecidableEq, Repr

/-- The values of the enumeration. -/
def Signal.number : Signal → Int
  | .none => 0
  | .hangup => 1
  | .interrupt => 2
  | .quit => 3
  | .abort => 6
  | .kill => 9
  | .terminate => 15
  | .usr1 => 16
  | .usr2 => 17
  | .child => 18
  | .break_ => 21

/-- A function with the signal that it is for. -/
structure SignalHandler (ω : Type) where
  signum : Int := -1
  signal : Signal := .none
  fn : Signal → ω → ω × Bool

/-- An implementation of `std::sort` by signal, with handlers of one signal in any order. -/
abbrev HandlerSorter (ω : Type) :=
  Sorting.Sorter fun (_ : Unit) (handler : SignalHandler ω) => handler.signal.number

/-- The handlers, sorted by their signals. -/
structure SignalManager (ω : Type) where
  handlers : List (SignalHandler ω) := []
  /-- The numbers that `::signal` was called for. -/
  signals : List Int := []

namespace SignalManager

variable {ω : Type} (sorter : HandlerSorter ω)

/-- `MapEvent`, with the signal numbers of Linux on x86. -/
def mapEvent : Int → Signal
  | 1 => .hangup
  | 2 => .interrupt
  | 3 => .quit
  | 9 => .kill
  | 15 => .terminate
  | 10 => .usr1
  | 12 => .usr2
  | 17 => .child
  | 21 => .break_
  | 19 => .break_
  | 6 => .abort
  | _ => .none

/-- `::signal`, once for each number. -/
def registerSignal (signum : Int) (manager : SignalManager ω) : SignalManager ω :=
  if signum ∈ manager.signals then manager
  else { manager with signals := manager.signals ++ [signum] }

def register (manager : SignalManager ω) (handler : SignalHandler ω) : SignalManager ω :=
  let handlers := manager.handlers ++ [handler]
  registerSignal handler.signum
    { manager with handlers := if 1 < handlers.length then sorter.sort () handlers else handlers }

def clear (manager : SignalManager ω) : SignalManager ω := { manager with handlers := [] }

def clearSignal (manager : SignalManager ω) (signal : Signal) : SignalManager ω :=
  { manager with handlers := manager.handlers.filter (·.signal ≠ signal) }

/-! ## Calls -/

/-- The manager, the world of the handlers, and the calls of handlers so far with what they
returned. -/
structure State (ω : Type) where
  manager : SignalManager ω := {}
  world : ω
  invoked : List (SignalHandler ω × Bool) := []

/-- Call a handler, and register it again if it returns true. -/
def invoke (state : State ω) (handler : SignalHandler ω) : State ω :=
  let (world, keep) := handler.fn handler.signal state.world
  { manager := if keep then state.manager.register sorter handler else state.manager
    world
    invoked := state.invoked ++ [(handler, keep)] }

/-- The handlers are taken out while they run. -/
def receiveSignal (state : State ω) (signum : Int) : State ω :=
  let signal := mapEvent signum
  let taken := state.manager.handlers.filter (·.signal = signal)
  let left := state.manager.handlers.filter (·.signal ≠ signal)
  taken.foldl (invoke sorter) { state with manager := { state.manager with handlers := left } }

def raise (state : State ω) (signal : Signal) : State ω :=
  receiveSignal sorter state signal.number

inductive Call (ω : Type)
  | registerSignal (signals : List Signal) (fn : Signal → ω → ω × Bool)
  | clearSignalHandlers
  | clearSignalHandlersOf (signal : Signal)
  | raiseSignal (signal : Signal)

/-- The handler that `RegisterSignal` makes. -/
def handlerOf (fn : Signal → ω → ω × Bool) (signal : Signal) : SignalHandler ω :=
  { signum := signal.number, signal, fn }

def step (state : State ω) : Call ω → Option (State ω)
  | .registerSignal signals fn =>
    some { state with
      manager := (signals.map (handlerOf fn)).foldl (register sorter) state.manager }
  | .clearSignalHandlers => some { state with manager := state.manager.clear }
  | .clearSignalHandlersOf signal =>
    some { state with manager := state.manager.clearSignal signal }
  | .raiseSignal signal => some (raise sorter state signal)

/-! ## The law -/

/-- Handlers called one after another with their signals: the world that they leave, and what each
of them returns. -/
def callAll (world : ω) : List (SignalHandler ω) → ω × List Bool
  | [] => (world, [])
  | handler :: handlers =>
    let called := handler.fn handler.signal world
    let rest := callAll called.1 handlers
    (rest.1, called.2 :: rest.2)

/-- What a call is for.  Raising a signal calls its handlers once each, keeps those that returned
true, and leaves the others; no other call reaches the world of the handlers. -/
def Lawful (before : State ω) (call : Call ω) (after : State ω) : Prop :=
  ∃ invoked, after.invoked = before.invoked ++ invoked ∧
    callAll before.world (invoked.map Prod.fst) = (after.world, invoked.map Prod.snd) ∧
    match call with
    | .registerSignal signals fn =>
      invoked = [] ∧
        after.manager.handlers.Perm (before.manager.handlers ++ signals.map (handlerOf fn))
    | .clearSignalHandlers => invoked = [] ∧ after.manager.handlers = []
    | .clearSignalHandlersOf signal =>
      invoked = [] ∧ after.manager.handlers = before.manager.handlers.filter (·.signal ≠ signal)
    | .raiseSignal signal =>
      (invoked.map Prod.fst).Perm (before.manager.handlers.filter (·.signal = signal)) ∧
        after.manager.handlers.Perm (before.manager.handlers.filter (·.signal ≠ signal) ++
          (invoked.filter Prod.snd).map Prod.fst)

/-- The signals whose number is not that of the platform. -/
def Misnumbered (signal : Signal) : Prop := signal = .usr1 ∨ signal = .usr2 ∨ signal = .child

/-- If the call raises a misnumbered signal, there are handlers neither for it nor for the signal
that has its number. -/
def Delivered (before : State ω) : Call ω → Prop
  | .raiseSignal signal => Misnumbered signal →
      ∀ handler ∈ before.manager.handlers,
        handler.signal ≠ signal ∧ handler.signal ≠ mapEvent signal.number
  | _ => True

section Steps

variable {sorter : HandlerSorter ω} {manager : SignalManager ω} {handler : SignalHandler ω}
  {state : State ω}

theorem handlers_registerSignal (signum : Int) :
    (manager.registerSignal signum).handlers = manager.handlers := by
  unfold registerSignal
  split <;> rfl

theorem perm_register : (manager.register sorter handler).handlers.Perm
    (manager.handlers ++ [handler]) := by
  rw [register, handlers_registerSignal]
  dsimp only
  split
  · exact sorter.perm _ _
  · exact .refl _

theorem perm_foldl_register (added : List (SignalHandler ω)) :
    (added.foldl (register sorter) manager).handlers.Perm (manager.handlers ++ added) := by
  induction added generalizing manager with
  | nil => simp
  | cons handler added ih =>
    refine ih.trans ?_
    simpa using perm_register.append_right added

theorem foldl_invoke (called : List (SignalHandler ω)) :
    ∃ invoked, (called.foldl (invoke sorter) state).invoked = state.invoked ++ invoked ∧
      invoked.map Prod.fst = called ∧
      callAll state.world called =
        ((called.foldl (invoke sorter) state).world, invoked.map Prod.snd) ∧
      (called.foldl (invoke sorter) state).manager.handlers.Perm
        (state.manager.handlers ++ (invoked.filter Prod.snd).map Prod.fst) := by
  induction called generalizing state with
  | nil => exact ⟨[], by simp [callAll]⟩
  | cons handler called ih =>
    obtain ⟨invoked, log_eq, called_eq, results_eq, perm⟩ := @ih (invoke sorter state handler)
    refine ⟨(handler, (handler.fn handler.signal state.world).2) :: invoked, ?_, ?_, ?_, ?_⟩
    · rw [List.foldl_cons, log_eq]
      simp [invoke]
    · simp [called_eq]
    · rw [callAll, List.foldl_cons, List.map_cons]
      exact congrArg (fun rest => (rest.1, _ :: rest.2)) results_eq
    · refine perm.trans ?_
      cases keep : (handler.fn handler.signal state.world).2 with
      | true => simpa [invoke, keep] using perm_register.append_right _
      | false => simp [invoke, keep]

theorem mapEvent_number_iff (signal : Signal) :
    mapEvent signal.number = signal ↔ ¬Misnumbered signal := by
  unfold Misnumbered
  cases signal <;> decide

theorem raise_spec (signal : Signal) :
    ∃ invoked, (raise sorter state signal).invoked = state.invoked ++ invoked ∧
      invoked.map Prod.fst = state.manager.handlers.filter (·.signal = mapEvent signal.number) ∧
      callAll state.world (invoked.map Prod.fst) =
        ((raise sorter state signal).world, invoked.map Prod.snd) ∧
      (raise sorter state signal).manager.handlers.Perm
        (state.manager.handlers.filter (·.signal ≠ mapEvent signal.number) ++
          (invoked.filter Prod.snd).map Prod.fst) := by
  unfold raise receiveSignal
  obtain ⟨invoked, log_eq, called_eq, results_eq, perm⟩ := foldl_invoke _
  exact ⟨invoked, log_eq, called_eq, called_eq ▸ results_eq, perm⟩

theorem filter_of_absent {handlers : List (SignalHandler ω)} {signal : Signal}
    (absent : ∀ handler ∈ handlers, handler.signal ≠ signal) :
    handlers.filter (·.signal = signal) = [] ∧ handlers.filter (·.signal ≠ signal) = handlers := by
  constructor
  · exact List.filter_eq_nil_iff.mpr fun handler member => by simp [absent handler member]
  · exact List.filter_eq_self.mpr fun handler member => by simp [absent handler member]

theorem raise_lawful_iff (signal : Signal) :
    Lawful state (.raiseSignal signal) (raise sorter state signal) ↔
      Delivered state (.raiseSignal signal) := by
  obtain ⟨invoked, log_eq, called_eq, results_eq, perm⟩ := @raise_spec _ sorter state signal
  by_cases misnumbered : Misnumbered signal
  · have distinct : mapEvent signal.number ≠ signal := fun same =>
      (mapEvent_number_iff signal).mp same misnumbered
    constructor
    · rintro ⟨others, others_eq, -, called_perm, -⟩ _ handler member
      obtain rfl := List.append_cancel_left (log_eq.symm.trans others_eq)
      rw [called_eq] at called_perm
      -- What is called has one signal and what should be called another, so both are nothing.
      refine ⟨fun own => ?_, fun mapped => ?_⟩
      · have called := called_perm.mem_iff.mpr
          (List.mem_filter.mpr ⟨member, decide_eq_true own⟩)
        have := of_decide_eq_true (List.mem_filter.mp called).2
        exact distinct (this.symm.trans own)
      · have expected := called_perm.mem_iff.mp
          (List.mem_filter.mpr ⟨member, decide_eq_true mapped⟩)
        have := of_decide_eq_true (List.mem_filter.mp expected).2
        exact distinct (mapped.symm.trans this)
    · intro absent
      obtain ⟨none_own, all_own⟩ := filter_of_absent fun handler member =>
        (absent misnumbered handler member).1
      obtain ⟨none_mapped, all_mapped⟩ := filter_of_absent fun handler member =>
        (absent misnumbered handler member).2
      refine ⟨invoked, log_eq, results_eq, ?_, ?_⟩
      · rw [called_eq, none_mapped, none_own]
      · rwa [all_own, ← all_mapped]
  · have same := (mapEvent_number_iff signal).mpr misnumbered
    rw [same] at called_eq perm
    exact ⟨fun _ wrong => absurd wrong misnumbered,
      fun _ => ⟨invoked, log_eq, results_eq, called_eq ▸ .refl _, perm⟩⟩

/-- In every history each call does what it is for, except a raise of a misnumbered signal while
there are handlers for it or for the signal that has its number. -/
theorem everyStep_lawful_iff_delivered (sorter : HandlerSorter ω) (world : ω)
    (calls : List (Call ω)) :
    Runs.EveryStep (step sorter) { world }
      (fun _ before call after => Lawful before call after ↔ Delivered before call) calls := by
  intro _ call _ before after _ _ step_eq
  cases call with
  | registerSignal signals fn =>
    obtain rfl := Option.some.inj step_eq
    exact iff_of_true ⟨[], by simp, rfl, rfl, perm_foldl_register _⟩ trivial
  | clearSignalHandlers =>
    obtain rfl := Option.some.inj step_eq
    exact iff_of_true ⟨[], by simp, rfl, rfl, rfl⟩ trivial
  | clearSignalHandlersOf signal =>
    obtain rfl := Option.some.inj step_eq
    exact iff_of_true ⟨[], by simp, rfl, rfl, rfl⟩ trivial
  | raiseSignal signal =>
    obtain rfl := Option.some.inj step_eq
    exact raise_lawful_iff signal

end Steps

def insertionHandlerSorter : HandlerSorter ω := Sorting.insertion _

/-- A handler that notes the signal it is called with, and stays. -/
def note (signal : Signal) (seen : List Signal) : List Signal × Bool := (seen ++ [signal], true)

/-- One handler for `USR2` and one for `CHILD`. -/
def noting : State (List Signal) where
  manager := {
    handlers := [handlerOf note .usr2, handlerOf note .child]
    signals := [17, 18] }
  world := []

/-- Raising `USR2` calls the handler for `CHILD`, and not its own. -/
theorem usr2_calls_child :
    Runs.run (step insertionHandlerSorter) { world := [] }
        [.registerSignal [.usr2] note, .registerSignal [.child] note] = some noting ∧
      (raise insertionHandlerSorter noting .usr2).world = [.child] ∧
      ¬Lawful noting (.raiseSignal .usr2) (raise insertionHandlerSorter noting .usr2) := by
  refine ⟨rfl, rfl, ?_⟩
  rintro ⟨invoked, log_eq, -, called, -⟩
  obtain rfl : [(handlerOf note .child, true)] = invoked := log_eq
  have signals : [Signal.child].Perm [Signal.usr2] := called.map SignalHandler.signal
  revert signals
  decide

end SignalManager

end Fusion
