import Fusion.ConsoleLogger
import Fusion.Library.Runs

/-!
# Where records go

A logger passes a record to the root that was running when the logger was made, and to sinks of its
own.  The root is kept alive by the logger: it outlives `Logging::Stop`, and a root that is started
later has no part in what the logger does.
-/

namespace Fusion.Logging.Routing

open Runs

/-! ## Roots and loggers -/

/-- `Internal::Logging`.  Sinks are the callbacks of the program, by number. -/
structure Root where
  level : LogLevel := .error
  sinks : List Nat := []

/-- A `Logger` with what its closure holds. -/
structure Logger where
  name : List Char
  level : LogLevel := .error
  propagate : Bool := true
  /-- The root in the closure of `m_sink`; a function that was moved from is empty. -/
  sink : Option Nat
  sinks : List Nat := []

/-- Whether a record is important enough. -/
def passes (record : LogRecord) (level : LogLevel) : Bool := level.number ≤ record.level.number

/-- `Internal::Logging::Log`: the sinks that are called. -/
def Root.log (root : Root) (record : LogRecord) : List Nat :=
  if passes record root.level then root.sinks else []

namespace Logger

/-- `Logger::AddSink`. -/
def addSink (logger : Logger) (sink : Nat) : Logger :=
  { logger with sinks := logger.sinks ++ [sink], propagate := false }

def duplicate (logger : Logger) (name : List Char) : Logger := { logger with name }

/-- What is left of a logger whose members were moved; the atomics are copied. -/
def movedFrom (logger : Logger) : Logger := { logger with name := [], sink := none, sinks := [] }

/-- `Logger::Log`: the sinks that are called in turn.  To call an empty function is an exception. -/
def log (logger : Logger) (roots : List Root) (record : LogRecord) : Option (List Nat) := do
  let propagated ←
    if logger.propagate ∧ passes record logger.level then
      logger.sink.bind fun root => roots[root]?.map (·.log record)
    else some []
  return propagated ++ if passes record logger.level then logger.sinks else []

end Logger

/-! ## The system -/

/-- The roots and the loggers of a process. -/
structure System where
  /-- All roots that were started; one that no logger uses any more does no harm here. -/
  roots : List Root := []
  /-- The root that `Instance` returns. -/
  current : Option Nat := none
  loggers : List Logger := []

/-- The calls on the system and on loggers. -/
inductive Call
  | start
  | stop
  | addSink (sink : Nat)
  | setLogLevel (level : LogLevel)
  /-- Either function `Logging::Get`. -/
  | get (name : List Char) (sinks : List Nat)
  | loggerAddSink (logger sink : Nat)
  | loggerSetLogLevel (logger : Nat) (level : LogLevel)
  | loggerSetPropagate (logger : Nat) (value : Bool)
  | duplicate (logger : Nat) (name : List Char)
  | moveConstruct (source : Nat)
  | moveAssign (target source : Nat)
deriving DecidableEq

namespace System

/-- A call on the running root, which is asserted to be there. -/
def onRoot (system : System) (change : Root → Root) : Option System :=
  system.current.bind fun current =>
    system.roots[current]?.map fun root =>
      { system with roots := system.roots.set current (change root) }

/-- A call on a logger. -/
def onLogger (system : System) (index : Nat) (change : Logger → Logger) : Option System :=
  system.loggers[index]?.map fun logger =>
    { system with loggers := system.loggers.set index (change logger) }

def get (system : System) (name : List Char) (sinks : List Nat) : Option System :=
  system.current.bind fun current =>
    system.roots[current]?.bind fun root =>
      if name = [] then none
      else
        let logger := sinks.foldl Logger.addSink { name, sink := some current }
        some { system with loggers := system.loggers ++ [{ logger with level := root.level }] }

def duplicate (system : System) (index : Nat) (name : List Char) : Option System :=
  system.loggers[index]?.bind fun logger =>
    if name = [] then none
    else some { system with loggers := system.loggers ++ [logger.duplicate name] }

def moveConstruct (system : System) (source : Nat) : Option System :=
  system.loggers[source]?.map fun logger =>
    { system with loggers := system.loggers.set source logger.movedFrom ++ [logger] }

/-- Loggers of one name are taken for the same logger. -/
def moveAssign (system : System) (target source : Nat) : Option System :=
  system.loggers[target]?.bind fun old =>
    system.loggers[source]?.map fun new =>
      if old.name ≠ new.name then
        { system with loggers := (system.loggers.set source new.movedFrom).set target new }
      else system

end System

/-- The effect of a call, where it is defined. -/
def step (system : System) : Call → Option System
  | .start =>
    match system.current with
    | some _ => some system
    | none =>
      some { system with roots := system.roots ++ [{}], current := some system.roots.length }
  | .stop => some { system with current := none }
  | .addSink sink => system.onRoot fun root => { root with sinks := root.sinks ++ [sink] }
  | .setLogLevel level => system.onRoot fun root => { root with level }
  | .get name sinks => system.get name sinks
  | .loggerAddSink logger sink => system.onLogger logger (·.addSink sink)
  | .loggerSetLogLevel logger level => system.onLogger logger fun logger => { logger with level }
  | .loggerSetPropagate logger value =>
    system.onLogger logger fun logger => { logger with propagate := value }
  | .duplicate logger name => system.duplicate logger name
  | .moveConstruct source => system.moveConstruct source
  | .moveAssign target source => system.moveAssign target source

/-- The loggers that a call may change. -/
def Call.changes : Call → List Nat
  | .loggerAddSink logger _ | .loggerSetLogLevel logger _ | .loggerSetPropagate logger _ => [logger]
  | .moveConstruct source => [source]
  | .moveAssign target source => [target, source]
  | _ => []

/-- What a call makes of the running root. -/
def Call.onRoot (root : Root) : Call → Root
  | .addSink sink => { root with sinks := root.sinks ++ [sink] }
  | .setLogLevel level => { root with level }
  | _ => root

/-- The sinks that a record reaches through a logger of a root. -/
def Logger.reached (logger : Logger) (root : Root) (record : LogRecord) : List Nat :=
  if passes record logger.level then
    (if logger.propagate then root.log record else []) ++ logger.sinks
  else []

theorem Logger.log_eq {logger : Logger} {roots : List Root} {number : Nat} {root : Root}
    (sink_eq : logger.sink = some number) (root_eq : roots[number]? = some root)
    (record : LogRecord) : logger.log roots record = some (logger.reached root record) := by
  rw [log, reached, sink_eq, Option.bind_some, root_eq]
  cases passes record logger.level <;> cases logger.propagate <;> rfl

section Steps

variable {before after : System} {call : Call} {index number : Nat} {logger : Logger} {root : Root}

/-- The ways in which calls change the system. -/
inductive Effect (before : System) : Call → System → Prop
  | running {current : Nat} (current_eq : before.current = some current) :
      Effect before .start before
  | started (current_eq : before.current = none) :
      Effect before .start
        { before with roots := before.roots ++ [{}], current := some before.roots.length }
  | stopped : Effect before .stop { before with current := none }
  | root {call : Call} {current : Nat} {root : Root} (current_eq : before.current = some current)
      (root_eq : before.roots[current]? = some root) (goes_on : call ≠ .stop) :
      Effect before call { before with roots := before.roots.set current (call.onRoot root) }
  | loggers {call : Call} {loggers : List Logger} (goes_on : call ≠ .stop)
      (spares_root : ∀ root, call.onRoot root = root)
      (kept : ∀ index logger, index ∉ call.changes → before.loggers[index]? = some logger →
        loggers[index]? = some logger) :
      Effect before call { before with loggers }

theorem getElem?_append_of_some {loggers more : List Logger}
    (logger_eq : loggers[index]? = some logger) : (loggers ++ more)[index]? = some logger := by
  obtain ⟨inside, -⟩ := List.getElem?_eq_some_iff.mp logger_eq
  rw [List.getElem?_append_left inside, logger_eq]

theorem effect_onRoot {change : Root → Root} (change_eq : before.onRoot change = some after)
    (same : ∀ root, change root = call.onRoot root) (goes_on : call ≠ .stop) :
    Effect before call after := by
  obtain ⟨current, current_eq, change_eq⟩ := Option.bind_eq_some_iff.mp change_eq
  obtain ⟨root, root_eq, rfl⟩ := Option.map_eq_some_iff.mp change_eq
  rw [same]
  exact .root current_eq root_eq goes_on

theorem effect_onLogger {change : Logger → Logger}
    (change_eq : before.onLogger index change = some after) (goes_on : call ≠ .stop)
    (spares_root : ∀ root, call.onRoot root = root) (changed : index ∈ call.changes) :
    Effect before call after := by
  obtain ⟨logger, logger_eq, rfl⟩ := Option.map_eq_some_iff.mp change_eq
  refine .loggers goes_on spares_root fun other kept untouched other_eq => ?_
  have different : index ≠ other := fun same => untouched (same ▸ changed)
  rwa [List.getElem?_set_ne different]

variable (step_eq : step before call = some after)
include step_eq

theorem effect_of_step : Effect before call after := by
  cases call with
  | start =>
    rw [step] at step_eq
    cases current_eq : before.current with
    | none =>
      rw [current_eq] at step_eq
      obtain rfl := Option.some.inj step_eq
      exact .started current_eq
    | some current =>
      rw [current_eq] at step_eq
      obtain rfl := Option.some.inj step_eq
      exact .running current_eq
  | stop =>
    obtain rfl := Option.some.inj step_eq
    exact .stopped
  | addSink sink => exact effect_onRoot step_eq (fun _ => rfl) (by simp)
  | setLogLevel level => exact effect_onRoot step_eq (fun _ => rfl) (by simp)
  | loggerAddSink index sink =>
    exact effect_onLogger step_eq (by simp) (fun _ => rfl) (List.mem_singleton_self index)
  | loggerSetLogLevel index level =>
    exact effect_onLogger step_eq (by simp) (fun _ => rfl) (List.mem_singleton_self index)
  | loggerSetPropagate index value =>
    exact effect_onLogger step_eq (by simp) (fun _ => rfl) (List.mem_singleton_self index)
  | get name sinks =>
    obtain ⟨current, -, step_eq⟩ := Option.bind_eq_some_iff.mp step_eq
    obtain ⟨root, -, step_eq⟩ := Option.bind_eq_some_iff.mp step_eq
    split at step_eq
    · cases step_eq
    · obtain rfl := Option.some.inj step_eq
      exact .loggers (by simp) (fun _ => rfl) fun _ _ _ => getElem?_append_of_some
  | duplicate index name =>
    obtain ⟨logger, -, step_eq⟩ := Option.bind_eq_some_iff.mp step_eq
    split at step_eq
    · cases step_eq
    · obtain rfl := Option.some.inj step_eq
      exact .loggers (by simp) (fun _ => rfl) fun _ _ _ => getElem?_append_of_some
  | moveConstruct source =>
    obtain ⟨logger, -, rfl⟩ := Option.map_eq_some_iff.mp step_eq
    refine .loggers (by simp) (fun _ => rfl) fun index kept untouched kept_eq => ?_
    have different : source ≠ index := fun same => untouched (List.mem_singleton.mpr same.symm)
    apply getElem?_append_of_some
    rwa [List.getElem?_set_ne different]
  | moveAssign target source =>
    obtain ⟨old, -, step_eq⟩ := Option.bind_eq_some_iff.mp step_eq
    obtain ⟨new, -, rfl⟩ := Option.map_eq_some_iff.mp step_eq
    split
    · refine .loggers (by simp) (fun _ => rfl) fun index kept untouched kept_eq => ?_
      simp only [Call.changes, List.mem_cons, List.not_mem_nil, or_false, not_or] at untouched
      rwa [List.getElem?_set_ne (Ne.symm untouched.1), List.getElem?_set_ne (Ne.symm untouched.2)]
    · exact .loggers (by simp) (fun _ => rfl) fun _ _ _ kept_eq => kept_eq

end Steps

/-! ## Records after a run -/

end Fusion.Logging.Routing
