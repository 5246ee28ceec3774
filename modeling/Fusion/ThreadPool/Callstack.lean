import Fusion.Library.Runs
import Mathlib.Logic.Function.Basic

/-!
# Call stacks of a thread

An entry of a `Callstack` marks that a function is running in this thread.  Every instantiation of
the template has a stack of its own: the entries of the worker loop are on the one that the macro
selects, and `IsRunningInThisThread` looks at another one.
-/

namespace Fusion.ThreadPool

/-! ## The template -/

/-- The types that the template is used with. -/
inductive TypeName
  | uint8
  | threadPool
  | strand
  | other (name : Nat)
  | pointer (target : TypeName)
deriving DecidableEq, Repr

/-- An instantiation of the template, `Callstack<Key, Value>`. -/
structure Callstack where
  key : TypeName
  value : TypeName := .uint8
deriving DecidableEq, Repr

/-- The instantiation that `FUSION_CALLSTACK_ENTRY(T, value)` selects, by the type of the value. -/
def callstackEntry (key decltype : TypeName) : Callstack := ⟨key, decltype⟩

/-- An `Entry`: its key and the keys from the next entry on. -/
structure Entry where
  stack : Callstack
  key : Nat
  next : List Nat
deriving DecidableEq, Repr

/-- What is local to a thread: for every instantiation the keys from `head` on and `size`, and the
entries that are alive, the latest one first. -/
structure Locals where
  head : Callstack → List Nat := fun _ => []
  size : Callstack → Nat := fun _ => 0
  entries : List Entry := []

namespace Locals

variable (locals : Locals)

/-- The constructor of an `Entry`. -/
def construct (stack : Callstack) (key : Nat) : Locals where
  head := Function.update locals.head stack (key :: locals.head stack)
  size := Function.update locals.size stack (locals.size stack + 1)
  entries := ⟨stack, key, locals.head stack⟩ :: locals.entries

/-- The destructor of the latest `Entry`. -/
def destroy : Option Locals :=
  match locals.entries with
  | [] => none
  | entry :: entries =>
    some {
      head := Function.update locals.head entry.stack entry.next
      size := Function.update locals.size entry.stack (locals.size entry.stack - 1)
      entries }

/-- `Callstack::Get`: the entry with the key. -/
def get (stack : Callstack) (key : Nat) : Option Nat := (locals.head stack).find? (· == key)

/-- `Callstack::Contains`. -/
def contains (stack : Callstack) (key : Nat) : Bool := (locals.get stack key).isSome

/-- `ThreadPool::IsRunningInThisThread`, which looks at `Callstack<ThreadPool>`. -/
def isRunningInThisThread (pool : Nat) : Bool :=
  locals.contains { key := .threadPool } pool

end Locals

/-! ## The events of a thread -/

/-- What a thread enters: the worker loop `RunThread` of a pool, or another function with an
entry. -/
inductive Opening
  | runThread (pool : Nat)
  | entry (stack : Callstack) (key : Nat)
deriving DecidableEq, Repr

/-- The stack that the entry is put on; the argument of the worker loop is a `ThreadPool*`. -/
def Opening.stack : Opening → Callstack
  | .runThread _ => callstackEntry .threadPool (.pointer .threadPool)
  | .entry stack _ => stack

/-- What an entry is made for. -/
def Opening.key : Opening → Nat
  | .runThread pool => pool
  | .entry _ key => key

/-- A frame is entered or the last one left. -/
inductive Event
  | enter (opening : Opening)
  | leave
deriving DecidableEq, Repr

def Locals.step (locals : Locals) : Event → Option Locals
  | .enter opening => some (locals.construct opening.stack opening.key)
  | .leave => locals.destroy

/-- The functions that the thread is inside of, the latest one first. -/
def nest : List Opening → Event → Option (List Opening)
  | inside, .enter opening => some (opening :: inside)
  | [], .leave => none
  | _ :: inside, .leave => some inside

/-! ## The stacks follow the nesting -/

/-- The keys of the entries on one stack. -/
def keysOn (stack : Callstack) (inside : List Opening) : List Nat :=
  (inside.filter (·.stack = stack)).map Opening.key

variable (opening : Opening) (inside : List Opening)

theorem keysOn_cons_self :
    keysOn opening.stack (opening :: inside) = opening.key :: keysOn opening.stack inside := by
  rw [keysOn, List.filter_cons_of_pos (by simp)]
  rfl

variable {stack : Callstack}

theorem keysOn_cons_of_ne {opening : Opening} (other : stack ≠ opening.stack)
    (inside : List Opening) : keysOn stack (opening :: inside) = keysOn stack inside := by
  rw [keysOn, List.filter_cons_of_neg (by simpa using other.symm)]
  rfl

/-- The entries of the functions that the thread is inside of. -/
def entriesOf : List Opening → List Entry
  | [] => []
  | opening :: inside =>
    ⟨opening.stack, opening.key, keysOn opening.stack inside⟩ :: entriesOf inside

/-- What is local to a thread that is inside these functions. -/
def localsOf (inside : List Opening) : Locals where
  head := fun stack => keysOn stack inside
  size := fun stack => (keysOn stack inside).length
  entries := entriesOf inside

variable {β : Type}

theorem update_keysOn (measure : List Nat → β) (opening : Opening) (inside : List Opening) :
    Function.update (fun stack => measure (keysOn stack inside)) opening.stack
        (measure (opening.key :: keysOn opening.stack inside)) =
      fun stack => measure (keysOn stack (opening :: inside)) := by
  funext stack
  by_cases same : stack = opening.stack
  · rw [same, Function.update_self, keysOn_cons_self]
  · rw [Function.update_of_ne same, keysOn_cons_of_ne same]

theorem update_keysOn_cons (measure : List Nat → β) (opening : Opening) (inside : List Opening) :
    Function.update (fun stack => measure (keysOn stack (opening :: inside))) opening.stack
        (measure (keysOn opening.stack inside)) =
      fun stack => measure (keysOn stack inside) := by
  rw [← update_keysOn, Function.update_idem]
  exact Function.update_eq_self (f := fun stack => measure (keysOn stack inside)) opening.stack

theorem construct_localsOf :
    (localsOf inside).construct opening.stack opening.key = localsOf (opening :: inside) := by
  have heads := update_keysOn id opening inside
  have sizes := update_keysOn List.length opening inside
  exact congrArg₂ (Locals.mk · · _) heads sizes

theorem destroy_localsOf : (localsOf (opening :: inside)).destroy = some (localsOf inside) := by
  have heads := update_keysOn_cons id opening inside
  have sizes := update_keysOn_cons List.length opening inside
  have count_eq : (keysOn opening.stack (opening :: inside)).length - 1 =
      (keysOn opening.stack inside).length := by
    rw [keysOn_cons_self]
    rfl
  rw [← count_eq] at sizes
  exact congrArg some (congrArg₂ (Locals.mk · · _) heads sizes)

theorem step_localsOf (event : Event) :
    (localsOf inside).step event = (nest inside event).map localsOf := by
  cases event with
  | enter opening => exact congrArg some (construct_localsOf opening inside)
  | leave =>
    cases inside with
    | nil => rfl
    | cons opening inside => exact destroy_localsOf opening inside

variable {inside : List Opening}

theorem run_of_nested {events : List Event} (nested : Runs.run nest [] events = some inside) :
    Runs.run Locals.step {} events = some (localsOf inside) := by
  have images := Runs.run_map step_localsOf [] events
  rw [nested] at images
  exact images

/-! ## Running in this thread -/

theorem contains_localsOf {key : Nat} :
    (localsOf inside).contains stack key = true ↔
      ∃ opening ∈ inside, opening.stack = stack ∧ opening.key = key := by
  rw [Locals.contains, Locals.get, List.find?_isSome]
  simp [localsOf, keysOn, and_assoc]

theorem isRunningInThisThread_localsOf {pool : Nat} :
    (localsOf inside).isRunningInThisThread pool = true ↔
      Opening.entry { key := .threadPool } pool ∈ inside := by
  rw [Locals.isRunningInThisThread, contains_localsOf]
  constructor
  · rintro ⟨opening, opening_mem, stack_eq, key_eq⟩
    cases opening with
    | runThread other =>
      have value_eq : TypeName.pointer .threadPool = .uint8 := congrArg Callstack.value stack_eq
      cases value_eq
    | entry stack key =>
      obtain rfl := stack_eq
      obtain rfl := key_eq
      exact opening_mem
  · intro opening_mem
    exact ⟨_, opening_mem, rfl, rfl⟩

/-- The macro never selects the stack that is looked at, so with its entries alone no pool is
reported as running. -/
theorem not_isRunningInThisThread {pool : Nat} {inside : List Opening}
    (selected : ∀ stack key, Opening.entry stack key ∈ inside →
      ∃ key_type target, stack = callstackEntry key_type (.pointer target)) :
    (localsOf inside).isRunningInThisThread pool = false := by
  rw [Bool.eq_false_iff, ne_eq, isRunningInThisThread_localsOf]
  intro opening_mem
  obtain ⟨key_type, target, stack_eq⟩ := selected _ _ opening_mem
  cases stack_eq

/-- After well-nested events `IsRunningInThisThread` is right about a pool exactly if the thread is
inside the worker loop of the pool and inside an entry of `Callstack<ThreadPool>` for it, or inside
neither.  Where all entries come from the macro, it always says no. -/
theorem isRunningInThisThread_exact_iff (events : List Event) (inside : List Opening)
    (nested : Runs.run nest [] events = some inside) :
    ∃ locals, Runs.run Locals.step {} events = some locals ∧ ∀ pool,
      ((locals.isRunningInThisThread pool = true ↔ Opening.runThread pool ∈ inside) ↔
        (Opening.runThread pool ∈ inside ↔ Opening.entry { key := .threadPool } pool ∈ inside)) ∧
      ((∀ stack key, Opening.entry stack key ∈ inside →
          ∃ key_type target, stack = callstackEntry key_type (.pointer target)) →
        locals.isRunningInThisThread pool = false) := by
  refine ⟨localsOf inside, run_of_nested nested, fun pool => ⟨?_, not_isRunningInThisThread⟩⟩
  rw [isRunningInThisThread_localsOf]
  exact Iff.comm

/-- Inside the worker loop of pool 1 and an entry of a strand: wrong about the loop's pool, and
right about another one. -/
theorem isRunningInThisThread_exact_iff_worker :
    ∃ locals, Runs.run Locals.step {}
        [.enter (.runThread 1), .enter (.entry (callstackEntry .strand (.pointer .strand)) 7)] =
          some locals ∧
      ∀ pool, ((locals.isRunningInThisThread pool = true ↔
          Opening.runThread pool ∈
            [.entry (callstackEntry .strand (.pointer .strand)) 7, .runThread 1]) ↔
        (Opening.runThread pool ∈
            [.entry (callstackEntry .strand (.pointer .strand)) 7, .runThread 1] ↔
          Opening.entry { key := .threadPool } pool ∈
            [.entry (callstackEntry .strand (.pointer .strand)) 7, .runThread 1])) ∧
        locals.isRunningInThisThread pool = false := by
  obtain ⟨locals, executed, exact_iff⟩ := isRunningInThisThread_exact_iff
    [.enter (.runThread 1), .enter (.entry (callstackEntry .strand (.pointer .strand)) 7)] _ rfl
  refine ⟨locals, executed, fun pool => ⟨(exact_iff pool).1, (exact_iff pool).2 ?_⟩⟩
  intro stack key member
  rcases List.mem_cons.mp member with same | other
  · cases same
    exact ⟨_, _, rfl⟩
  · cases List.mem_singleton.mp other

/-- A worker that asks for its own pool gets the answer no. -/
theorem isRunningInThisThread_of_worker :
    ∃ locals, Runs.run nest [] [.enter (.runThread 1)] = some [.runThread 1] ∧
      Runs.run Locals.step {} [.enter (.runThread 1)] = some locals ∧
      locals.isRunningInThisThread 1 = false :=
  ⟨_, rfl, rfl, rfl⟩

end Fusion.ThreadPool
