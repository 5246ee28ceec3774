import Fusion.Library.Heap
import Fusion.Library.Memory
import Mathlib.Algebra.Group.Nat.Defs

/-!
# The embedded vector

`EmbeddedVector<T, Length>` keeps up to `Length` elements of a trivially copyable type in an array
of its own and moves them to the heap when they outgrow it.  The memory that an operation touches
is modelled with it: `none` is an access outside the array, a pointer given back to the allocator
that did not come from it, or an arithmetic overflow that the language leaves undefined.
-/

namespace Fusion.EmbeddedVector

/-- What `m_data` points to. -/
inductive Pointer
  | null
  /-- The vector's own `m_storage`. -/
  | storage
  /-- A block of the heap. -/
  | block (address : Nat)
  /-- The `m_storage` of another vector. -/
  | other
deriving Repr, DecidableEq

/-- The fields of a vector; `Length` is the length of `m_storage`. -/
structure Vec (α : Type) where
  data : Pointer
  offset : Nat
  capacity : Nat
  dynamic : Bool
  storage : List α
deriving Repr, DecidableEq

/-- The vector is not of the specialisation for `Length` zero. -/
def Vec.derived {α : Type} (vec : Vec α) : Bool := !vec.storage.isEmpty

/-- A vector and the heap it lives beside. -/
structure State (α : Type) where
  heap : Heap α
  vec : Vec α
deriving Repr, DecidableEq

/-- `MaxSize`. -/
def maxSize : Nat := 0x7FFFFFFE

theorem maxSize_lt : maxSize < 2 ^ 31 := by decide

variable {size : Nat}

theorem mod_of_le_maxSize (below : size ≤ maxSize) : size % 2 ^ 32 = size :=
  Nat.mod_eq_of_lt (Nat.lt_of_le_of_lt below (by decide))

/-- The pointer to the vector's own storage, which the specialisation for `Length` zero lacks. -/
def Vec.home {α : Type} (vec : Vec α) : Pointer :=
  if vec.storage.isEmpty then .null else .storage

/-- `Reset(m_storage, Length)`: the capacity is a field of 31 bits. -/
def Vec.reset {α : Type} (vec : Vec α) : Vec α :=
  { data := vec.home
    offset := 0
    capacity := vec.storage.length % 2 ^ 31
    dynamic := false
    storage := vec.storage }

/-- The default constructor. -/
def construct {α : Type} (storage : List α) : Vec α :=
  Vec.reset ⟨.null, 0, 0, false, storage⟩

namespace State

variable {α : Type}

/-! ## Memory -/

/-- The array that `m_data` points to. -/
def array (state : State α) : Option (List α) :=
  match state.vec.data with
  | .null => some []
  | .storage => some state.vec.storage
  | .block address => state.heap.block address
  | .other => none

/-- The array with other contents. -/
def setArray (state : State α) (contents : List α) : State α :=
  match state.vec.data with
  | .null => state
  | .storage => { state with vec := { state.vec with storage := contents } }
  | .block address => { state with heap := state.heap.write address contents }
  | .other => state

/-- Read elements, where they are in the storage. -/
def load (state : State α) (offset count : Nat) : Option (List α) := do
  let contents ← state.array
  Memory.load contents offset count

/-- Write elements, where they are in the storage. -/
def store (state : State α) (offset : Nat) (values : List α) : Option (State α) := do
  let contents ← state.array
  let written ← Memory.store contents offset values
  return state.setArray written

def setOffset (state : State α) (offset : Nat) : State α :=
  { state with vec := { state.vec with offset := offset } }

def reset (state : State α) : State α := { state with vec := state.vec.reset }

/-- The elements from `begin()` to `end()`. -/
def elements (state : State α) : Option (List α) := state.load 0 state.vec.offset

/-- `Free`. -/
def free (state : State α) : Option (State α) :=
  if state.vec.dynamic then
    match state.vec.data with
    | .null => some state
    | .block address => (state.heap.free address).map fun heap => { state with heap := heap }
    | .storage => none
    | .other => none
  else some state

/-! ## Growth -/

/-- `Realloc`: a block of the capacity is allocated, the elements are moved to it and the old block
is freed.  What a fresh block contains is arbitrary. -/
def realloc (garbage : Nat → Nat → α) (size : Nat) (state : State α) : Option (State α) := do
  let capacity := min size maxSize
  let address := state.heap.length
  let moved ← state.load 0 state.vec.offset
  let buffer ← Memory.store ((List.range capacity).map (garbage address)) 0 moved
  let freed ← { state with heap := state.heap.alloc buffer }.free
  return { freed with
    vec := { freed.vec with data := .block address, capacity := capacity, dynamic := true } }

/-- `Reserve(size, true)`. -/
def reserve (garbage : Nat → Nat → α) (size : Nat) (state : State α) : Option (State α) :=
  if state.vec.capacity < size then state.realloc garbage size else some state

/-- `Reserve(size, false)`: the bit-field is promoted to a signed integer of 32 bits, whose sum is
to fit. -/
def reserveGrowing (garbage : Nat → Nat → α) (size : Nat) (state : State α) : Option (State α) :=
  if state.vec.capacity < size then
    if state.vec.capacity + state.vec.capacity < 2 ^ 31 then
      state.realloc garbage (max size ((state.vec.capacity + state.vec.capacity) / 2))
    else none
  else some state

/-! ## Elements -/

/-- `PushBack(Args&&...)`, and `EmplaceBack` with it: the value is constructed in the slot behind
the last element. -/
def pushBack (garbage : Nat → Nat → α) (value : α) (state : State α) : Option (State α) := do
  let grown ← state.reserveGrowing garbage ((state.vec.offset + 1) % 2 ^ 32)
  let stored ← grown.store grown.vec.offset [value]
  return stored.setOffset ((stored.vec.offset + 1) % 2 ^ 32)

/-- What an element is as an address, for an element type that converts to one. -/
inductive Target
  | null
  /-- A slot of the array that `m_data` points to. -/
  | slot (index : Nat)
  | elsewhere

/-- Construct a value at an address; the allocation function of the placement does not throw, so
nothing is constructed at a null pointer. -/
def constructAt (target : Target) (value : α) (state : State α) : Option (State α) :=
  match target with
  | .null => some state
  | .slot index => state.store index [value]
  | .elsewhere => none

/-- `PushBack(const T&)`, and `EmplaceBack` of a constant with it: the slot behind the last element
is not the place where the value is constructed, its contents are. -/
def pushBackConst (garbage : Nat → Nat → α) (locate : Pointer → α → Target) (value : α)
    (state : State α) : Option (State α) := do
  let grown ← state.reserveGrowing garbage ((state.vec.offset + 1) % 2 ^ 32)
  let stale ← (← grown.load grown.vec.offset 1).head?
  let stored ← grown.constructAt (locate grown.vec.data stale) value
  return stored.setOffset ((stored.vec.offset + 1) % 2 ^ 32)

/-- The reserve at the head of `Insert`. -/
def reserveFor (garbage : Nat → Nat → α) (count : Nat) (state : State α) : Option (State α) :=
  if state.vec.capacity ≤ state.vec.offset + count then
    state.reserve garbage ((state.vec.offset + count) % 2 ^ 32)
  else some state

/-- `Insert(at, data, count)`; a position behind the end is the caller's error. -/
def insert (garbage : Nat → Nat → α) (position : Nat) (data : List α) (state : State α) :
    Option (State α) := do
  guard (position ≤ state.vec.offset)
  let grown ← state.reserveFor garbage data.length
  let tail ← grown.load position (grown.vec.offset - position)
  let shifted ← grown.store (position + data.length) tail
  let filled ← shifted.store position data
  return filled.setOffset ((filled.vec.offset + data.length) % 2 ^ 32)

/-- The loop of `PopBack(count)`. -/
def popLoop : Nat → Nat → Nat
  | 0, offset => offset
  | count + 1, offset => if offset = 0 then 0 else popLoop count (offset - 1)

/-- `PopBack(count)`; its assertion is empty in a release build. -/
def popBack (count : Nat) (state : State α) : State α :=
  state.setOffset (popLoop count state.vec.offset)

/-- The elements that `Resize` adds. -/
def growTo (garbage : Nat → Nat → α) (size : Nat) (value : α) (state : State α) :
    Option (State α) := do
  let grown ← state.reserve garbage size
  grown.store grown.vec.offset (List.replicate (size - grown.vec.offset) value)

/-- `Resize(size, value)`. -/
def resize (garbage : Nat → Nat → α) (size : Nat) (value : α) (state : State α) :
    Option (State α) :=
  let size := min size maxSize
  if state.vec.offset < size then
    (state.growTo garbage size value).map fun grown => grown.setOffset size
  else some (state.setOffset size)

/-- `Clear`. -/
def clear [Inhabited α] (garbage : Nat → Nat → α) (state : State α) : Option (State α) :=
  state.resize garbage 0 default

/-- `Erase(first, last)`; positions out of order are the caller's error. -/
def erase (first last : Nat) (state : State α) : Option (State α) := do
  guard (first ≤ last ∧ last ≤ state.vec.offset)
  let tail ← state.load last (state.vec.offset - last)
  let moved ← state.store first tail
  return moved.setOffset (first + tail.length)

/-- `Erase(pos)` erases up to the end. -/
def eraseFrom (position : Nat) (state : State α) : Option (State α) :=
  state.erase position state.vec.offset

/-! ## Assignment -/

/-- `Assign(size, m_storage, Length)`; the size is narrowed to 32 bits. -/
def assign (garbage : Nat → Nat → α) (size : Nat) (state : State α) : Option (State α) :=
  state.reset.reserve garbage (size % 2 ^ 32)

/-- `Insert(end(), data, count)`. -/
def insertEnd (garbage : Nat → Nat → α) (data : List α) (state : State α) : Option (State α) :=
  state.insert garbage state.vec.offset data

/-- Assignment from a vector of the same `Length` is skipped when the two compare equal. -/
def skips (equal : α → α → Bool) (target : State α) (source : Vec α) : Bool :=
  target.vec.storage.length == source.storage.length &&
    match target.elements, State.elements ⟨target.heap, source⟩ with
    | some mine, some theirs => mine.isEqv theirs equal
    | _, _ => false

/-- Copy assignment that is not skipped. -/
def replaceFrom (garbage : Nat → Nat → α) (source : Vec α) (target : State α) :
    Option (State α) := do
  let assigned ← target.assign garbage source.offset
  let values ← State.elements ⟨assigned.heap, source⟩
  assigned.insertEnd garbage values

/-- `operator=(const EmbeddedVector&)`. -/
def copyAssign (garbage : Nat → Nat → α) (equal : α → α → Bool) (source : Vec α)
    (target : State α) : Option (State α) :=
  if target.skips equal source then some target else target.replaceFrom garbage source

end State

/-- The same place seen from another vector. -/
def Pointer.foreign : Pointer → Pointer
  | .storage => .other
  | pointer => pointer

namespace State

variable {α : Type}

/-- `Move` after the `Reset` of the target that only assignment asks for: a block is handed over,
anything else is copied; the source is reset. -/
def moveFrom (garbage : Nat → Nat → α) (source : Vec α) (target : State α) :
    Option (State α × Vec α) :=
  if source.dynamic then
    some ({ target with
      vec := { target.vec with
        data := source.data.foreign
        offset := source.offset
        capacity := source.capacity } }, source.reset)
  else do
    let reserved ← target.reserve garbage source.offset
    let values ← State.elements ⟨reserved.heap, source⟩
    let inserted ← reserved.insertEnd garbage values
    return (inserted, source.reset)

/-- `operator=(EmbeddedVector&&)`. -/
def moveAssign (garbage : Nat → Nat → α) (equal : α → α → Bool) (source : Vec α)
    (target : State α) : Option (State α × Vec α) :=
  if target.skips equal source then some (target, source)
  else target.reset.moveFrom garbage source

/-- `operator=(std::span<const T>)`. -/
def assignSpan (garbage : Nat → Nat → α) (values : List α) (target : State α) :
    Option (State α) := do
  let assigned ← target.assign garbage values.length
  assigned.insertEnd garbage values

/-- `operator=(std::span<T>)` does not call `Assign`. -/
def assignMutableSpan (garbage : Nat → Nat → α) (values : List α) (target : State α) :
    Option (State α) := do
  let reserved ← target.reserve garbage (values.length % 2 ^ 32)
  reserved.insertEnd garbage values

/-- `operator=(const T(&)[N])` calls nothing but `Assign`. -/
def assignArray (garbage : Nat → Nat → α) (values : List α) (target : State α) : Option (State α) :=
  target.assign garbage values.length

end State

/-! ## What the primitives can do -/

section Primitives

open State

variable {α : Type} {state : State α}

theorem free_cases {freed : State α} (free_eq : state.free = some freed) :
    freed.vec = state.vec ∧
      (freed.heap = state.heap ∧ (state.vec.dynamic = false ∨ state.vec.data = .null) ∨
        ∃ address, state.vec.dynamic = true ∧ state.vec.data = .block address ∧
          state.heap.Live address ∧ freed.heap = state.heap.set address none) := by
  unfold free at free_eq
  split at free_eq
  · rename_i dynamic
    split at free_eq
    · rename_i null
      obtain rfl := Option.some.inj free_eq
      exact ⟨rfl, .inl ⟨rfl, .inr null⟩⟩
    · rename_i address data_eq
      obtain ⟨heap, heap_eq, rfl⟩ := Option.map_eq_some_iff.mp free_eq
      rw [Heap.free, Option.ite_none_right_eq_some, Option.some.injEq] at heap_eq
      exact ⟨rfl, .inr ⟨address, dynamic, data_eq, heap_eq.1, heap_eq.2.symm⟩⟩
    · exact absurd free_eq (by simp)
    · exact absurd free_eq (by simp)
  · rename_i embedded
    obtain rfl := Option.some.inj free_eq
    exact ⟨rfl, .inl ⟨rfl, .inl (Bool.eq_false_iff.mpr embedded)⟩⟩

variable {garbage : Nat → Nat → α} {next : State α}

theorem realloc_cases (realloc_eq : state.realloc garbage size = some next) :
    ∃ buffer freed, buffer.length = min size maxSize ∧
      State.free { state with heap := state.heap.alloc buffer } = some freed ∧
      next = { freed with
        vec := { state.vec with
          data := .block state.heap.length
          capacity := min size maxSize
          dynamic := true } } := by
  obtain ⟨moved, -, realloc_eq⟩ := Option.bind_eq_some_iff.mp realloc_eq
  obtain ⟨buffer, buffer_eq, realloc_eq⟩ := Option.bind_eq_some_iff.mp realloc_eq
  obtain ⟨freed, free_eq, realloc_eq⟩ := Option.bind_eq_some_iff.mp realloc_eq
  obtain ⟨fits, rfl⟩ := Memory.store_eq_some_iff.mp buffer_eq
  refine ⟨_, freed, ?_, free_eq, ?_⟩
  · rw [Memory.length_copyAt fits, List.length_map, List.length_range]
  · have vec_eq := (free_cases free_eq).1
    obtain ⟨heap, vec⟩ := freed
    obtain rfl : vec = state.vec := vec_eq
    exact (Option.some.inj realloc_eq).symm

/-- `Reserve` does nothing or reallocates. -/
theorem reserve_cases (reserve_eq : state.reserve garbage size = some next) :
    size ≤ state.vec.capacity ∧ next = state ∨
      state.vec.capacity < size ∧ state.realloc garbage size = some next := by
  unfold reserve at reserve_eq
  split at reserve_eq
  · rename_i grows
    exact .inr ⟨grows, reserve_eq⟩
  · rename_i fits
    exact .inl ⟨Nat.le_of_not_lt fits, (Option.some.inj reserve_eq).symm⟩

/-- `Insert` reserves, moves the elements behind the position and copies the new ones. -/
theorem insert_cases {position : Nat} {data : List α}
    (insert_eq : state.insert garbage position data = some next) :
    ∃ grown tail shifted filled, state.reserveFor garbage data.length = some grown ∧
      grown.store (position + data.length) tail = some shifted ∧
      shifted.store position data = some filled ∧
      next = filled.setOffset ((filled.vec.offset + data.length) % 2 ^ 32) := by
  obtain ⟨-, -, insert_eq⟩ := Option.bind_eq_some_iff.mp insert_eq
  obtain ⟨grown, grown_eq, insert_eq⟩ := Option.bind_eq_some_iff.mp insert_eq
  obtain ⟨tail, -, insert_eq⟩ := Option.bind_eq_some_iff.mp insert_eq
  obtain ⟨shifted, shift_eq, insert_eq⟩ := Option.bind_eq_some_iff.mp insert_eq
  obtain ⟨filled, fill_eq, insert_eq⟩ := Option.bind_eq_some_iff.mp insert_eq
  exact ⟨grown, tail, shifted, filled, grown_eq, shift_eq, fill_eq,
    (Option.some.inj insert_eq).symm⟩

end Primitives

end Fusion.EmbeddedVector
