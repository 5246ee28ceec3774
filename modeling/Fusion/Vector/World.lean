import Fusion.Vector.Elements

/-!
# Many vectors on one heap

Vectors are constructed, copied, moved, assigned, changed and destroyed in any order.  A vector that
is destroyed leaves its name unused, and an action that would read or free what is not there is no
step.
-/

namespace Fusion.EmbeddedVector

open State

variable {α : Type}

/-- The heap and all vectors, a destroyed one being absent. -/
structure World (α : Type) where
  heap : Heap α
  vectors : List (Option (Vec α))

namespace World

def empty : World α := ⟨[], []⟩

def vec (world : World α) (name : Nat) : Option (Vec α) := world.vectors[name]?.join

/-- One vector and the heap change. -/
def put (world : World α) (name : Nat) (state : State α) : World α :=
  ⟨state.heap, world.vectors.set name (some state.vec)⟩

/-- One vector is new. -/
def add (world : World α) (state : State α) : World α :=
  ⟨state.heap, world.vectors ++ [some state.vec]⟩

/-- An operation of one vector. -/
def on (world : World α) (name : Nat) (operation : State α → Option (State α)) :
    Option (World α) := do
  let vec ← world.vec name
  let next ← operation ⟨world.heap, vec⟩
  return world.put name next

/-- A constructor that begins with the default one. -/
def create (world : World α) (storage : List α) (body : State α → Option (State α)) :
    Option (World α) := do
  let next ← body ⟨world.heap, construct storage⟩
  return world.add next

end World

/-- The fields as the memberwise copy of the base class takes them over. -/
def Vec.sliced (vec : Vec α) (storage : List α) : Vec α :=
  { vec with data := vec.data.foreign, storage := storage }

namespace State

/-- Copy assignment of a vector to itself, which inserts what is left after the reset. -/
def selfCopyAssign (garbage : Nat → Nat → α) (equal : α → α → Bool) (target : State α) :
    Option (State α) :=
  if target.skips equal target.vec then some target
  else do
    let assigned ← target.assign garbage target.vec.offset
    assigned.insertEnd garbage []

/-- Move assignment of a vector to itself: it is reset, zero elements are reserved and inserted, and
it is reset again. -/
def selfMoveAssign (equal : α → α → Bool) (target : State α) : State α :=
  if target.skips equal target.vec then target else target.reset

/-- The body of the constructors from elements. -/
def fillWith (garbage : Nat → Nat → α) (values : List α) (state : State α) : Option (State α) := do
  let reserved ← state.reserve garbage (values.length % 2 ^ 32)
  reserved.insertEnd garbage values

/-- The body of the copy constructors. -/
def copyFrom (garbage : Nat → Nat → α) (source : Vec α) (state : State α) : Option (State α) := do
  let reserved ← state.reserve garbage source.offset
  let values ← State.elements ⟨reserved.heap, source⟩
  reserved.insertEnd garbage values

end State

/-- What can be done with vectors; `storage` is the array of a new one. -/
inductive Action (α : Type)
  | construct (storage : List α)
  | constructFrom (storage values : List α)
  | constructCount (storage : List α) (count : Nat) (value : α)
  | copyConstruct (storage : List α) (source : Nat)
  | moveConstruct (storage : List α) (source : Nat)
  | mutate (name : Nat) (op : Op α)
  | reset (name : Nat)
  | copyAssign (target source : Nat)
  | moveAssign (target source : Nat)
  | assignSpan (target : Nat) (values : List α)
  | assignMutableSpan (target : Nat) (values : List α)
  | assignArray (target : Nat) (values : List α)
  | destroy (name : Nat)
  /-- The implicit copy constructor of the base class. -/
  | copyBase (source : Nat)
  /-- The implicit copy assignment of the base class. -/
  | assignBase (target source : Nat)

section Step

variable [Inhabited α] (garbage : Nat → Nat → α) (locate : Pointer → α → Target)
  (equal : α → α → Bool)

/-- One action; `none` is a name without a vector, a call that the class does not have, or an error
of the memory. -/
def World.step (world : World α) : Action α → Option (World α)
  | .construct storage => world.create storage some
  | .constructFrom storage values => world.create storage (fillWith garbage values)
  | .constructCount storage count value =>
    world.create storage (resize garbage (count % 2 ^ 32) value)
  | .copyConstruct storage source => do
      let vec ← world.vec source
      world.create storage (copyFrom garbage vec)
  | .moveConstruct storage source => do
      let vec ← world.vec source
      guard vec.derived
      let (next, left) ← moveFrom garbage vec ⟨world.heap, EmbeddedVector.construct storage⟩
      return (world.add next).put source ⟨next.heap, left⟩
  | .mutate name op => world.on name (op.perform garbage locate)
  | .reset name => world.on name fun state => do
      guard state.vec.derived
      return state.reset
  | .copyAssign target source => do
      let vec ← world.vec source
      world.on target fun state => do
        guard state.vec.derived
        if target = source then selfCopyAssign garbage equal state
        else copyAssign garbage equal vec state
  | .moveAssign target source => do
      let mine ← world.vec target
      let vec ← world.vec source
      guard (mine.derived ∧ vec.derived)
      if target = source then return world.put target (selfMoveAssign equal ⟨world.heap, mine⟩)
      else do
        let (next, left) ← moveAssign garbage equal vec ⟨world.heap, mine⟩
        return (world.put target next).put source ⟨next.heap, left⟩
  | .assignSpan target values => world.on target fun state => do
      guard state.vec.derived
      assignSpan garbage values state
  | .assignMutableSpan target values => world.on target fun state => do
      guard state.vec.derived
      assignMutableSpan garbage values state
  | .assignArray target values => world.on target fun state => do
      guard state.vec.derived
      assignArray garbage values state
  | .destroy name => do
      let vec ← world.vec name
      let freed ← State.free ⟨world.heap, vec⟩
      return ⟨freed.heap, world.vectors.set name none⟩
  | .copyBase source => do
      let vec ← world.vec source
      return world.add ⟨world.heap, vec.sliced []⟩
  | .assignBase target source => do
      let mine ← world.vec target
      let vec ← world.vec source
      if target = source then return world
      else return world.put target ⟨world.heap, vec.sliced mine.storage⟩

end Step

/-! ## One vector of many -/

namespace World

variable {name : Nat} {world : World α}

theorem lt_length_of_vec {vec : Vec α} (found : world.vec name = some vec) :
    name < world.vectors.length := by
  by_contra outside
  rw [World.vec, List.getElem?_eq_none (by omega)] at found
  exact absurd found (by simp)

theorem vec_put {vec : Vec α} (found : world.vec name = some vec) (state : State α) (other : Nat) :
    (world.put name state).vec other =
      if other = name then some state.vec else world.vec other := by
  rcases eq_or_ne other name with rfl | different
  · rw [if_pos rfl, World.vec, put, List.getElem?_set_self (lt_length_of_vec found),
      Option.join_some]
  · rw [if_neg different, World.vec, put, List.getElem?_set_ne different.symm, World.vec]

theorem vec_add (world : World α) (state : State α) (other : Nat) :
    (world.add state).vec other =
      if other = world.vectors.length then some state.vec else world.vec other := by
  rcases Nat.lt_trichotomy other world.vectors.length with before | rfl | after
  · rw [if_neg (Nat.ne_of_lt before), World.vec, add, List.getElem?_append_left before, World.vec]
  · rw [if_pos rfl, World.vec, add, List.getElem?_concat_length, Option.join_some]
  · rw [if_neg (Nat.ne_of_gt after), World.vec, add, List.getElem?_eq_none (by simp; omega),
      World.vec, List.getElem?_eq_none (by omega)]

theorem vec_length (world : World α) : world.vec world.vectors.length = none := by
  rw [World.vec, List.getElem?_eq_none (Nat.le_refl _)]
  rfl

end World

end Fusion.EmbeddedVector
