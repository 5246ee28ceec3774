import Fusion.Vector.EmbeddedVector

/-!
# The embedded vector as a list

Over every sequence of operations that stays below the largest size, the elements of a vector are
those of a list, also across its moves to the heap, as long as no constant is pushed whose slot
does not happen to point to itself.
-/

namespace Fusion.EmbeddedVector

open State

variable {α : Type}

/-! ## Memory -/

@[simp]
theorem offset_setArray (state : State α) (contents : List α) :
    (state.setArray contents).vec.offset = state.vec.offset := by
  unfold setArray
  split <;> rfl

@[simp]
theorem capacity_setArray (state : State α) (contents : List α) :
    (state.setArray contents).vec.capacity = state.vec.capacity := by
  unfold setArray
  split <;> rfl

@[simp]
theorem data_setArray (state : State α) (contents : List α) :
    (state.setArray contents).vec.data = state.vec.data := by
  unfold setArray
  split <;> rfl

@[simp]
theorem dynamic_setArray (state : State α) (contents : List α) :
    (state.setArray contents).vec.dynamic = state.vec.dynamic := by
  unfold setArray
  split <;> rfl

@[simp]
theorem setArray_setArray (state : State α) (first second : List α) :
    (state.setArray first).setArray second = state.setArray second := by
  obtain ⟨heap, ⟨data, offset, capacity, dynamic, storage⟩⟩ := state
  cases data with
  | null => rfl
  | storage => rfl
  | block address => simp only [setArray, Heap.write, List.set_set]
  | other => rfl

variable {contents : List α} {state : State α}

theorem array_setArray {written : List α} (array_eq : state.array = some contents)
    (length_eq : written.length = contents.length) :
    (state.setArray written).array = some written := by
  unfold array at array_eq ⊢
  rw [data_setArray]
  unfold setArray
  split at array_eq
  · obtain rfl := Option.some.inj array_eq
    rw [List.length_eq_zero_iff.mp length_eq]
  · rfl
  · rename_i address data_eq
    have live : state.heap.Live address := by
      rw [Heap.Live, array_eq]
      rfl
    simp only [Heap.block_write live, if_true]
  · exact absurd array_eq (by simp)

theorem load_eq {state : State α} {contents : List α} (array_eq : state.array = some contents)
    {offset count : Nat} (fits : offset + count ≤ contents.length) :
    state.load offset count = some ((contents.drop offset).take count) := by
  rw [load, array_eq, Option.bind_eq_bind, Option.bind_some, Memory.load_eq_some fits]

variable {offset : Nat} {values : List α}

theorem store_eq (array_eq : state.array = some contents)
    (fits : offset + values.length ≤ contents.length) :
    state.store offset values = some (state.setArray (Memory.copyAt contents offset values)) := by
  rw [store, array_eq, Option.bind_eq_bind, Option.bind_some, Memory.store_eq_some fits]
  rfl

variable {stored : State α}

/-- The elements of the vector are the list, in an array with room for the capacity. -/
structure Holds (state : State α) (list : List α) : Prop where
  array : ∃ contents, state.array = some contents ∧ contents.take list.length = list ∧
    state.vec.capacity ≤ contents.length
  offset_eq : state.vec.offset = list.length
  length_le : list.length ≤ state.vec.capacity
  capacity_lt : state.vec.capacity < 2 ^ 31
  owned : state.vec.dynamic = true → ∃ address, state.vec.data = .block address

variable {list : List α}

theorem Holds.elements_eq (holds : Holds state list) : state.elements = some list := by
  obtain ⟨contents, array_eq, list_eq, capacity_le⟩ := holds.array
  have length_le := holds.length_le
  rw [elements, holds.offset_eq, load_eq array_eq (by omega), List.drop_zero, list_eq]

variable {count : Nat}

theorem Holds.setOffset (holds : Holds state list) (count_le : count ≤ list.length) :
    Holds (state.setOffset count) (list.take count) := by
  have length_eq : (list.take count).length = count := by
    rw [List.length_take, Nat.min_eq_left count_le]
  obtain ⟨contents, array_eq, list_eq, capacity_le⟩ := holds.array
  refine ⟨⟨contents, array_eq, ?_, capacity_le⟩, length_eq.symm, ?_, holds.capacity_lt, holds.owned⟩
  · rw [length_eq, ← list_eq, List.take_take, Nat.min_eq_left count_le]
  · rw [length_eq]
    exact Nat.le_trans count_le holds.length_le

theorem Holds.written {updated written : List α} (holds : Holds state list)
    (array_eq : state.array = some contents) (capacity_le : state.vec.capacity ≤ contents.length)
    (length_eq : written.length = contents.length)
    (updated_eq : written.take updated.length = updated)
    (fits : updated.length ≤ state.vec.capacity) :
    Holds ((state.setArray written).setOffset updated.length) updated where
  array := by
    refine ⟨written, array_setArray array_eq length_eq, updated_eq, ?_⟩
    change (state.setArray written).vec.capacity ≤ written.length
    rw [capacity_setArray, length_eq]
    exact capacity_le
  offset_eq := rfl
  length_le := by
    change updated.length ≤ (state.setArray written).vec.capacity
    rw [capacity_setArray]
    exact fits
  capacity_lt := by
    change (state.setArray written).vec.capacity < 2 ^ 31
    rw [capacity_setArray]
    exact holds.capacity_lt
  owned := by
    change (state.setArray written).vec.dynamic = true →
      ∃ address, (state.setArray written).vec.data = .block address
    rw [dynamic_setArray, data_setArray]
    exact holds.owned

/-! ## Growth -/

variable {size : Nat}

section Growth

variable (garbage : Nat → Nat → α)

omit garbage in
/-- Freeing the old block leaves the one just allocated. -/
theorem Holds.free_alloc (holds : Holds state list) (buffer : List α) :
    ∃ heap, State.free { state with heap := state.heap.alloc buffer } =
        some { state with heap := heap } ∧
      heap.block state.heap.length = some buffer := by
  have fresh : (state.heap.alloc buffer).block state.heap.length = some buffer := by
    rw [Heap.block_alloc, if_pos rfl]
  unfold State.free
  split
  · rename_i dynamic
    obtain ⟨address, data_eq⟩ := holds.owned dynamic
    obtain ⟨contents, array_eq, -⟩ := holds.array
    have block_eq : state.heap.block address = some contents := by
      rw [State.array, data_eq] at array_eq
      exact array_eq
    have live : state.heap.Live address := by
      rw [Heap.Live, block_eq]
      rfl
    have other := Nat.ne_of_lt live.lt_length
    have live_after : (state.heap.alloc buffer).Live address := by
      rw [Heap.Live, Heap.block_alloc, if_neg other]
      exact live
    refine ⟨(state.heap.alloc buffer).set address none, ?_, ?_⟩
    · simp only [data_eq, Heap.free_eq_some live_after]
      rfl
    · rw [Heap.block_set_none, if_neg (Ne.symm other), fresh]
  · exact ⟨state.heap.alloc buffer, rfl, fresh⟩

/-- A fresh block receives the elements, and the old block is freed. -/
theorem Holds.realloc {state : State α} {list : List α} (holds : Holds state list) {size : Nat}
    (fits : list.length ≤ min size maxSize) :
    ∃ next, state.realloc garbage size = some next ∧ Holds next list ∧
      next.vec.capacity = min size maxSize := by
  have loaded : state.load 0 state.vec.offset = some list := holds.elements_eq
  generalize fresh_eq : (List.range (min size maxSize)).map (garbage state.heap.length) = fresh
  have fresh_length : fresh.length = min size maxSize := by
    rw [← fresh_eq, List.length_map, List.length_range]
  have fresh_fits : 0 + list.length ≤ fresh.length := by omega
  obtain ⟨heap, free_eq, block_eq⟩ := holds.free_alloc (Memory.copyAt fresh 0 list)
  have realloc_eq : state.realloc garbage size =
      some ⟨heap, { state.vec with
        data := .block state.heap.length
        capacity := min size maxSize
        dynamic := true }⟩ := by
    rw [State.realloc, loaded, fresh_eq]
    simp only [Option.bind_eq_bind, Option.bind_some, Memory.store_eq_some fresh_fits, free_eq]
    rfl
  refine ⟨_, realloc_eq, ⟨⟨_, block_eq, ?_, ?_⟩, holds.offset_eq, fits, ?_, ?_⟩, rfl⟩
  · have taken := @Memory.take_copyAt _ fresh list 0 (Nat.zero_le _)
    rw [Nat.zero_add, List.take_zero, List.nil_append] at taken
    exact taken
  · exact Nat.le_of_eq ((Memory.length_copyAt fresh_fits).trans fresh_length).symm
  · change min size maxSize < 2 ^ 31
    exact Nat.lt_of_le_of_lt (Nat.min_le_right _ _) maxSize_lt
  · exact fun _ => ⟨_, rfl⟩

/-- After `Reserve` there is room for the size, unless it exceeds the largest one. -/
theorem Holds.reserve {state : State α} {list : List α} (holds : Holds state list) {size : Nat}
    (size_le : size ≤ max maxSize state.vec.capacity) :
    ∃ next, state.reserve garbage size = some next ∧ Holds next list ∧
      size ≤ next.vec.capacity ∧ state.vec.capacity ≤ next.vec.capacity := by
  have length_le := holds.length_le
  unfold State.reserve
  split
  · obtain ⟨next, realloc_eq, next_holds, capacity_eq⟩ :=
      holds.realloc garbage (show list.length ≤ min size maxSize by omega)
    exact ⟨next, realloc_eq, next_holds, by omega, by omega⟩
  · exact ⟨state, rfl, holds, by omega, Nat.le_refl _⟩

/-- The growing reserve of `PushBack` is defined as long as twice the capacity is. -/
theorem Holds.reserveGrowing (holds : Holds state list) (size_le : size ≤ maxSize)
    (defined : state.vec.capacity < size → state.vec.capacity + state.vec.capacity < 2 ^ 31) :
    ∃ next, state.reserveGrowing garbage size = some next ∧ Holds next list ∧
      size ≤ next.vec.capacity := by
  have length_le := holds.length_le
  unfold State.reserveGrowing
  split
  · rename_i grows
    rw [if_pos (defined grows)]
    obtain ⟨next, realloc_eq, next_holds, capacity_eq⟩ := @Holds.realloc α garbage state list holds
      (max size ((state.vec.capacity + state.vec.capacity) / 2)) (by omega)
    exact ⟨next, realloc_eq, next_holds, by omega⟩
  · exact ⟨state, rfl, holds, by omega⟩

end Growth

/-! ## Operations -/

theorem Holds.append {state : State α} {list : List α} (holds : Holds state list)
    {values : List α} (fits : list.length + values.length ≤ state.vec.capacity) :
    ∃ stored, state.store list.length values = some stored ∧
      stored.vec.offset = list.length ∧
      Holds (stored.setOffset (list.length + values.length)) (list ++ values) := by
  obtain ⟨contents, array_eq, list_eq, capacity_le⟩ := holds.array
  have store_fits : list.length + values.length ≤ contents.length := by omega
  refine ⟨_, store_eq array_eq store_fits, ?_, ?_⟩
  · rw [offset_setArray, holds.offset_eq]
  · rw [← List.length_append]
    refine holds.written array_eq capacity_le (Memory.length_copyAt store_fits) ?_ ?_
    · rw [List.length_append, Memory.take_copyAt (by omega), list_eq]
    · rw [List.length_append]
      exact fits

section Operations

variable (garbage : Nat → Nat → α)

theorem Holds.pushBack {state : State α} {list : List α} (holds : Holds state list) (value : α)
    (below : list.length + 1 ≤ maxSize)
    (defined : state.vec.capacity < list.length + 1 →
      state.vec.capacity + state.vec.capacity < 2 ^ 31) :
    ∃ next, state.pushBack garbage value = some next ∧ Holds next (list ++ [value]) := by
  have small : (list.length + 1) % 2 ^ 32 = list.length + 1 :=
    mod_of_le_maxSize below
  obtain ⟨grown, grown_eq, grown_holds, room⟩ := holds.reserveGrowing garbage below defined
  obtain ⟨stored, stored_eq, offset_eq, stored_holds⟩ :=
    @Holds.append α grown list grown_holds [value] room
  refine ⟨_, ?_, stored_holds⟩
  rw [State.pushBack, holds.offset_eq, small, grown_eq]
  simp only [Option.bind_eq_bind, Option.bind_some, stored_eq, offset_eq, grown_holds.offset_eq,
    small]
  rfl

variable (holds : Holds state list)
include holds

omit garbage in
/-- Data is inserted into a vector that has room for it by moving what follows. -/
theorem Holds.shift {position : Nat} (position_le : position ≤ list.length) {data : List α}
    (room : list.length + data.length ≤ state.vec.capacity) :
    ∃ shifted filled,
      state.load position (list.length - position) = some (list.drop position) ∧
      state.store (position + data.length) (list.drop position) = some shifted ∧
      shifted.store position data = some filled ∧ filled.vec.offset = list.length ∧
      Holds (filled.setOffset (list.length + data.length))
        (list.take position ++ data ++ list.drop position) := by
  obtain ⟨contents, array_eq, list_eq, capacity_le⟩ := holds.array
  have tail_eq : (contents.drop position).take (list.length - position) = list.drop position := by
    rw [← List.drop_take, list_eq]
  have tail_length : (list.drop position).length = list.length - position := List.length_drop
  have front_eq : list.take position = contents.take position := by
    conv_lhs => rw [← list_eq, List.take_take, Nat.min_eq_left position_le]
  have loaded := @load_eq α state contents array_eq position (list.length - position) (by
    omega)
  rw [tail_eq] at loaded
  generalize list.drop position = tail at tail_length loaded ⊢
  have shift_fits : position + data.length + tail.length ≤ contents.length := by omega
  have shifted_length : (Memory.copyAt contents (position + data.length) tail).length =
      contents.length := Memory.length_copyAt shift_fits
  have data_fits : position + data.length ≤
      (Memory.copyAt contents (position + data.length) tail).length := by omega
  have shifted_array := array_setArray array_eq shifted_length
  have inserted_length : (list.take position ++ data ++ tail).length =
      list.length + data.length := by
    simp only [List.length_append, List.length_take]
    omega
  refine ⟨_, _, loaded, store_eq array_eq shift_fits, store_eq shifted_array data_fits, ?_, ?_⟩
  · rw [offset_setArray, offset_setArray, holds.offset_eq]
  · rw [setArray_setArray, ← inserted_length]
    refine holds.written array_eq capacity_le ?_ ?_ (by omega)
    · rw [Memory.length_copyAt data_fits, shifted_length]
    · rw [inserted_length, show list.length + data.length =
        position + data.length + tail.length by omega, Memory.take_copyAt_shifted shift_fits,
        front_eq]

theorem Holds.reserveFor (below : list.length + count ≤ max maxSize state.vec.capacity) :
    ∃ grown, state.reserveFor garbage count = some grown ∧ Holds grown list ∧
      list.length + count ≤ grown.vec.capacity := by
  have capacity_lt := holds.capacity_lt
  have bound := maxSize_lt
  have small : (list.length + count) % 2 ^ 32 = list.length + count :=
    Nat.mod_eq_of_lt (by omega)
  rw [State.reserveFor, holds.offset_eq, small]
  split
  · obtain ⟨grown, grown_eq, grown_holds, room, _⟩ := holds.reserve garbage below
    exact ⟨grown, grown_eq, grown_holds, room⟩
  · exact ⟨state, rfl, holds, by omega⟩

theorem Holds.insert {position : Nat} (position_le : position ≤ list.length) (data : List α)
    (below : list.length + data.length ≤ max maxSize state.vec.capacity) :
    ∃ next, state.insert garbage position data = some next ∧
      Holds next (list.take position ++ data ++ list.drop position) := by
  obtain ⟨grown, grown_eq, grown_holds, room⟩ := holds.reserveFor garbage below
  have small : (list.length + data.length) % 2 ^ 32 = list.length + data.length := by
    have capacity_lt := grown_holds.capacity_lt
    exact Nat.mod_eq_of_lt (by omega)
  obtain ⟨shifted, filled, load_eq, shift_eq, fill_eq, offset_eq, filled_holds⟩ :=
    grown_holds.shift position_le room
  refine ⟨_, ?_, filled_holds⟩
  have guarded : guard (position ≤ state.vec.offset) = some () :=
    if_pos (holds.offset_eq ▸ position_le)
  rw [State.insert, guarded]
  simp only [Option.bind_eq_bind, Option.bind_some, grown_eq, grown_holds.offset_eq, load_eq,
    shift_eq, fill_eq, offset_eq, small]
  rfl

theorem Holds.resize (below : size ≤ maxSize) (value : α) :
    ∃ next, state.resize garbage size value = some next ∧
      Holds next (list.take size ++ List.replicate (size - list.length) value) := by
  rw [State.resize, Nat.min_eq_left below, holds.offset_eq]
  split
  · rename_i grows
    obtain ⟨grown, grown_eq, grown_holds, room, _⟩ :=
      @Holds.reserve α garbage state list holds size (by omega)
    have fits : list.length + (List.replicate (size - list.length) value).length ≤
        grown.vec.capacity := by
      rw [List.length_replicate]
      omega
    obtain ⟨stored, stored_eq, -, stored_holds⟩ := grown_holds.append fits
    refine ⟨stored.setOffset size, ?_, ?_⟩
    · rw [State.growTo, grown_eq]
      simp only [Option.bind_eq_bind, Option.bind_some, grown_holds.offset_eq, stored_eq]
      rfl
    · rw [List.take_of_length_le (by omega)]
      rw [List.length_replicate, show list.length + (size - list.length) = size by omega]
        at stored_holds
      exact stored_holds
  · rename_i shrinks
    refine ⟨state.setOffset size, rfl, ?_⟩
    rw [show size - list.length = 0 by omega, List.replicate_zero, List.append_nil]
    exact holds.setOffset (by omega)

end Operations

theorem popLoop_eq (count offset : Nat) : popLoop count offset = offset - count := by
  induction count generalizing offset with
  | zero => rfl
  | succ count ih =>
    rw [popLoop]
    split
    · omega
    · rw [ih]
      omega

theorem Holds.popBack (holds : Holds state list) (count : Nat) :
    Holds (state.popBack count) (list.take (list.length - count)) := by
  rw [State.popBack, popLoop_eq, holds.offset_eq]
  exact holds.setOffset (Nat.sub_le _ _)

theorem Holds.erase (holds : Holds state list) {first last : Nat} (ordered : first ≤ last)
    (last_le : last ≤ list.length) :
    ∃ next, state.erase first last = some next ∧
      Holds next (list.take first ++ list.drop last) := by
  obtain ⟨contents, array_eq, list_eq, capacity_le⟩ := holds.array
  have length_le := holds.length_le
  have tail_eq : (contents.drop last).take (list.length - last) = list.drop last := by
    rw [← List.drop_take, list_eq]
  have tail_length : (list.drop last).length = list.length - last := List.length_drop
  have front_eq : list.take first = contents.take first := by
    conv_lhs => rw [← list_eq, List.take_take, Nat.min_eq_left (by omega)]
  have loaded := @load_eq α state contents array_eq last (list.length - last) (by omega)
  rw [tail_eq] at loaded
  generalize list.drop last = tail at tail_length loaded ⊢
  have fits : first + tail.length ≤ contents.length := by omega
  have erased_length : (list.take first ++ tail).length = first + tail.length := by
    rw [List.length_append, List.length_take, Nat.min_eq_left (by omega)]
  refine ⟨(state.setArray (Memory.copyAt contents first tail)).setOffset (first + tail.length),
    ?_, ?_⟩
  · have guarded : guard (first ≤ last ∧ last ≤ state.vec.offset) = some () :=
      if_pos ⟨ordered, holds.offset_eq ▸ last_le⟩
    rw [State.erase, guarded, holds.offset_eq]
    simp only [Option.bind_eq_bind, Option.bind_some, loaded, store_eq array_eq fits]
    rfl
  · rw [← erased_length]
    refine holds.written array_eq capacity_le (Memory.length_copyAt fits) ?_ (by omega)
    rw [erased_length, Memory.take_copyAt (by omega), front_eq]

/-! ## A constant pushed -/

/-- Constructing a value of the array's own at `index` makes the vector hold the list with the value
behind it: the slot behind the end is hit, or it and what is hit have the value already. -/
def Hits (state : State α) (value stale : α) (index : Nat) : Prop :=
  index = state.vec.offset ∨
    stale = value ∧ ∃ old, state.load index 1 = some [old] ∧
      (index < state.vec.offset → old = value)

/-- The slot behind the end, read as an address, names the place for the value. -/
def Named (locate : Pointer → α → Target) (state : State α) (value stale : α) : Prop :=
  match locate state.vec.data stale with
  | .null => stale = value
  | .slot index => Hits state value stale index
  | .elsewhere => False

/-- The growing reserve does not overflow. -/
def Grows (state : State α) : Prop :=
  state.vec.capacity < state.vec.offset + 1 → state.vec.capacity + state.vec.capacity < 2 ^ 31

instance (state : State α) : Decidable (Grows state) := inferInstanceAs (Decidable (_ → _))

/-- A constant pushed ends up behind the last element. -/
def Lands (garbage : Nat → Nat → α) (locate : Pointer → α → Target) (value : α)
    (state : State α) : Prop :=
  ∃ grown stale, state.reserveGrowing garbage (state.vec.offset + 1) = some grown ∧
    grown.load grown.vec.offset 1 = some [stale] ∧ Named locate grown value stale

theorem Holds.load_end (holds : Holds state list) (room : list.length + 1 ≤ state.vec.capacity) :
    ∃ stale, state.load state.vec.offset 1 = some [stale] ∧
      Holds (state.setOffset (list.length + 1)) (list ++ [stale]) := by
  obtain ⟨contents, array_eq, list_eq, capacity_le⟩ := holds.array
  have inside : list.length < contents.length := by omega
  refine ⟨contents[list.length], ?_, ⟨⟨contents, array_eq, ?_, capacity_le⟩, ?_, ?_,
    holds.capacity_lt, holds.owned⟩⟩
  · rw [holds.offset_eq, load_eq array_eq (by omega), List.drop_eq_getElem_cons inside]
    rfl
  · rw [List.length_append, List.length_singleton, List.take_succ_eq_append_getElem inside, list_eq]
  · rw [List.length_append]
    rfl
  · rw [List.length_append]
    exact room

variable {index : Nat} {value : α}

theorem load_one_eq_some_iff (array_eq : state.array = some contents) :
    state.load index 1 = some [value] ↔ contents[index]? = some value := by
  rw [load, array_eq, Option.bind_eq_bind, Option.bind_some, Memory.load_eq_some_iff]
  constructor
  · rintro ⟨inside, piece_eq⟩
    rw [List.drop_eq_getElem_cons (by omega)] at piece_eq
    rw [List.getElem?_eq_getElem (by omega)]
    exact congrArg some (List.cons.inj piece_eq).1
  · intro slot_eq
    obtain ⟨inside, rfl⟩ := List.getElem?_eq_some_iff.mp slot_eq
    refine ⟨inside, ?_⟩
    rw [List.drop_eq_getElem_cons inside]
    rfl

theorem store_one_eq_some_iff (array_eq : state.array = some contents) :
    state.store index [value] = some stored ↔
      index < contents.length ∧ state.setArray (contents.set index value) = stored := by
  rw [store, array_eq, Option.bind_eq_bind, Option.bind_some]
  constructor
  · intro store_eq
    obtain ⟨written, written_eq, stored_eq⟩ := Option.bind_eq_some_iff.mp store_eq
    obtain ⟨fits, rfl⟩ := Memory.store_eq_some_iff.mp written_eq
    have inside : index < contents.length := fits
    rw [Memory.copyAt_singleton value inside] at stored_eq
    exact ⟨inside, Option.some.inj stored_eq⟩
  · rintro ⟨inside, rfl⟩
    rw [Memory.store_eq_some inside, Memory.copyAt_singleton value inside]
    rfl

/-- A value constructed at the right slot is appended. -/
theorem Holds.store_of_hits (holds : Holds state list)
    (room : list.length + 1 ≤ state.vec.capacity) {stale : α}
    (stale_eq : state.load state.vec.offset 1 = some [stale])
    (hits : Hits state value stale index) :
    ∃ stored, state.store index [value] = some stored ∧ stored.vec.offset = list.length ∧
      Holds (stored.setOffset (list.length + 1)) (list ++ [value]) := by
  rcases hits with rfl | ⟨rfl, old, old_eq, same⟩
  · rw [holds.offset_eq]
    exact @Holds.append α state list holds [value] room
  · obtain ⟨contents, array_eq, list_eq, capacity_le⟩ := holds.array
    rw [load_one_eq_some_iff array_eq] at stale_eq old_eq
    rw [holds.offset_eq] at stale_eq same
    have inside : index < contents.length := (List.getElem?_eq_some_iff.mp old_eq).1
    refine ⟨_, (store_one_eq_some_iff array_eq).mpr ⟨inside, rfl⟩, ?_, ?_⟩
    · rw [offset_setArray, holds.offset_eq]
    · have front_eq : contents.take (list.length + 1) = list ++ [stale] := by
        rw [List.take_add_one, list_eq, stale_eq]
        rfl
      have unchanged (hit : contents[index]? = some stale) :
          contents.set index stale = contents := by
        obtain ⟨_, rfl⟩ := List.getElem?_eq_some_iff.mp hit
        exact List.set_getElem_self inside
      have kept : (contents.set index stale).take (list.length + 1) = list ++ [stale] := by
        rcases Nat.lt_trichotomy index list.length with before | at_end | after
        · rw [unchanged (old_eq.trans (congrArg some (same before))), front_eq]
        · rw [unchanged (at_end ▸ stale_eq), front_eq]
        · rw [List.take_set_of_le (by omega), front_eq]
      have length_eq : (list ++ [stale]).length = list.length + 1 := by simp
      rw [← length_eq]
      refine holds.written array_eq capacity_le List.length_set ?_ (by omega)
      rw [length_eq, kept]

variable {next : State α}

section Constant

variable (garbage : Nat → Nat → α) (locate : Pointer → α → Target)

/-- A constant that lands is appended. -/
theorem Holds.pushBackConst (holds : Holds state list) (below : list.length + 1 ≤ maxSize)
    (grows : Grows state) (lands : Lands garbage locate value state) :
    ∃ next, state.pushBackConst garbage locate value = some next ∧
      Holds next (list ++ [value]) := by
  have small : (list.length + 1) % 2 ^ 32 = list.length + 1 :=
    mod_of_le_maxSize below
  rw [Grows, holds.offset_eq] at grows
  obtain ⟨grown, grown_eq, grown_holds, room⟩ := holds.reserveGrowing garbage below grows
  obtain ⟨other, stale, other_eq, stale_eq, named⟩ := lands
  rw [holds.offset_eq, grown_eq] at other_eq
  obtain rfl := Option.some.inj other_eq
  have constructed : ∃ stored, grown.constructAt (locate grown.vec.data stale) value =
      some stored ∧ stored.vec.offset = list.length ∧
      Holds (stored.setOffset (list.length + 1)) (list ++ [value]) := by
    rw [Named] at named
    cases target_eq : locate grown.vec.data stale with
    | null =>
      rw [target_eq] at named
      obtain rfl : stale = value := named
      obtain ⟨same, same_eq, end_holds⟩ := grown_holds.load_end room
      obtain rfl : stale = same :=
        (List.cons.inj (Option.some.inj (stale_eq.symm.trans same_eq))).1
      exact ⟨grown, rfl, grown_holds.offset_eq, end_holds⟩
    | slot index =>
      rw [target_eq] at named
      exact grown_holds.store_of_hits room stale_eq named
    | elsewhere =>
      rw [target_eq] at named
      exact named.elim
  obtain ⟨stored, stored_eq, offset_eq, stored_holds⟩ := constructed
  refine ⟨_, ?_, stored_holds⟩
  rw [State.pushBackConst, holds.offset_eq, small, grown_eq]
  simp only [Option.bind_eq_bind, Option.bind_some, stale_eq, List.head?_cons, stored_eq,
    offset_eq, small]
  rfl

end Constant

/-! ## Sequences of operations -/

/-- What changes the elements of a vector; `EmplaceBack` is `PushBack`, and every form of `Insert`
is the one at a position. -/
inductive Op (α : Type)
  | pushBack (value : α)
  /-- `PushBack(const T&)`, chosen for a constant argument; for an element type that does not
  convert to an address the call does not compile. -/
  | pushBackConst (value : α)
  | insert (position : Nat) (data : List α)
  | popBack (count : Nat)
  | resize (size : Nat) (value : α)
  | reserve (size : Nat)
  | clear
  | erase (first last : Nat)
  | eraseFrom (position : Nat)

/-- The same operation of a list. -/
def Op.apply (list : List α) : Op α → List α
  | .pushBack value => list ++ [value]
  | .pushBackConst value => list ++ [value]
  | .insert position data => list.take position ++ data ++ list.drop position
  | .popBack count => list.take (list.length - count)
  | .resize size value => list.take size ++ List.replicate (size - list.length) value
  | .reserve _ => list
  | .clear => []
  | .erase first last => list.take first ++ list.drop last
  | .eraseFrom position => list.take position

/-- Positions lie in the list, and sizes stay below the largest one. -/
def Op.InDomain (list : List α) : Op α → Prop
  | .pushBack _ => list.length + 1 < maxSize
  | .pushBackConst _ => list.length + 1 < maxSize
  | .insert position data => position ≤ list.length ∧ list.length + data.length < maxSize
  | .popBack _ => True
  | .resize size _ => size < maxSize
  | .reserve size => size < maxSize
  | .clear => True
  | .erase first last => first ≤ last ∧ last ≤ list.length
  | .eraseFrom position => position ≤ list.length

/-- Every operation of the sequence is in the domain of the list that it is applied to. -/
def InDomain (list : List α) : List (Op α) → Prop
  | [] => True
  | op :: ops => op.InDomain list ∧ InDomain (op.apply list) ops

instance (list : List α) : (op : Op α) → Decidable (op.InDomain list)
  | .pushBack _ => inferInstanceAs (Decidable (_ < _))
  | .pushBackConst _ => inferInstanceAs (Decidable (_ < _))
  | .insert _ _ => inferInstanceAs (Decidable (_ ∧ _))
  | .popBack _ => inferInstanceAs (Decidable True)
  | .resize _ _ => inferInstanceAs (Decidable (_ < _))
  | .reserve _ => inferInstanceAs (Decidable (_ < _))
  | .clear => inferInstanceAs (Decidable True)
  | .erase _ _ => inferInstanceAs (Decidable (_ ∧ _))
  | .eraseFrom _ => inferInstanceAs (Decidable (_ ≤ _))

instance decidableInDomain (list : List α) : (ops : List (Op α)) → Decidable (InDomain list ops)
  | [] => inferInstanceAs (Decidable True)
  | op :: ops =>
    have := decidableInDomain (op.apply list) ops
    inferInstanceAs (Decidable (op.InDomain list ∧ InDomain (op.apply list) ops))

section Runs

variable [Inhabited α] (garbage : Nat → Nat → α) (locate : Pointer → α → Target)

/-- The operation as the code performs it. -/
def Op.perform (state : State α) : Op α → Option (State α)
  | .pushBack value => state.pushBack garbage value
  | .pushBackConst value => state.pushBackConst garbage locate value
  | .insert position data => state.insert garbage position data
  | .popBack count => some (state.popBack count)
  | .resize size value => state.resize garbage size value
  | .reserve size => state.reserve garbage size
  | .clear => state.clear garbage
  | .erase first last => state.erase first last
  | .eraseFrom position => state.eraseFrom position

/-- What an operation needs beyond its domain: a push does not overflow the sum of the capacity with
itself, and a constant lands. -/
def Op.Safe (state : State α) : Op α → Prop
  | .pushBack _ => Grows state
  | .pushBackConst value => Grows state ∧ Lands garbage locate value state
  | _ => True

/-- Every operation of the sequence is safe where it is performed. -/
def Safe (state : State α) : List (Op α) → Prop
  | [] => True
  | op :: ops =>
    op.Safe garbage locate state ∧
      ∀ next, op.perform garbage locate state = some next → Safe next ops

variable {op : Op α}

/-- A safe operation in its domain takes a vector that holds a list to one that holds the changed
list. -/
theorem Holds.perform (holds : Holds state list) (inDomain : op.InDomain list)
    (safe : op.Safe garbage locate state) :
    ∃ next, op.perform garbage locate state = some next ∧ Holds next (op.apply list) := by
  cases op with
  | pushBack value =>
    refine holds.pushBack garbage value (Nat.le_of_lt inDomain) ?_
    rw [← holds.offset_eq]
    exact safe
  | pushBackConst value =>
    exact holds.pushBackConst garbage locate (Nat.le_of_lt inDomain) safe.1 safe.2
  | insert position data =>
    refine holds.insert garbage inDomain.1 data ?_
    exact Nat.le_trans (Nat.le_of_lt inDomain.2) (Nat.le_max_left _ _)
  | popBack count => exact ⟨_, rfl, holds.popBack count⟩
  | resize size value => exact holds.resize garbage (Nat.le_of_lt inDomain) value
  | reserve size =>
    obtain ⟨next, reserve_eq, next_holds, -⟩ := holds.reserve garbage
      (Nat.le_trans (Nat.le_of_lt inDomain) (Nat.le_max_left _ _))
    exact ⟨next, reserve_eq, next_holds⟩
  | clear =>
    obtain ⟨next, clear_eq, next_holds⟩ := holds.resize garbage (Nat.zero_le _) default
    refine ⟨next, clear_eq, ?_⟩
    rw [Nat.zero_sub, List.take_zero, List.replicate_zero] at next_holds
    exact next_holds
  | erase first last => exact holds.erase inDomain.1 inDomain.2
  | eraseFrom position =>
    obtain ⟨next, erase_eq, next_holds⟩ := holds.erase inDomain (Nat.le_refl _)
    refine ⟨next, ?_, ?_⟩
    · rw [← holds.offset_eq] at erase_eq
      exact erase_eq
    · rw [List.drop_length, List.append_nil] at next_holds
      exact next_holds

end Runs

end Fusion.EmbeddedVector
