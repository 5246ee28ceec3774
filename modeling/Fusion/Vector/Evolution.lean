import Fusion.Vector.Elements

/-!
# What operations do to the storage of a vector

Whatever an operation does to the elements, to the outside it either leaves the vector where it is
or moves it to a fresh block and frees the block that the vector had.
-/

namespace Fusion.EmbeddedVector

open State

variable {α : Type}

/-- A block that the vector points to has not been freed. -/
def Held (state : State α) : Prop :=
  ∀ address, state.vec.data = .block address → state.heap.Live address

/-- The vector stays where it is, and no block comes or goes. -/
structure Kept (before after : State α) : Prop where
  data : after.vec.data = before.vec.data
  dynamic : after.vec.dynamic = before.vec.dynamic
  live : ∀ address, after.heap.Live address ↔ before.heap.Live address

/-- The vector moves to a fresh block, and the block that it owned is freed. -/
structure Moved (before after : State α) (fresh : Nat) : Prop where
  unused : before.heap.length ≤ fresh
  data : after.vec.data = .block fresh
  dynamic : after.vec.dynamic = true
  live : ∀ address, after.heap.Live address ↔ address = fresh ∨
    before.heap.Live address ∧ ¬ (before.vec.dynamic = true ∧ before.vec.data = .block address)

/-- The vector stays or moves; its own array does not change its length. -/
structure Evolves (before after : State α) : Prop where
  storage_length : after.vec.storage.length = before.vec.storage.length
  heap_length : before.heap.length ≤ after.heap.length
  kind : Kept before after ∨ ∃ fresh, Moved before after fresh

theorem Evolves.refl (state : State α) : Evolves state state :=
  ⟨rfl, Nat.le_refl _, .inl ⟨rfl, rfl, fun _ => Iff.rfl⟩⟩

theorem Evolves.held {before after : State α} (evolves : Evolves before after)
    (held : Held before) : Held after := by
  intro address data_eq
  rcases evolves.kind with kept | ⟨fresh, moved⟩
  · rw [kept.live]
    exact held address (kept.data.symm.trans data_eq)
  · rw [moved.live]
    rw [moved.data] at data_eq
    exact .inl (Pointer.block.inj data_eq).symm

theorem Evolves.trans {first second third : State α} (earlier : Evolves first second)
    (later : Evolves second third) : Evolves first third := by
  refine ⟨later.storage_length.trans earlier.storage_length,
    Nat.le_trans earlier.heap_length later.heap_length, ?_⟩
  rcases earlier.kind with kept | ⟨old, moved⟩ <;> rcases later.kind with stays | ⟨fresh, moves⟩
  · exact .inl ⟨stays.data.trans kept.data, stays.dynamic.trans kept.dynamic,
      fun address => (stays.live address).trans (kept.live address)⟩
  · refine .inr ⟨fresh, Nat.le_trans earlier.heap_length moves.unused, moves.data,
      moves.dynamic, fun address => ?_⟩
    rw [moves.live, kept.live, kept.data, kept.dynamic]
  · refine .inr ⟨old, moved.unused, stays.data.trans moved.data,
      stays.dynamic.trans moved.dynamic, fun address => ?_⟩
    rw [stays.live, moved.live]
  · refine .inr ⟨fresh, Nat.le_trans earlier.heap_length moves.unused, moves.data,
      moves.dynamic, fun address => ?_⟩
    rw [moves.live, moved.live, moved.data, moved.dynamic]
    -- the first fresh block is the one that the second move frees
    constructor
    · rintro (rfl | ⟨rfl | live, freed⟩)
      · exact .inl rfl
      · exact absurd ⟨rfl, rfl⟩ freed
      · exact .inr live
    · rintro (rfl | live)
      · exact .inl rfl
      · refine .inr ⟨.inr live, ?_⟩
        rintro ⟨-, same⟩
        have address_lt := live.1.lt_length
        rw [← Pointer.block.inj same] at address_lt
        exact absurd moved.unused (Nat.not_le.mpr address_lt)

/-! ## The primitives -/

variable {state : State α}

theorem evolves_setArray {contents written : List α} (held : Held state)
    (array_eq : state.array = some contents) (length_eq : written.length = contents.length) :
    Evolves state (state.setArray written) := by
  obtain ⟨heap, ⟨data, offset, capacity, dynamic, storage⟩⟩ := state
  cases data with
  | null => exact Evolves.refl _
  | storage =>
    obtain rfl : storage = contents := Option.some.inj array_eq
    exact ⟨length_eq, Nat.le_refl _, .inl ⟨rfl, rfl, fun _ => Iff.rfl⟩⟩
  | block address =>
    refine ⟨rfl, ?_, .inl ⟨rfl, rfl, Heap.live_write (held address rfl) written⟩⟩
    exact Nat.le_of_eq List.length_set.symm
  | other => exact Evolves.refl _

variable {values : List α}

theorem evolves_store {stored : State α} {offset : Nat} (held : Held state)
    (store_eq : state.store offset values = some stored) : Evolves state stored := by
  obtain ⟨contents, array_eq, store_eq⟩ := Option.bind_eq_some_iff.mp store_eq
  obtain ⟨written, written_eq, stored_eq⟩ := Option.bind_eq_some_iff.mp store_eq
  obtain ⟨fits, rfl⟩ := Memory.store_eq_some_iff.mp written_eq
  obtain rfl := Option.some.inj stored_eq
  exact evolves_setArray held array_eq (Memory.length_copyAt fits)

theorem evolves_setOffset (state : State α) (offset : Nat) :
    Evolves state (state.setOffset offset) :=
  ⟨rfl, Nat.le_refl _, .inl ⟨rfl, rfl, fun _ => Iff.rfl⟩⟩

variable {freed : State α}

/-- `Free` takes away the block that the vector owns, and no other. -/
theorem live_free (free_eq : state.free = some freed) (address : Nat) :
    freed.heap.Live address ↔ state.heap.Live address ∧
      ¬ (state.vec.dynamic = true ∧ state.vec.data = .block address) := by
  rcases (free_cases free_eq).2 with ⟨heap_eq, unowned⟩ | ⟨block, dynamic, data_eq, -, heap_eq⟩
  · rw [heap_eq]
    refine (and_iff_left ?_).symm
    rintro ⟨dynamic, data_eq⟩
    rcases unowned with embedded | null
    · exact Bool.noConfusion (dynamic.symm.trans embedded)
    · exact absurd (data_eq.symm.trans null) (by simp)
  · rw [heap_eq, Heap.live_set_none, data_eq, and_iff_right dynamic, Pointer.block.injEq,
      @eq_comm _ block]

theorem length_free (free_eq : state.free = some freed) :
    freed.heap.length = state.heap.length := by
  rcases (free_cases free_eq).2 with ⟨heap_eq, -⟩ | ⟨block, -, -, -, heap_eq⟩
  · rw [heap_eq]
  · rw [heap_eq, List.length_set]

variable {garbage : Nat → Nat → α} {next : State α} {size : Nat}

theorem evolves_realloc (held : Held state) (realloc_eq : state.realloc garbage size = some next) :
    Evolves state next := by
  obtain ⟨buffer, freed, -, free_eq, rfl⟩ := realloc_cases realloc_eq
  refine ⟨rfl, ?_, .inr ⟨state.heap.length, Nat.le_refl _, rfl, rfl, fun address => ?_⟩⟩
  · change _ ≤ freed.heap.length
    rw [length_free free_eq, Heap.alloc, List.length_append]
    exact Nat.le_add_right _ _
  · change freed.heap.Live address ↔ _
    rw [live_free free_eq, Heap.live_alloc, or_and_right]
    -- the fresh block is not the one that the vector had
    refine or_congr_left (and_iff_left_of_imp ?_)
    rintro rfl ⟨-, data_eq⟩
    exact absurd (held _ data_eq).lt_length (Nat.lt_irrefl _)

theorem evolves_reserve (held : Held state) (reserve_eq : state.reserve garbage size = some next) :
    Evolves state next := by
  rcases reserve_cases reserve_eq with ⟨-, rfl⟩ | ⟨-, realloc_eq⟩
  · exact Evolves.refl _
  · exact evolves_realloc held realloc_eq

theorem evolves_reserveGrowing (held : Held state)
    (reserve_eq : state.reserveGrowing garbage size = some next) : Evolves state next := by
  unfold reserveGrowing at reserve_eq
  split at reserve_eq
  · split at reserve_eq
    · exact evolves_realloc held reserve_eq
    · exact absurd reserve_eq (by simp)
  · obtain rfl := Option.some.inj reserve_eq
    exact Evolves.refl _

theorem evolves_reserveFor {count : Nat} (held : Held state)
    (reserve_eq : state.reserveFor garbage count = some next) : Evolves state next := by
  unfold reserveFor at reserve_eq
  split at reserve_eq
  · exact evolves_reserve held reserve_eq
  · obtain rfl := Option.some.inj reserve_eq
    exact Evolves.refl _

/-! ## The operations -/

variable {value : α}

theorem evolves_pushBack (held : Held state) (push_eq : state.pushBack garbage value = some next) :
    Evolves state next := by
  obtain ⟨grown, grown_eq, push_eq⟩ := Option.bind_eq_some_iff.mp push_eq
  obtain ⟨stored, stored_eq, push_eq⟩ := Option.bind_eq_some_iff.mp push_eq
  obtain rfl := Option.some.inj push_eq
  have growth := evolves_reserveGrowing held grown_eq
  have writing := evolves_store (growth.held held) stored_eq
  exact (growth.trans writing).trans (evolves_setOffset _ _)

variable {locate : Pointer → α → Target} (held : Held state)
include held

theorem evolves_pushBackConst (push_eq : state.pushBackConst garbage locate value = some next) :
    Evolves state next := by
  obtain ⟨grown, grown_eq, push_eq⟩ := Option.bind_eq_some_iff.mp push_eq
  obtain ⟨loaded, -, push_eq⟩ := Option.bind_eq_some_iff.mp push_eq
  obtain ⟨stale, -, push_eq⟩ := Option.bind_eq_some_iff.mp push_eq
  obtain ⟨stored, stored_eq, push_eq⟩ := Option.bind_eq_some_iff.mp push_eq
  obtain rfl := Option.some.inj push_eq
  have growth := evolves_reserveGrowing held grown_eq
  have construction : Evolves grown stored := by
    unfold constructAt at stored_eq
    split at stored_eq
    · obtain rfl := Option.some.inj stored_eq
      exact Evolves.refl _
    · exact evolves_store (growth.held held) stored_eq
    · exact absurd stored_eq (by simp)
  exact (growth.trans construction).trans (evolves_setOffset _ _)

theorem evolves_insert {position : Nat} {data : List α}
    (insert_eq : state.insert garbage position data = some next) : Evolves state next := by
  obtain ⟨grown, tail, shifted, filled, grown_eq, shift_eq, fill_eq, rfl⟩ := insert_cases insert_eq
  have growth := evolves_reserveFor held grown_eq
  have shifting := growth.trans (evolves_store (growth.held held) shift_eq)
  have filling := shifting.trans (evolves_store (shifting.held held) fill_eq)
  exact filling.trans (evolves_setOffset _ _)

theorem evolves_resize (resize_eq : state.resize garbage size value = some next) :
    Evolves state next := by
  simp only [resize] at resize_eq
  split at resize_eq
  · obtain ⟨filled, fill_eq, rfl⟩ := Option.map_eq_some_iff.mp resize_eq
    obtain ⟨grown, grown_eq, fill_eq⟩ := Option.bind_eq_some_iff.mp fill_eq
    have growth := evolves_reserve held grown_eq
    have filling := evolves_store (growth.held held) fill_eq
    exact (growth.trans filling).trans (evolves_setOffset _ _)
  · obtain rfl := Option.some.inj resize_eq
    exact evolves_setOffset _ _

theorem evolves_erase {first last : Nat} (erase_eq : state.erase first last = some next) :
    Evolves state next := by
  obtain ⟨-, -, erase_eq⟩ := Option.bind_eq_some_iff.mp erase_eq
  obtain ⟨tail, -, erase_eq⟩ := Option.bind_eq_some_iff.mp erase_eq
  obtain ⟨moved, moved_eq, erase_eq⟩ := Option.bind_eq_some_iff.mp erase_eq
  obtain rfl := Option.some.inj erase_eq
  exact (evolves_store held moved_eq).trans (evolves_setOffset _ _)

theorem evolves_perform [Inhabited α] {op : Op α}
    (perform_eq : op.perform garbage locate state = some next) : Evolves state next := by
  cases op with
  | pushBack value => exact evolves_pushBack held perform_eq
  | pushBackConst value => exact evolves_pushBackConst held perform_eq
  | insert position data => exact evolves_insert held perform_eq
  | popBack count =>
    obtain rfl := Option.some.inj perform_eq
    exact evolves_setOffset _ _
  | resize size value => exact evolves_resize held perform_eq
  | reserve size => exact evolves_reserve held perform_eq
  | clear =>
    have resize_eq : state.resize garbage 0 default = some next := perform_eq
    exact evolves_resize held resize_eq
  | erase first last => exact evolves_erase held perform_eq
  | eraseFrom position => exact evolves_erase held perform_eq

theorem evolves_reserve_insertEnd {reserved : State α}
    (reserve_eq : state.reserve garbage size = some reserved)
    (insert_eq : reserved.insertEnd garbage values = some next) : Evolves state next := by
  have growth := evolves_reserve held reserve_eq
  exact growth.trans (evolves_insert (growth.held held) insert_eq)

end Fusion.EmbeddedVector
