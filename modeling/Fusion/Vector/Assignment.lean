import Fusion.Vector.Elements

/-!
# Assignment to an embedded vector

There are five ways to assign to a vector.  Three of them replace its elements: copies, moves and
spans of constants, unless the two vectors already compare equal without being the same.  A span of
mutable elements is appended, and an array leaves the vector empty.
-/

namespace Fusion.EmbeddedVector

open State

variable {α : Type}

/-! ## What is left of other vectors -/

variable {vec : Vec α}

theorem Holds.alloc {heap : Heap α} {list : List α} (holds : Holds ⟨heap, vec⟩ list)
    (buffer : List α) : Holds ⟨heap.alloc buffer, vec⟩ list := by
  obtain ⟨contents, array_eq, list_eq, capacity_le⟩ := holds.array
  refine ⟨⟨contents, ?_, list_eq, capacity_le⟩, holds.offset_eq, holds.length_le,
    holds.capacity_lt, holds.owned⟩
  unfold State.array at array_eq ⊢
  cases data_eq : vec.data with
  | null => simpa only [data_eq] using array_eq
  | storage => simpa only [data_eq] using array_eq
  | other => simp only [data_eq, reduceCtorEq] at array_eq
  | block address =>
    simp only [data_eq] at array_eq ⊢
    have live : heap.Live address := by
      rw [Heap.Live, array_eq]
      rfl
    rw [Heap.block_alloc, if_neg (Nat.ne_of_lt live.lt_length), array_eq]

variable {values : List α}

section Insertion

variable (garbage : Nat → Nat → α) {state : State α}

end Insertion

/-! ## Assignment -/

/-- What can be assigned to a vector. -/
inductive Source (α : Type)
  | copied (vec : Vec α)
  | moved (vec : Vec α)
  | constSpan (values : List α)
  | mutableSpan (values : List α)
  | array (values : List α)

section Assignment

variable (garbage : Nat → Nat → α) (equal : α → α → Bool)

/-- The specialisation for `Length` zero has only the memberwise assignment of the base class, and
nothing is moved from it. -/
def Source.offered (target : State α) : Source α → Bool
  | .moved vec => target.vec.derived && vec.derived
  | _ => target.vec.derived

end Assignment

end Fusion.EmbeddedVector
