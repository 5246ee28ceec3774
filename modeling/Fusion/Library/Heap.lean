import Mathlib.Data.List.Basic

/-!
# A heap of blocks

A heap is the list of all blocks ever allocated, a freed one being absent.  Addresses are
positions in the list, so no address is used twice.
-/

/-- The blocks by their addresses. -/
abbrev Heap (α : Type) := List (Option (List α))

namespace Heap

/-- The contents of a live block. -/
def block {α : Type} (heap : Heap α) (address : Nat) : Option (List α) := heap[address]?.join

/-- The block has been allocated and not been freed. -/
def Live {α : Type} (heap : Heap α) (address : Nat) : Prop := (heap.block address).isSome

/-- The heap with one block more, whose address is the length of the old heap. -/
def alloc {α : Type} (heap : Heap α) (contents : List α) : Heap α := heap ++ [some contents]

/-- Free a live block; anything else is an error. -/
def free {α : Type} (heap : Heap α) (address : Nat) : Option (Heap α) :=
  if (heap.block address).isSome then some (heap.set address none) else none

/-- Overwrite the contents of a block. -/
def write {α : Type} (heap : Heap α) (address : Nat) (contents : List α) : Heap α :=
  heap.set address (some contents)

variable {α : Type}

theorem Live.lt_length {heap : Heap α} {address : Nat} (live : heap.Live address) :
    address < heap.length := by
  by_contra outside
  rw [Live, block, List.getElem?_eq_none (by omega)] at live
  exact absurd live (by simp)

theorem block_alloc (heap : Heap α) (contents : List α) (address : Nat) :
    (heap.alloc contents).block address =
      if address = heap.length then some contents else heap.block address := by
  rcases Nat.lt_trichotomy address heap.length with before | rfl | after
  · rw [if_neg (Nat.ne_of_lt before), block, alloc, List.getElem?_append_left before, block]
  · rw [if_pos rfl, block, alloc, List.getElem?_concat_length, Option.join_some]
  · rw [if_neg (Nat.ne_of_gt after), block, alloc, List.getElem?_eq_none (by simp; omega), block,
      List.getElem?_eq_none (by omega)]

theorem block_write {α : Type} {heap : Heap α} {target : Nat} (live : heap.Live target)
    (contents : List α) (address : Nat) :
    (heap.write target contents).block address =
      if address = target then some contents else heap.block address := by
  have target_lt := live.lt_length
  rcases eq_or_ne address target with rfl | other
  · rw [if_pos rfl, block, write, List.getElem?_set_self target_lt, Option.join_some]
  · rw [if_neg other, block, write, List.getElem?_set_ne other.symm, block]

/-- Freeing takes one block away and leaves the others. -/
theorem free_eq_some {heap : Heap α} {target : Nat} (live : heap.Live target) :
    heap.free target = some (heap.set target none) :=
  if_pos live

theorem block_set_none (heap : Heap α) (target address : Nat) :
    Heap.block (heap.set target none) address =
      if address = target then none else heap.block address := by
  rcases eq_or_ne address target with rfl | other
  · rw [if_pos rfl, block, List.getElem?_set_self']
    cases heap[address]? <;> rfl
  · rw [if_neg other, block, List.getElem?_set_ne other.symm, block]

/-! ## Which blocks are live -/

theorem live_alloc (heap : Heap α) (contents : List α) (address : Nat) :
    (heap.alloc contents).Live address ↔ address = heap.length ∨ heap.Live address := by
  rw [Live, block_alloc]
  split
  · rename_i fresh
    exact iff_of_true rfl (.inl fresh)
  · rename_i old
    exact ⟨.inr, fun live => live.resolve_left old⟩

theorem live_write {α : Type} {heap : Heap α} {target : Nat} (live : heap.Live target)
    (contents : List α) (address : Nat) :
    (heap.write target contents).Live address ↔ heap.Live address := by
  rw [Live, block_write live]
  split
  · rename_i same
    rw [same]
    exact iff_of_true rfl live
  · rfl

theorem live_set_none (heap : Heap α) (target address : Nat) :
    Heap.Live (heap.set target none) address ↔ heap.Live address ∧ address ≠ target := by
  rw [Live, block_set_none]
  split
  · rename_i same
    simp [same]
  · rename_i different
    exact (and_iff_left different).symm

end Heap
