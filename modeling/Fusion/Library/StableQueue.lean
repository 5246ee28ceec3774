import Mathlib.Data.List.Sort
import Mathlib.Order.Defs.LinearOrder

/-!
# Stable priority queues

Elements with a rank and a time stamp are kept in one list, higher ranks first and, within a rank,
earlier stamps first.  A new element goes behind those of its rank.
-/

namespace StableQueue

variable {α κ : Type*} [LinearOrder κ] (rank : α → κ) (stamp : α → Nat)

/-- The first element is served before the second. -/
def Before (left right : α) : Prop :=
  rank right < rank left ∨ rank left = rank right ∧ stamp left < stamp right

/-- Insert behind every element of the same or a higher rank. -/
def insert (element : α) (queue : List α) : List α :=
  queue.orderedInsert (fun new old => rank old < rank new) element

theorem perm_insert (element : α) (queue : List α) :
    (insert rank element queue).Perm (element :: queue) :=
  List.perm_orderedInsert _ element queue

variable {element other : α} {queue : List α}

theorem mem_insert : other ∈ insert rank element queue ↔ other = element ∨ other ∈ queue :=
  List.mem_orderedInsert _

variable {rank stamp}

/-- Inserting the latest element keeps the queue in order. -/
theorem pairwise_insert (ordered : queue.Pairwise (Before rank stamp))
    (latest : ∀ other ∈ queue, stamp other < stamp element) :
    (insert rank element queue).Pairwise (Before rank stamp) := by
  induction queue with
  | nil => exact List.pairwise_singleton _ _
  | cons head queue ih =>
    obtain ⟨head_before, queue_ordered⟩ := List.pairwise_cons.mp ordered
    rw [insert, List.orderedInsert_cons]
    split
    · rename_i higher
      refine List.pairwise_cons.mpr ⟨?_, ordered⟩
      intro other member
      cases List.mem_cons.mp member with
      | inl same => exact .inl (same ▸ higher)
      | inr later =>
        cases head_before other later with
        | inl lower => exact .inl (lower.trans higher)
        | inr equal => exact .inl (equal.1 ▸ higher)
    · rename_i not_higher
      refine List.pairwise_cons.mpr ⟨?_, ih queue_ordered fun other later =>
        latest other (List.mem_cons_of_mem head later)⟩
      intro other member
      cases (mem_insert rank).mp member with
      | inl same =>
        rw [same]
        have head_latest := latest head List.mem_cons_self
        cases lt_or_eq_of_le (not_lt.mp not_higher) with
        | inl lower => exact .inl lower
        | inr equal => exact .inr ⟨equal.symm, head_latest⟩
      | inr later => exact head_before other later

/-- The head is served before everything behind it. -/
theorem before_of_mem_tail {head : α} (ordered : (head :: queue).Pairwise (Before rank stamp))
    (member : other ∈ queue) : Before rank stamp head other :=
  (List.pairwise_cons.mp ordered).1 other member

end StableQueue
