import Mathlib.Data.List.Sort

/-!
# Sorting by a key

`std::sort` puts elements into the order of their keys and says nothing about those of one key.  The
key of an element may be looked up in something else.
-/

namespace Sorting

/-- An implementation of `std::sort` by a key, with elements of one key in any order. -/
structure Sorter {σ α κ : Type} [LE κ] (key : σ → α → κ) where
  sort : σ → List α → List α
  perm : ∀ keys elements, (sort keys elements).Perm elements
  sorted : ∀ keys elements,
    (sort keys elements).Pairwise fun left right => key keys left ≤ key keys right

/-- Insertion sort is one of the sorters. -/
def insertion {σ α κ : Type} [LinearOrder κ] (key : σ → α → κ) : Sorter key where
  sort keys elements := elements.insertionSort fun left right => key keys left ≤ key keys right
  perm _ _ := List.perm_insertionSort _ _
  sorted keys elements := by
    have total : Std.Total fun left right : α => key keys left ≤ key keys right :=
      ⟨fun _ _ => le_total _ _⟩
    have trans : IsTrans α fun left right => key keys left ≤ key keys right :=
      ⟨fun _ _ _ => le_trans⟩
    exact List.pairwise_insertionSort _ _

end Sorting
