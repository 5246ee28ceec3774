import Mathlib.Data.List.Basic

/-!
# Comparing bytes

`memcmp` gives the order of the first bytes that differ.  On strings of one length that is the
lexicographic order of lists.
-/

namespace Fusion

/-- `memcmp`, by its sign: the first bytes that differ decide. -/
def memcmp : List UInt8 → List UInt8 → Ordering
  | left :: lefts, right :: rights => (compare left right).then (memcmp lefts rights)
  | _, _ => .eq

namespace MemoryUtil

/-- `MemoryUtil::Equal` of bytes. -/
def equal (left right : List UInt8) (count : Nat) : Bool :=
  memcmp (left.take count) (right.take count) = .eq

/-- `MemoryUtil::Less` of bytes. -/
def less (left right : List UInt8) (count : Nat) : Bool :=
  memcmp (left.take count) (right.take count) = .lt

end MemoryUtil

section Bytes

variable {left right : List UInt8}

theorem memcmp_swap (left right : List UInt8) : memcmp right left = (memcmp left right).swap := by
  induction left generalizing right with
  | nil => cases right <;> rfl
  | cons byte left ih =>
    cases right with
    | nil => rfl
    | cons other right =>
      rw [memcmp, memcmp, ih, Ordering.swap_then, Std.OrientedOrd.eq_swap (a := other)]

variable (length_eq : left.length = right.length)
include length_eq

theorem memcmp_eq_iff : memcmp left right = .eq ↔ left = right := by
  induction left generalizing right with
  | nil => simp [memcmp, List.length_eq_zero_iff.mp length_eq.symm]
  | cons byte left ih =>
    cases right with
    | nil => simp at length_eq
    | cons other right =>
      rw [memcmp, Ordering.then_eq_eq, Std.compare_eq_iff_eq, ih (by simpa using length_eq),
        List.cons.injEq]

theorem memcmp_lt_iff : memcmp left right = .lt ↔ left < right := by
  induction left generalizing right with
  | nil => simp [memcmp, List.length_eq_zero_iff.mp length_eq.symm]
  | cons byte left ih =>
    cases right with
    | nil => simp at length_eq
    | cons other right =>
      rw [memcmp, Ordering.then_eq_lt, Std.compare_eq_lt, Std.compare_eq_iff_eq,
        ih (by simpa using length_eq), List.cons_lt_cons_iff]

theorem MemoryUtil.equal_iff {count : Nat} :
    MemoryUtil.equal left right count = true ↔ left.take count = right.take count := by
  rw [MemoryUtil.equal, decide_eq_true_eq, memcmp_eq_iff (by simp [length_eq])]

end Bytes

end Fusion
