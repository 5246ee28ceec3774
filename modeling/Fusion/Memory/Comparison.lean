import Fusion.Library.FirstDifference
import Fusion.Memory.MemoryUtil
import Mathlib.Data.Set.Defs

/-!
# Comparing ranges

`MemoryUtil::Compare`, `Equal` and `Less` of two ranges with their own lengths ask the functions
with a single count for the common part.  `Less` returns the order of the lengths wherever the
common part of the first range is not less, also where it is greater.
-/

namespace Fusion.MemoryUtil

open FirstDifference

/-! ## Ranges with their own lengths -/

section Ranges

variable {α : Type}

/-- `Compare` of two ranges, by the sign of its result, over `Compare` with a count. -/
def compareRanges (compare : List α → List α → Nat → Ordering) (a b : List α) : Ordering :=
  let result := compare a b (min a.length b.length)
  if result ≠ .eq then result
  else if a.length < b.length then .lt
  else if b.length < a.length then .gt
  else .eq

/-- `Equal` of two ranges over `Equal` with a count. -/
def equalRanges (equal : List α → List α → Nat → Bool) (a b : List α) : Bool :=
  if a.length = b.length then equal a b a.length else false

/-- `Less` of two ranges over `Less` with a count. -/
def lessRanges (less : List α → List α → Nat → Bool) (a b : List α) : Bool :=
  if less a b (min a.length b.length) then true else a.length < b.length

end Ranges

/-! ## Elements and bytes -/

section Elements

variable {α : Type} [LinearOrder α]

/-- `Compare` of elements, by the sign of its result. -/
def compareElements : List α → List α → Nat → Ordering
  | x :: a, y :: b, count + 1 =>
    if x < y then .lt
    else if y < x then .gt
    else compareElements a b count
  | _, _, _ => .eq

/-- `Less` of elements. -/
def lessElements : List α → List α → Nat → Bool
  | x :: a, y :: b, count + 1 =>
    if x < y then true
    else if y < x then false
    else lessElements a b count
  | _, _, _ => false

end Elements

/-- `Compare` of bytes, by the sign of its result. -/
def compareBytes (a b : List UInt8) (count : Nat) : Ordering :=
  memcmp (a.take count) (b.take count)

/-! ## The first difference -/

section Specification

variable {α : Type} [LinearOrder α]

theorem compareElements_iff (a b : List α) :
    (compareElements a b (min a.length b.length) = .lt ↔ Before a b) ∧
      (compareElements a b (min a.length b.length) = .gt ↔ Before b a) := by
  induction a generalizing b with
  | nil => simp [compareElements, not_before_nil_left, not_before_nil_right]
  | cons x a ih =>
    cases b with
    | nil => simp [compareElements, not_before_nil_left, not_before_nil_right]
    | cons y b =>
      rw [List.length_cons, List.length_cons, Nat.add_min_add_right, compareElements,
        before_cons_iff, before_cons_iff]
      rcases lt_trichotomy x y with smaller | rfl | greater
      · simp [smaller, not_lt_of_gt smaller, ne_of_gt smaller]
      · simpa using ih b
      · simp [greater, not_lt_of_gt greater, ne_of_gt greater]

theorem lessElements_iff (a b : List α) :
    lessElements a b (min a.length b.length) = true ↔ Before a b := by
  induction a generalizing b with
  | nil => simp [lessElements, not_before_nil_left]
  | cons x a ih =>
    cases b with
    | nil => simp [lessElements, not_before_nil_right]
    | cons y b =>
      rw [List.length_cons, List.length_cons, Nat.add_min_add_right, lessElements, before_cons_iff]
      rcases lt_trichotomy x y with smaller | rfl | greater
      · simp [smaller]
      · simpa using ih b
      · simp [greater, not_lt_of_gt greater, ne_of_gt greater]

end Specification

/-- `memcmp` tells which bytes are smaller where they first differ, as numbers. -/
theorem memcmp_iff (a b : List UInt8) :
    (memcmp a b = .lt ↔ Before (a.map UInt8.toNat) (b.map UInt8.toNat)) ∧
      (memcmp a b = .gt ↔ Before (b.map UInt8.toNat) (a.map UInt8.toNat)) := by
  induction a generalizing b with
  | nil => simp [memcmp, not_before_nil_left, not_before_nil_right]
  | cons x a ih =>
    cases b with
    | nil => simp [memcmp, not_before_nil_left, not_before_nil_right]
    | cons y b =>
      rw [List.map_cons, List.map_cons, before_cons_iff, before_cons_iff, memcmp,
        Ordering.then_eq_lt, Ordering.then_eq_gt, Std.compare_eq_lt, Std.compare_eq_gt,
        Std.compare_eq_iff_eq, (ih b).1, (ih b).2, UInt8.lt_iff_toNat_lt,
        UInt8.lt_iff_toNat_lt, UInt8.toNat_inj, UInt8.toNat_inj]
      exact ⟨Iff.rfl, or_congr Iff.rfl (and_congr eq_comm Iff.rfl)⟩

/-- The common part decides `memcmp`. -/
theorem memcmp_take_min (a b : List UInt8) :
    memcmp (a.take (min a.length b.length)) (b.take (min a.length b.length)) = memcmp a b := by
  induction a generalizing b with
  | nil => rfl
  | cons x a ih =>
    cases b with
    | nil => rfl
    | cons y b =>
      rw [List.length_cons, List.length_cons, Nat.add_min_add_right, List.take_succ_cons,
        List.take_succ_cons, memcmp, memcmp, ih]

/-! ## The order of ranges -/

/-- `Less` orders these ranges as `Compare` does, strictly, and a range before its continuations. -/
structure OrdersRanges {α : Type} (less : List α → List α → Bool)
    (compare : List α → List α → Ordering) (ranges : Set (List α)) : Prop where
  agrees : ∀ a ∈ ranges, ∀ b ∈ ranges, less a b = true ↔ compare a b = .lt
  irrefl : ∀ a ∈ ranges, less a a = false
  asymm : ∀ a ∈ ranges, ∀ b ∈ ranges, less a b = true → less b a = false
  trans : ∀ a ∈ ranges, ∀ b ∈ ranges, ∀ c ∈ ranges,
    less a b = true → less b c = true → less a c = true
  begins : ∀ a ∈ ranges, ∀ b ∈ ranges, a <+: b → a ≠ b → less a b = true

section Order

variable {β α : Type} [LinearOrder α] {key : β → α}
  {compare : List β → List β → Nat → Ordering} {less : List β → List β → Nat → Bool}

/-- `Compare` is the lexicographic order. -/
theorem compareRanges_eq_lt_iff
    (compare_iff : ∀ a b,
      (compare a b (min a.length b.length) = .lt ↔ Before (a.map key) (b.map key)) ∧
        (compare a b (min a.length b.length) = .gt ↔ Before (b.map key) (a.map key)))
    (a b : List β) : compareRanges compare a b = .lt ↔ a.map key < b.map key := by
  obtain ⟨smaller_iff, greater_iff⟩ := compare_iff a b
  rw [lt_iff, List.length_map, List.length_map, compareRanges]
  cases result : compare a b (min a.length b.length) with
  | lt => simp [smaller_iff.mp result]
  | gt =>
    have greater := greater_iff.mp result
    have not_aligned : ¬Aligned (a.map key) (b.map key) :=
      fun aligned => (aligned_iff.mp aligned).2 greater
    have not_smaller : ¬Before (a.map key) (b.map key) :=
      fun smaller => Before.irrefl _ (smaller.trans greater)
    simp [not_aligned, not_smaller]
  | eq =>
    have not_smaller : ¬Before (a.map key) (b.map key) := by
      rw [← smaller_iff, result]
      decide
    have not_greater : ¬Before (b.map key) (a.map key) := by
      rw [← greater_iff, result]
      decide
    have aligned := aligned_iff.mpr ⟨not_smaller, not_greater⟩
    by_cases shorter : a.length < b.length
    · simp [aligned, shorter]
    · by_cases longer : b.length < a.length
      · simp [not_smaller, shorter, longer]
      · simp [not_smaller, shorter, longer]

theorem lessRanges_iff
    (less_iff : ∀ a b, less a b (min a.length b.length) = true ↔ Before (a.map key) (b.map key))
    (a b : List β) :
    lessRanges less a b = true ↔ Before (a.map key) (b.map key) ∨ a.length < b.length := by
  rw [lessRanges, ← less_iff]
  cases less a b (min a.length b.length) <;> simp

/-- `Less` is the lexicographic order for ranges of which the first is not shorter and greater. -/
theorem lessRanges_iff_lt
    (less_iff : ∀ a b, less a b (min a.length b.length) = true ↔ Before (a.map key) (b.map key))
    {a b : List β} (right : a.length < b.length → ¬Before (b.map key) (a.map key)) :
    lessRanges less a b = true ↔ a.map key < b.map key := by
  rw [lessRanges_iff less_iff, lt_iff, List.length_map, List.length_map]
  constructor
  · rintro (smaller | shorter)
    · exact .inl smaller
    · by_cases smaller : Before (a.map key) (b.map key)
      · exact .inl smaller
      · exact .inr ⟨aligned_iff.mpr ⟨smaller, right shorter⟩, shorter⟩
  · rintro (smaller | ⟨-, shorter⟩)
    · exact .inl smaller
    · exact .inr shorter

/-- `Less` orders the ranges exactly where none is shorter than another one and greater. -/
theorem ordersRanges_iff
    (compare_iff : ∀ a b,
      (compare a b (min a.length b.length) = .lt ↔ Before (a.map key) (b.map key)) ∧
        (compare a b (min a.length b.length) = .gt ↔ Before (b.map key) (a.map key)))
    (less_iff : ∀ a b, less a b (min a.length b.length) = true ↔ Before (a.map key) (b.map key))
    (ranges : Set (List β)) :
    OrdersRanges (lessRanges less) (compareRanges compare) ranges ↔
      ∀ a ∈ ranges, ∀ b ∈ ranges, a.length < b.length → ¬Before (b.map key) (a.map key) := by
  constructor
  · rintro ⟨agrees, -, -, -, -⟩ a a_mem b b_mem shorter greater
    have ordered := (agrees a a_mem b b_mem).mp ((lessRanges_iff less_iff a b).mpr (.inr shorter))
    rw [compareRanges_eq_lt_iff compare_iff, lt_iff] at ordered
    rcases ordered with smaller | ⟨aligned, -⟩
    · exact Before.irrefl _ (smaller.trans greater)
    · exact (aligned_iff.mp aligned).2 greater
  · intro right
    have less_lt : ∀ a ∈ ranges, ∀ b ∈ ranges, lessRanges less a b = true ↔ a.map key < b.map key :=
      fun a a_mem b b_mem => lessRanges_iff_lt less_iff (right a a_mem b b_mem)
    constructor
    · intro a a_mem b b_mem
      rw [less_lt a a_mem b b_mem, compareRanges_eq_lt_iff compare_iff]
    · intro a a_mem
      rw [← Bool.not_eq_true, less_lt a a_mem a a_mem]
      exact lt_irrefl _
    · intro a a_mem b b_mem smaller
      rw [less_lt a a_mem b b_mem] at smaller
      rw [← Bool.not_eq_true, less_lt b b_mem a a_mem]
      exact lt_asymm smaller
    · intro a a_mem b b_mem c c_mem first second
      rw [less_lt a a_mem b b_mem] at first
      rw [less_lt b b_mem c c_mem] at second
      rw [less_lt a a_mem c c_mem]
      exact lt_trans first second
    · intro a _ b _ begins differ
      refine (lessRanges_iff less_iff a b).mpr (.inr ?_)
      exact lt_of_le_of_ne begins.length_le fun same => differ (begins.eq_of_length same)

end Order

/-- `Less` of ranges is the lexicographic order, for elements and for bytes, exactly on ranges of
which none is shorter than another one and greater where the two first differ. -/
theorem less_ordersRanges_iff {α : Type} [LinearOrder α] (ranges : Set (List α))
    (bytes : Set (List UInt8)) :
    (OrdersRanges (lessRanges lessElements) (compareRanges compareElements) ranges ↔
        ∀ a ∈ ranges, ∀ b ∈ ranges, a.length < b.length → ¬Before b a) ∧
      (OrdersRanges (lessRanges less) (compareRanges compareBytes) bytes ↔
        ∀ a ∈ bytes, ∀ b ∈ bytes, a.length < b.length →
          ¬Before (b.map UInt8.toNat) (a.map UInt8.toNat)) := by
  constructor
  · have elements := @ordersRanges_iff α α _ id compareElements lessElements
    simp only [List.map_id] at elements
    exact elements compareElements_iff lessElements_iff ranges
  · refine ordersRanges_iff ?_ ?_ bytes
    · intro a b
      rw [compareBytes, memcmp_take_min]
      exact memcmp_iff a b
    · intro a b
      rw [less, decide_eq_true_eq, memcmp_take_min]
      exact (memcmp_iff a b).1

/-- A shorter range is less than a longer one that begins with a smaller byte, and the other way
around. -/
theorem less_not_asymmetric :
    lessRanges less [2] [1, 0] = true ∧ lessRanges less [1, 0] [2] = true ∧
      compareRanges compareBytes [2] [1, 0] = .gt := by
  decide

end Fusion.MemoryUtil
