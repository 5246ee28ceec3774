import Mathlib.Data.Nat.Digits.Defs

/-!
# Numerals

The number that a sequence of digits denotes, the most significant digit first, and the number that
an accumulator holds after it has taken in the digits one by one.
-/

namespace Numerals

variable {α : Type*} (base : Nat) (digit : α → Nat)

/-- The number that a sequence of digits denotes. -/
def value (text : List α) : Nat := Nat.ofDigits base (text.map digit).reverse

/-- What an accumulator that starts at `start` holds after the digits. -/
def accumulate (start : Nat) (text : List α) : Nat :=
  start * base ^ text.length + value base digit text

@[simp] theorem value_nil : value base digit [] = 0 := rfl

theorem value_cons (symbol : α) (text : List α) :
    value base digit (symbol :: text) =
      digit symbol * base ^ text.length + value base digit text := by
  rw [value, List.map_cons, Nat.ofDigits_reverse_cons, List.length_map, value, Nat.add_comm,
    Nat.mul_comm]

/-- Digits that are written out the least significant one first denote their number when they are
reversed. -/
theorem value_reverse_map {encode : Nat → α} {digits : List Nat}
    (decode : ∀ number ∈ digits, digit (encode number) = number) :
    value base digit (digits.map encode).reverse = Nat.ofDigits base digits := by
  have decoded : (digits.map encode).map digit = digits := by
    rw [List.map_map]
    exact (List.map_congr_left decode).trans digits.map_id
  rw [value, List.map_reverse, List.reverse_reverse, decoded]

@[simp] theorem accumulate_nil (start : Nat) : accumulate base digit start [] = start := by
  simp [accumulate]

/-- An accumulator takes in a digit by a multiplication and an addition. -/
theorem accumulate_cons (start : Nat) (symbol : α) (text : List α) :
    accumulate base digit start (symbol :: text) =
      accumulate base digit (start * base + digit symbol) text := by
  rw [accumulate, value_cons, accumulate, List.length_cons, Nat.pow_succ, Nat.add_mul,
    Nat.add_assoc, Nat.mul_comm (base ^ text.length) base, Nat.mul_assoc]

theorem accumulate_zero (text : List α) : accumulate base digit 0 text = value base digit text := by
  rw [accumulate, Nat.zero_mul, Nat.zero_add]

/-- An accumulator never gets smaller. -/
theorem le_accumulate {base : Nat} (positive : 0 < base) (start : Nat) (text : List α) :
    start ≤ accumulate base digit start text :=
  (Nat.le_mul_of_pos_right start (Nat.pow_pos positive)).trans (Nat.le_add_right ..)

/-- An accumulator may be reduced at any time. -/
theorem accumulate_mod (modulus start : Nat) (text : List α) :
    accumulate base digit (start % modulus) text % modulus =
      accumulate base digit start text % modulus := by
  rw [accumulate, accumulate, Nat.add_mod, Nat.mod_mul_mod, ← Nat.add_mod]

end Numerals
