import Mathlib.Algebra.Group.Int.Defs
import Mathlib.Data.Int.Order.Basic
import Mathlib.Algebra.Order.Ring.Int

/-!
# Integer types of a machine

An integer type has so many digits and perhaps a sign, in two's complement; a truth value is one
of the unsigned types.  The values are the integers of a range, and a cast to a type keeps the
integers of its range.
-/

/-- The integer types, by their digits apart from the sign. -/
inductive IntegerType
  | bool
  | unsigned (digits : Nat)
  | signed (digits : Nat)
deriving DecidableEq, Repr

namespace IntegerType

def isSigned : IntegerType → Bool
  | bool | unsigned _ => false
  | signed _ => true

def max : IntegerType → Int
  | bool => 1
  | unsigned digits | signed digits => 2 ^ digits - 1

def min (type : IntegerType) : Int :=
  if type.isSigned then -type.max - 1 else 0

/-- The integers of the range of a type. -/
def Represents (type : IntegerType) (value : Int) : Prop := type.min ≤ value ∧ value ≤ type.max

instance (type : IntegerType) (value : Int) : Decidable (type.Represents value) :=
  inferInstanceAs (Decidable (_ ∧ _))

/-- The values of a type. -/
abbrev Value (type : IntegerType) := { value : Int // type.Represents value }

/-- The integer that a cast gives: whether it is zero for a truth value, and otherwise what is
congruent to it in the range. -/
def cast (type : IntegerType) (value : Int) : Int :=
  match type with
  | bool => if value = 0 then 0 else 1
  | unsigned digits => value % 2 ^ digits
  | signed digits => value.bmod (2 ^ (digits + 1))

/-- The modulus of a signed type is twice the bound of its range. -/
theorem modulus_eq (digits : Nat) : ((2 ^ (digits + 1) : Nat) : Int) = 2 * 2 ^ digits := by
  rw [Nat.pow_succ, Nat.mul_comm]
  push_cast
  rfl

theorem cast_represents (type : IntegerType) (value : Int) : type.Represents (type.cast value) := by
  cases type with
  | bool =>
    rw [cast]
    split_ifs <;> decide
  | unsigned digits =>
    have positive : (0 : Int) < 2 ^ digits := Int.pow_pos (by decide)
    have nonnegative := Int.emod_nonneg value (Int.ne_of_gt positive)
    have below := Int.emod_lt_of_pos value positive
    exact ⟨nonnegative, Int.le_sub_one_of_lt below⟩
  | signed digits =>
    have positive : 0 < 2 ^ (digits + 1) := Nat.two_pow_pos _
    have lower := @Int.le_bmod value _ positive
    have upper := @Int.bmod_lt value _ positive
    rw [modulus_eq] at lower upper
    constructor
    · show -(2 ^ digits - 1) - 1 ≤ value.bmod (2 ^ (digits + 1))
      omega
    · show value.bmod (2 ^ (digits + 1)) ≤ 2 ^ digits - 1
      omega

/-- A cast keeps what the type represents. -/
theorem cast_of_represents {type : IntegerType} {value : Int} (represents : type.Represents value) :
    type.cast value = value := by
  obtain ⟨lower, upper⟩ := represents
  cases type with
  | bool =>
    change 0 ≤ value at lower
    change value ≤ 1 at upper
    rw [cast]
    split_ifs <;> omega
  | unsigned digits => exact Int.emod_eq_of_lt lower (Int.lt_of_le_sub_one upper)
  | signed digits =>
    change -(2 ^ digits - 1) - 1 ≤ value at lower
    change value ≤ 2 ^ digits - 1 at upper
    apply Int.bmod_eq_of_le
    · rw [modulus_eq]
      omega
    · rw [modulus_eq]
      omega

/-- `static_cast` between integer types. -/
def staticCast (target : IntegerType) {source : IntegerType} (value : source.Value) :
    target.Value :=
  ⟨target.cast value, target.cast_represents value⟩

/-- A type that has a sign reaches below zero, by one more than above. -/
theorem min_nonpos (type : IntegerType) : type.min ≤ 0 := by
  have nonnegative : 0 ≤ type.max := by
    cases type with
    | bool => decide
    | unsigned digits | signed digits =>
      have positive : (0 : Int) < 2 ^ digits := Int.pow_pos (by decide)
      exact Int.le_sub_one_of_lt positive
  rw [min]
  split_ifs <;> omega

/-- Of two types with the same sign, the one that reaches further up reaches as far down. -/
theorem min_le_min {type wider : IntegerType} (same : type.isSigned = wider.isSigned)
    (up : type.max ≤ wider.max) : wider.min ≤ type.min := by
  rw [min, min, same]
  split_ifs <;> omega

theorem min_of_not_isSigned {type : IntegerType} (no_sign : type.isSigned = false) :
    type.min = 0 := by
  rw [min, if_neg (by simp [no_sign])]

end IntegerType
