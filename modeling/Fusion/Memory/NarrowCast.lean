import Fusion.Library.IntegerType

/-!
# Narrowing casts

`NarrowCast` casts an integer to another type and back, and asserts that this gives the integer
again.  Where only one of the types has a sign, it also asserts that no sign came or went.
-/

namespace Fusion

open IntegerType

section Overloads

variable (target : IntegerType) {source : IntegerType} (input : source.Value)

/-- `NarrowCast` if both types have a sign or none: whether the assertion holds, and the value. -/
def narrowCastSameSign : Bool × target.Value :=
  let out := target.staticCast input
  (source.staticCast out = input, out)

/-- `NarrowCast` from a type without a sign to one with a sign. -/
def narrowCastToSigned : Bool × target.Value :=
  let out := target.staticCast input
  (source.staticCast out = input ∧ ¬ out.val < 0, out)

/-- `NarrowCast` from a type with a sign to one without a sign. -/
def narrowCastToUnsigned : Bool × target.Value :=
  let out := target.staticCast input
  (source.staticCast out = input ∧ ¬ input.val < 0, out)

/-- `NarrowCast`, with the overload that the types select. -/
def narrowCast : Bool × target.Value :=
  if target.isSigned = source.isSigned then narrowCastSameSign target input
  else if target.isSigned then narrowCastToSigned target input
  else narrowCastToUnsigned target input

end Overloads

/-! ## Exactness -/

section Exactness

variable {target source : IntegerType} {input : source.Value}

theorem narrowCast_snd : (narrowCast target input).2 = target.staticCast input := by
  rw [narrowCast]
  split_ifs <;> rfl

theorem staticCast_of_represents (represents : target.Represents input) :
    (target.staticCast input).val = input.val :=
  cast_of_represents represents

theorem returns_of_represents (represents : target.Represents input) :
    source.staticCast (target.staticCast input) = input := by
  apply Subtype.ext
  show source.cast (target.cast input) = input
  rw [cast_of_represents represents, cast_of_represents input.property]

/-- A value that comes back is represented: one of the types reaches further up, and if it reaches
down far enough too, it has the value of the other one. -/
theorem represents_of_returns (returns : source.staticCast (target.staticCast input) = input)
    (source_low : target.max ≤ source.max → source.min ≤ (target.staticCast input).val)
    (target_low : source.max ≤ target.max → target.min ≤ input.val) :
    target.Represents input := by
  rcases Int.le_total target.max source.max with narrower | wider
  · have out_represented : source.Represents (target.staticCast input) :=
      ⟨source_low narrower, Int.le_trans (target.staticCast input).property.2 narrower⟩
    have out_eq : (target.staticCast input).val = input.val :=
      (cast_of_represents out_represented).symm.trans (congrArg Subtype.val returns)
    rw [← out_eq]
    exact (target.staticCast input).property
  · exact ⟨target_low wider, Int.le_trans input.property.2 wider⟩

theorem narrowCastSameSign_iff (same : target.isSigned = source.isSigned) :
    (narrowCastSameSign target input).1 = true ↔ target.Represents input := by
  rw [narrowCastSameSign, decide_eq_true_iff]
  constructor
  · intro returns
    refine represents_of_returns returns ?_ ?_
    · intro narrower
      exact Int.le_trans (min_le_min same narrower) (target.staticCast input).property.1
    · intro wider
      exact Int.le_trans (min_le_min same.symm wider) input.property.1
  · exact returns_of_represents

theorem narrowCastToSigned_iff (no_sign : source.isSigned = false) :
    (narrowCastToSigned target input).1 = true ↔ target.Represents input := by
  have nonnegative : 0 ≤ input.val := min_of_not_isSigned no_sign ▸ input.property.1
  rw [narrowCastToSigned, decide_eq_true_iff]
  constructor
  · rintro ⟨returns, kept⟩
    refine represents_of_returns returns ?_ ?_
    · intro narrower
      rw [min_of_not_isSigned no_sign]
      exact Int.not_lt.mp kept
    · intro wider
      exact Int.le_trans target.min_nonpos nonnegative
  · intro represents
    refine ⟨returns_of_represents represents, Int.not_lt.mpr ?_⟩
    rw [staticCast_of_represents represents]
    exact nonnegative

theorem narrowCastToUnsigned_iff (no_sign : target.isSigned = false) :
    (narrowCastToUnsigned target input).1 = true ↔ target.Represents input := by
  have nonnegative : 0 ≤ (target.staticCast input).val :=
    min_of_not_isSigned no_sign ▸ (target.staticCast input).property.1
  rw [narrowCastToUnsigned, decide_eq_true_iff]
  constructor
  · rintro ⟨returns, positive⟩
    refine represents_of_returns returns ?_ ?_
    · intro narrower
      exact Int.le_trans source.min_nonpos nonnegative
    · intro wider
      rw [min_of_not_isSigned no_sign]
      exact Int.not_lt.mp positive
  · intro represents
    refine ⟨returns_of_represents represents, Int.not_lt.mpr ?_⟩
    rw [← staticCast_of_represents represents]
    exact nonnegative

end Exactness

/-- The assertion holds for the values that the type represents, and these are kept. -/
theorem narrowCast_exact (target source : IntegerType) (input : source.Value) :
    ((narrowCast target input).1 = true ↔ target.Represents input) ∧
      ((narrowCast target input).1 = true → (narrowCast target input).2.val = input.val) := by
  have passes_iff : (narrowCast target input).1 = true ↔ target.Represents input := by
    rw [narrowCast]
    split_ifs with same to_signed
    · exact narrowCastSameSign_iff same
    · exact narrowCastToSigned_iff (by simpa [to_signed] using Ne.symm same)
    · exact narrowCastToUnsigned_iff (by simpa using to_signed)
  refine ⟨passes_iff, fun passes => ?_⟩
  rw [narrowCast_snd]
  exact staticCast_of_represents (passes_iff.mp passes)

-- The values of the tests: both are refused.
example : (narrowCast (.unsigned 16) (⟨123456789, by decide⟩ : (signed 31).Value)).1 = false := by
  decide

example : (narrowCast (.signed 15) (⟨-123456789, by decide⟩ : (signed 31).Value)).1 = false := by
  decide

end Fusion
