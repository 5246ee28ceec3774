import Fusion.Library.Numerals
import Fusion.StringUtil.Numbers
import Mathlib.Data.List.TakeWhile

/-!
# Decimal numbers from text

What `ToUnsignedNumber` and `ToSignedNumber` accept, against the numbers that decimal texts denote.
The unsigned accumulator wraps around, the signed one overflows, and a sign alone counts as zero.
-/

namespace Fusion.StringUtil

open Ascii Numerals

/-- One or more decimal digits. -/
def IsNumeral (text : List Char) : Prop :=
  text ≠ [] ∧ ∀ symbol ∈ text, isDigit symbol = true

instance (text : List Char) : Decidable (IsNumeral text) :=
  inferInstanceAs (Decidable (_ ∧ _))

/-- The digit that a character stands for. -/
def digitOf (symbol : Char) : Nat := symbol.toNat - '0'.toNat

/-- The number that decimal digits denote. -/
def numeral (text : List Char) : Nat := Numerals.value 10 digitOf text

/-- The digits that a text begins with. -/
def leadingDigits (text : List Char) : List Char := text.takeWhile isDigit

variable {symbol : Char}

theorem digitOf_lt (digit : isDigit symbol = true) : digitOf symbol < 10 := by
  have bounds : 48 ≤ symbol.toNat ∧ symbol.toNat ≤ 57 := of_decide_eq_true digit
  change symbol.toNat - 48 < 10
  omega

theorem toNat_toDigit (digit : isDigit symbol = true) :
    (toDigit symbol).toNat = digitOf symbol := by
  have small : digitOf symbol < 10 := digitOf_lt digit
  rw [toDigit, if_pos digit, UInt8.toNat_ofNat']
  exact Nat.mod_eq_of_lt (small.trans (by decide))

theorem toNat_toNibble (digit : isDigit symbol = true) :
    (toNibble symbol).toNat = digitOf symbol := by
  rw [← toNat_toDigit digit, toNibble, toDigit, if_pos digit, if_pos digit]

variable {text : List Char}

theorem leadingDigits_eq_self (digits : ∀ symbol ∈ text, isDigit symbol = true) :
    leadingDigits text = text :=
  List.takeWhile_eq_self_iff.mpr digits

section Cons

variable {symbol : Char} (text : List Char)

theorem leadingDigits_cons (digit : isDigit symbol = true) :
    leadingDigits (symbol :: text) = symbol :: leadingDigits text ∧
      (symbol :: text).dropWhile isDigit = text.dropWhile isDigit :=
  ⟨List.takeWhile_cons_of_pos digit, List.dropWhile_cons_of_pos digit⟩

theorem leadingDigits_cons_other (other : isDigit symbol = false) :
    leadingDigits (symbol :: text) = [] ∧ (symbol :: text).dropWhile isDigit = symbol :: text := by
  have not_digit : ¬isDigit symbol = true := by
    rw [other]
    exact Bool.false_ne_true
  exact ⟨List.takeWhile_cons_of_neg not_digit, List.dropWhile_cons_of_neg not_digit⟩

end Cons

/-! ## Unsigned numbers -/

/-- The loop leaves what follows the leading digits, and their number modulo 2 ^ 64. -/
theorem sumDigits_eq (value : UInt64) (text : List Char) :
    (sumDigits value text).2 = text.dropWhile isDigit ∧
      (sumDigits value text).1.toNat =
        accumulate 10 digitOf value.toNat (leadingDigits text) % 2 ^ 64 := by
  induction text generalizing value with
  | nil =>
    refine ⟨rfl, ?_⟩
    rw [leadingDigits, List.takeWhile_nil, accumulate_nil]
    exact (Nat.mod_eq_of_lt value.toNat_lt).symm
  | cons symbol text ih =>
    cases digit : isDigit symbol with
    | false =>
      obtain ⟨lead_eq, left_eq⟩ := leadingDigits_cons_other text digit
      rw [sumDigits, if_neg (by rw [digit]; decide), lead_eq, left_eq, accumulate_nil]
      exact ⟨rfl, (Nat.mod_eq_of_lt value.toNat_lt).symm⟩
    | true =>
      have next_eq : (value * 10 + (toNibble symbol).toUInt64).toNat =
          (value.toNat * 10 + digitOf symbol) % 2 ^ 64 := by
        rw [UInt64.toNat_add, UInt64.toNat_mul, UInt8.toNat_toUInt64, toNat_toNibble digit,
          Nat.mod_add_mod]
        rfl
      obtain ⟨lead_eq, left_eq⟩ := leadingDigits_cons text digit
      rw [sumDigits, if_pos digit, lead_eq, left_eq, accumulate_cons]
      obtain ⟨rest_eq, sum_eq⟩ := ih (value * 10 + (toNibble symbol).toUInt64)
      rw [next_eq, accumulate_mod] at sum_eq
      exact ⟨rest_eq, sum_eq⟩

variable {base : Int}

/-- `ToUnsignedNumber` accepts decimal digits whose number modulo 2 ^ 64 is in range. -/
theorem toUnsignedNumber_eq_ok_iff {max value : UInt64} :
    toUnsignedNumber text base max = .ok value ↔
      IsNumeral text ∧ value.toNat = numeral text % 2 ^ 64 ∧ value ≤ max := by
  obtain ⟨rest_eq, sum_eq⟩ := sumDigits_eq 0 text
  by_cases empty : text = []
  · simp [toUnsignedNumber, IsNumeral, empty]
  by_cases digits : ∀ symbol ∈ text, isDigit symbol = true
  · have rest_nil : (sumDigits 0 text).2 = [] :=
      rest_eq.trans (List.dropWhile_eq_nil_iff.mpr digits)
    have number_eq : (sumDigits 0 text).1.toNat = numeral text % 2 ^ 64 := by
      rw [sum_eq, leadingDigits_eq_self digits]
      exact congrArg (· % 2 ^ 64) (accumulate_zero 10 digitOf text)
    rw [toUnsignedNumber, if_neg empty, ← number_eq, UInt64.toNat_inj]
    by_cases large : max < (sumDigits 0 text).1
    · simp only [if_pos large, reduceCtorEq, false_iff]
      rintro ⟨-, rfl, small⟩
      exact absurd large (UInt64.not_lt.mpr small)
    · simp only [if_neg large, rest_nil, ne_eq, not_true_eq_false, if_false, Except.ok.injEq]
      constructor
      · rintro rfl
        exact ⟨⟨empty, digits⟩, rfl, UInt64.not_lt.mp large⟩
      · rintro ⟨-, rfl, -⟩
        rfl
  · have rest_ne : (sumDigits 0 text).2 ≠ [] := by
      rw [rest_eq]
      exact fun nothing => digits (List.dropWhile_eq_nil_iff.mp nothing)
    rw [toUnsignedNumber, if_neg empty]
    simp only [ne_eq, rest_ne, not_false_eq_true, if_true]
    constructor
    · intro accepted
      split at accepted <;> cases accepted
    · rintro ⟨⟨-, all⟩, -⟩
      exact absurd all digits

/-- A text is accepted exactly if it denotes a number up to the bound, and read as this number. -/
structure Reads {α : Type} (text : List Char) (bound : Nat) (result : Result α) (toNat : α → Nat) :
    Prop where
  accepts : (∃ value, result = .ok value) ↔ IsNumeral text ∧ numeral text ≤ bound
  number : ∀ value, result = .ok value → toNat value = numeral text

/-- Digits for a number that does not fit into 64 bits and comes out no greater than the bound. -/
def WrapsInto (text : List Char) (bound : Nat) : Prop :=
  IsNumeral text ∧ 2 ^ 64 ≤ numeral text ∧ numeral text % 2 ^ 64 ≤ bound

instance (text : List Char) (bound : Nat) : Decidable (WrapsInto text bound) :=
  inferInstanceAs (Decidable (_ ∧ _))

/-- A reader that goes by the number modulo 2 ^ 64 is right exactly where no number wraps around
into its range. -/
theorem reads_iff {α : Type} {text : List Char} {bound : Nat} {result : Result α} {toNat : α → Nat}
    (small : bound < 2 ^ 64) (onto : ∀ number ≤ bound, ∃ value, toNat value = number)
    (ok_iff : ∀ value, result = .ok value ↔
      IsNumeral text ∧ toNat value = numeral text % 2 ^ 64 ∧ toNat value ≤ bound) :
    Reads text bound result toNat ↔ ¬WrapsInto text bound := by
  constructor
  · rintro ⟨accepts, -⟩ ⟨digits, large, wrapped⟩
    obtain ⟨value, value_eq⟩ := onto _ wrapped
    have accepted := (ok_iff value).mpr ⟨digits, value_eq, value_eq.trans_le wrapped⟩
    have within := (accepts.mp ⟨value, accepted⟩).2
    omega
  · intro unwrapped
    have number : ∀ value, result = .ok value → toNat value = numeral text := by
      intro value accepted
      obtain ⟨digits, value_eq, within⟩ := (ok_iff value).mp accepted
      have fits : numeral text < 2 ^ 64 := by
        by_contra large
        exact unwrapped ⟨digits, by omega, value_eq ▸ within⟩
      rw [value_eq, Nat.mod_eq_of_lt fits]
    refine ⟨⟨?_, ?_⟩, number⟩
    · rintro ⟨value, accepted⟩
      obtain ⟨digits, -, within⟩ := (ok_iff value).mp accepted
      exact ⟨digits, number value accepted ▸ within⟩
    · rintro ⟨digits, within⟩
      obtain ⟨value, value_eq⟩ := onto _ within
      refine ⟨value, (ok_iff value).mpr ⟨digits, ?_, value_eq.trans_le within⟩⟩
      rw [value_eq, Nat.mod_eq_of_lt (within.trans_lt small)]

theorem UnsignedType.toNat_max (type : UnsignedType) : type.max.toNat = 2 ^ type.width - 1 := by
  cases type <;> rfl

theorem UnsignedType.max_lt (type : UnsignedType) : 2 ^ type.width - 1 < 2 ^ 64 :=
  type.toNat_max ▸ type.max.toNat_lt

/-- The conversion to the type keeps a number in its range. -/
theorem parseNumber_eq_ok_iff {type : UnsignedType} {value : BitVec type.width} :
    parseNumber type text base = .ok value ↔
      IsNumeral text ∧ value.toNat = numeral text % 2 ^ 64 ∧ value.toNat ≤ 2 ^ type.width - 1 := by
  constructor
  · intro parsed
    cases read : toUnsignedNumber text base type.max with
    | error failure =>
      rw [parseNumber, read] at parsed
      cases parsed
    | ok number =>
      rw [parseNumber, read] at parsed
      obtain ⟨digits, number_eq, within⟩ := toUnsignedNumber_eq_ok_iff.mp read
      rw [UInt64.le_iff_toNat_le, type.toNat_max] at within
      have positive : 0 < 2 ^ type.width := Nat.two_pow_pos _
      have value_eq : value.toNat = number.toNat := by
        rw [← Except.ok.inj parsed, BitVec.toNat_ofNat]
        exact Nat.mod_eq_of_lt (by omega)
      exact ⟨digits, value_eq.trans number_eq, value_eq.trans_le within⟩
  · rintro ⟨digits, value_eq, within⟩
    have number_eq : (UInt64.ofNat value.toNat).toNat = value.toNat := by
      rw [UInt64.toNat_ofNat']
      exact Nat.mod_eq_of_lt (within.trans_lt type.max_lt)
    have read : toUnsignedNumber text base type.max = .ok (UInt64.ofNat value.toNat) := by
      refine toUnsignedNumber_eq_ok_iff.mpr ⟨digits, number_eq.trans value_eq, ?_⟩
      rw [UInt64.le_iff_toNat_le, number_eq, type.toNat_max]
      exact within
    rw [parseNumber, read]
    refine congrArg Except.ok (BitVec.eq_of_toNat_eq ?_)
    rw [BitVec.toNat_ofNat, number_eq]
    exact Nat.mod_eq_of_lt value.isLt

/-- Unsigned numbers are read right, by `ToUnsignedNumber` with any bound and by `ParseNumber` for
any type, exactly where no number wraps around into the range. -/
theorem reads_unsigned_iff (text : List Char) :
    (∀ max : UInt64, Reads text max.toNat (toUnsignedNumber text 10 max) UInt64.toNat ↔
        ¬WrapsInto text max.toNat) ∧
      ∀ type : UnsignedType, Reads text (2 ^ type.width - 1) (parseNumber type text 10)
          BitVec.toNat ↔ ¬WrapsInto text (2 ^ type.width - 1) := by
  constructor
  · intro max
    refine reads_iff max.toNat_lt ?_ ?_
    · intro number within
      refine ⟨UInt64.ofNat number, ?_⟩
      rw [UInt64.toNat_ofNat']
      exact Nat.mod_eq_of_lt (within.trans_lt max.toNat_lt)
    · intro value
      rw [toUnsignedNumber_eq_ok_iff, UInt64.le_iff_toNat_le]
  · intro type
    refine reads_iff type.max_lt ?_ fun value => parseNumber_eq_ok_iff
    intro number within
    refine ⟨BitVec.ofNat type.width number, ?_⟩
    rw [BitVec.toNat_ofNat]
    have positive : 0 < 2 ^ type.width := Nat.two_pow_pos _
    exact Nat.mod_eq_of_lt (by omega)

/-- The smallest number that 64 bits do not hold is read as zero. -/
theorem reads_zero_for_wrapped :
    toUnsignedNumber "18446744073709551616".toList 10 65535 = .ok 0 ∧
      ¬Reads "18446744073709551616".toList 65535
        (toUnsignedNumber "18446744073709551616".toList 10 65535) UInt64.toNat := by
  have read : toUnsignedNumber "18446744073709551616".toList 10 65535 = .ok 0 := by
    decide +kernel
  refine ⟨read, ?_⟩
  rintro ⟨accepts, -⟩
  have within := (accepts.mp ⟨0, read⟩).2
  exact absurd within (by decide +kernel)

/-! ## Signed numbers -/

/-- The text behind a sign. -/
def unsignedPart (text : List Char) : List Char :=
  if text.head? = some '-' then text.drop 1 else text

/-- An optional sign and the digits of a number. -/
def Denotes (text : List Char) (number : Int) : Prop :=
  IsNumeral text ∧ number = numeral text ∨
    ∃ digits, text = '-' :: digits ∧ IsNumeral digits ∧ number = -numeral digits

/-- The number that the digits behind the sign come to. -/
def signedValue (text : List Char) : Int :=
  let number : Int := numeral (leadingDigits (unsignedPart text))
  if text.head? = some '-' then -number else number

theorem denotes_iff {number : Int} :
    Denotes text number ↔ IsNumeral (unsignedPart text) ∧ number = signedValue text := by
  unfold Denotes unsignedPart signedValue unsignedPart
  by_cases sign : text.head? = some '-'
  · obtain ⟨digits, rfl⟩ := List.head?_eq_some_iff.mp sign
    simp only [if_pos sign, List.drop_succ_cons, List.drop_zero, List.cons.injEq, true_and]
    constructor
    · rintro (⟨⟨-, all⟩, -⟩ | ⟨others, rfl, digit, number_eq⟩)
      · exact absurd (all '-' List.mem_cons_self) (by decide)
      · rw [leadingDigits_eq_self digit.2]
        exact ⟨digit, number_eq⟩
    · rintro ⟨digit, number_eq⟩
      rw [leadingDigits_eq_self digit.2] at number_eq
      exact .inr ⟨digits, rfl, digit, number_eq⟩
  · simp only [if_neg sign]
    constructor
    · rintro (⟨digit, number_eq⟩ | ⟨others, rfl, -⟩)
      · rw [leadingDigits_eq_self digit.2]
        exact ⟨digit, number_eq⟩
      · exact absurd rfl sign
    · rintro ⟨digit, number_eq⟩
      rw [leadingDigits_eq_self digit.2] at number_eq
      exact .inl ⟨digit, number_eq⟩

theorem signed_natCast (number : Nat) :
    signed number = if number < 2 ^ 63 then some (Int64.ofInt number) else none := by
  have bounds : (Int64.minValue.toInt ≤ (number : Int) ∧ (number : Int) ≤ Int64.maxValue.toInt) ↔
      number < 2 ^ 63 := by
    change ((-2 ^ 63 : Int) ≤ number ∧ (number : Int) ≤ 2 ^ 63 - 1) ↔ number < 2 ^ 63
    omega
  simp only [signed, bounds]

theorem toInt_ofInt_natCast {number : Nat} (small : number < 2 ^ 63) :
    (Int64.ofInt number).toInt = number :=
  Int64.toInt_ofInt_of_le (by omega) (by omega)

theorem signed_neg_natCast {number : Nat} (small : number < 2 ^ 63) :
    signed (-number) = some (Int64.ofInt (-number)) := by
  refine if_pos ?_
  change (-2 ^ 63 : Int) ≤ -number ∧ -(number : Int) ≤ 2 ^ 63 - 1
  omega

theorem toInt_ofInt_signedValue (fits : numeral (leadingDigits (unsignedPart text)) < 2 ^ 63) :
    (Int64.ofInt (signedValue text)).toInt = signedValue text := by
  rw [signedValue]
  split <;> exact Int64.toInt_ofInt_of_le (by omega) (by omega)

theorem signed_bind_natCast {α : Type} (start digit : Nat) (next : Int64 → Option α) :
    ((signed (start * 10)).bind fun scaled => (signed (scaled.toInt + digit)).bind next) =
      if start * 10 + digit < 2 ^ 63 then next (Int64.ofInt ((start * 10 + digit : Nat) : Int))
      else none := by
  have product_eq : (start * 10 : Int) = ((start * 10 : Nat) : Int) := by omega
  rw [product_eq, signed_natCast]
  by_cases product : start * 10 < 2 ^ 63
  · rw [if_pos product, Option.bind_some, toInt_ofInt_natCast product]
    have sum_eq : ((start * 10 : Nat) : Int) + digit = ((start * 10 + digit : Nat) : Int) := by
      omega
    rw [sum_eq, signed_natCast]
    by_cases sum : start * 10 + digit < 2 ^ 63
    · rw [if_pos sum, if_pos sum, Option.bind_some]
    · rw [if_neg sum, if_neg sum, Option.bind_none]
  · rw [if_neg product, Option.bind_none, if_neg (by omega)]

theorem sumSigned_eq {start : Nat} (small : start < 2 ^ 63) (text : List Char) :
    sumSigned (Int64.ofInt start) text =
      let sum := accumulate 10 digitOf start (leadingDigits text)
      if sum < 2 ^ 63 then some (Int64.ofInt sum, text.dropWhile isDigit) else none := by
  induction text generalizing start with
  | nil =>
    simp only [leadingDigits, List.takeWhile_nil, accumulate_nil, if_pos small]
    rfl
  | cons symbol text ih =>
    cases digit : isDigit symbol with
    | false =>
      obtain ⟨lead_eq, left_eq⟩ := leadingDigits_cons_other text digit
      simp only [lead_eq, left_eq, accumulate_nil, if_pos small]
      rw [sumSigned, if_neg (by rw [digit]; decide)]
    | true =>
      obtain ⟨lead_eq, left_eq⟩ := leadingDigits_cons text digit
      simp only [lead_eq, left_eq, accumulate_cons]
      rw [sumSigned, if_pos digit, toInt_ofInt_natCast small, toNat_toDigit digit]
      refine (signed_bind_natCast start (digitOf symbol) (sumSigned · text)).trans ?_
      by_cases fits : start * 10 + digitOf symbol < 2 ^ 63
      · rw [if_pos fits]
        exact ih fits
      · have grows := @Numerals.le_accumulate _ digitOf 10 (by decide)
          (start * 10 + digitOf symbol) (leadingDigits text)
        rw [if_neg fits, if_neg (by omega)]

/-- The sign and the digits, if there is no overflow. -/
theorem toSignedNumber_eq (nonempty : text ≠ []) (base : Int) (min max : Int64) :
    toSignedNumber text base min max =
      if numeral (leadingDigits (unsignedPart text)) < 2 ^ 63 then
        if signedValue text < min.toInt ∨ max.toInt < signedValue text then
          some (.error { message := "out of range" })
        else if (unsignedPart text).dropWhile isDigit ≠ [] then
          some (.error { message := "not a number" })
        else some (.ok (Int64.ofInt (signedValue text)))
      else none := by
  have sum_eq : sumSigned 0 (unsignedPart text) =
      if numeral (leadingDigits (unsignedPart text)) < 2 ^ 63 then
        some (Int64.ofInt (numeral (leadingDigits (unsignedPart text))),
          (unsignedPart text).dropWhile isDigit)
      else none := by
    have looped := sumSigned_eq (Nat.two_pow_pos 63) (unsignedPart text)
    simp only [accumulate_zero] at looped
    exact looped
  rw [toSignedNumber, if_neg nonempty]
  change (sumSigned 0 (unsignedPart text)).bind _ = _
  rw [sum_eq]
  by_cases fits : numeral (leadingDigits (unsignedPart text)) < 2 ^ 63
  · have value_eq : (if text.head? = some '-' then
          signed (-(Int64.ofInt (numeral (leadingDigits (unsignedPart text)))).toInt)
        else some (Int64.ofInt (numeral (leadingDigits (unsignedPart text))))) =
        some (Int64.ofInt (signedValue text)) := by
      rw [toInt_ofInt_natCast fits, signedValue]
      by_cases sign : text.head? = some '-'
      · rw [if_pos sign, if_pos sign]
        exact signed_neg_natCast fits
      · rw [if_neg sign, if_neg sign]
    rw [if_pos fits, if_pos fits, Option.bind_some]
    dsimp only
    rw [value_eq]
    simp only [Option.map_some, Int64.lt_iff_toInt_lt, toInt_ofInt_signedValue fits]
    split
    · rfl
    · split <;> rfl
  · rw [if_neg fits, if_neg fits, Option.bind_none]

theorem toSignedNumber_eq_ok_iff {min max value : Int64}
    (fits : numeral (leadingDigits (unsignedPart text)) < 2 ^ 63) :
    toSignedNumber text base min max = some (.ok value) ↔
      text ≠ [] ∧ (∀ symbol ∈ unsignedPart text, isDigit symbol = true) ∧
        value.toInt = signedValue text ∧ min.toInt ≤ value.toInt ∧ value.toInt ≤ max.toInt := by
  by_cases empty : text = []
  · simp [toSignedNumber, empty]
  rw [toSignedNumber_eq empty, if_pos fits]
  by_cases outside : signedValue text < min.toInt ∨ max.toInt < signedValue text
  · rw [if_pos outside]
    constructor
    · intro accepted
      cases accepted
    · rintro ⟨-, -, value_eq, above, below⟩
      omega
  by_cases digits : ∀ symbol ∈ unsignedPart text, isDigit symbol = true
  · have nothing := List.dropWhile_eq_nil_iff.mpr digits
    rw [if_neg outside, if_neg (not_not.mpr nothing), Option.some.injEq, Except.ok.injEq]
    constructor
    · rintro rfl
      rw [toInt_ofInt_signedValue fits]
      exact ⟨empty, digits, rfl, by omega, by omega⟩
    · rintro ⟨-, -, value_eq, -⟩
      exact Int64.toInt.inj ((toInt_ofInt_signedValue fits).trans value_eq.symm)
  · have something := mt List.dropWhile_eq_nil_iff.mp digits
    rw [if_neg outside, if_pos something]
    constructor
    · intro accepted
      cases accepted
    · rintro ⟨-, all, -⟩
      exact absurd all digits

/-- A text is accepted exactly if it denotes a number within the bounds, and read as this number,
and no signed arithmetic overflows on the way. -/
structure ReadsSigned (text : List Char) (min max : Int64) : Prop where
  defined : toSignedNumber text 10 min max ≠ none
  accepts : (∃ value, toSignedNumber text 10 min max = some (.ok value)) ↔
    ∃ number, Denotes text number ∧ min.toInt ≤ number ∧ number ≤ max.toInt
  number : ∀ value, toSignedNumber text 10 min max = some (.ok value) → Denotes text value.toInt

theorem unsignedPart_eq_nil_iff : unsignedPart text = [] ↔ text = [] ∨ text = ['-'] := by
  unfold unsignedPart
  by_cases sign : text.head? = some '-'
  · obtain ⟨digits, rfl⟩ := List.head?_eq_some_iff.mp sign
    simp
  · rw [if_neg sign]
    constructor
    · exact .inl
    · rintro (rfl | rfl)
      · rfl
      · exact absurd rfl sign

/-- Signed numbers are read right exactly where the leading digits fit into 63 bits and the text is
not a sign alone with zero within the bounds. -/
theorem reads_signed_iff (text : List Char) (min max : Int64) :
    ReadsSigned text min max ↔
      numeral (leadingDigits (unsignedPart text)) < 2 ^ 63 ∧
        ¬(text = ['-'] ∧ min ≤ 0 ∧ 0 ≤ max) := by
  constructor
  · rintro ⟨defined, -, number⟩
    have fits : numeral (leadingDigits (unsignedPart text)) < 2 ^ 63 := by
      by_contra large
      by_cases empty : text = []
      · subst empty
        exact large (by decide)
      · rw [toSignedNumber_eq empty, if_neg large] at defined
        exact defined rfl
    refine ⟨fits, ?_⟩
    rintro ⟨rfl, below, above⟩
    rw [Int64.le_iff_toInt_le] at below above
    have accepted : toSignedNumber ['-'] 10 min max = some (.ok 0) :=
      (toSignedNumber_eq_ok_iff fits).mpr
        ⟨List.cons_ne_nil _ _, fun symbol member => absurd member (by simp [unsignedPart]),
          by decide, below, above⟩
    exact (denotes_iff.mp (number 0 accepted)).1.1 rfl
  · rintro ⟨fits, unsignedAlone⟩
    have ok_iff : ∀ value : Int64, toSignedNumber text 10 min max = some (.ok value) ↔
        Denotes text value.toInt ∧ min.toInt ≤ value.toInt ∧ value.toInt ≤ max.toInt := by
      intro value
      rw [toSignedNumber_eq_ok_iff fits, denotes_iff]
      constructor
      · rintro ⟨nonempty, digits, value_eq, above, below⟩
        refine ⟨⟨⟨?_, digits⟩, value_eq⟩, above, below⟩
        intro nothing
        obtain rfl := (unsignedPart_eq_nil_iff.mp nothing).resolve_left nonempty
        have zero : value.toInt = 0 := value_eq.trans (by decide)
        rw [zero] at above below
        exact unsignedAlone
          ⟨rfl, Int64.le_iff_toInt_le.mpr above, Int64.le_iff_toInt_le.mpr below⟩
      · rintro ⟨⟨⟨nonempty, digits⟩, value_eq⟩, above, below⟩
        exact ⟨fun empty => nonempty (unsignedPart_eq_nil_iff.mpr (.inl empty)), digits,
          value_eq, above, below⟩
    refine ⟨?_, ⟨?_, ?_⟩, fun value accepted => ((ok_iff value).mp accepted).1⟩
    · by_cases empty : text = []
      · rw [toSignedNumber, if_pos empty]
        exact Option.some_ne_none _
      · rw [toSignedNumber_eq empty, if_pos fits]
        split
        · exact Option.some_ne_none _
        · split <;> exact Option.some_ne_none _
    · rintro ⟨value, accepted⟩
      exact ⟨value.toInt, (ok_iff value).mp accepted⟩
    · rintro ⟨number, denoted, above, below⟩
      have value_eq : (Int64.ofInt number).toInt = number := by
        rw [(denotes_iff.mp denoted).2]
        exact toInt_ofInt_signedValue fits
      refine ⟨Int64.ofInt number, (ok_iff _).mpr ?_⟩
      rw [value_eq]
      exact ⟨denoted, above, below⟩

/-- A sign alone is read as zero, and the smallest number that the type holds overflows. -/
theorem reads_sign_and_overflows :
    toSignedNumber "-".toList 10 Int64.minValue Int64.maxValue = some (.ok 0) ∧
      ¬ReadsSigned "-".toList Int64.minValue Int64.maxValue ∧
      toSignedNumber "-9223372036854775808".toList 10 Int64.minValue Int64.maxValue = none ∧
      ¬ReadsSigned "-9223372036854775808".toList Int64.minValue Int64.maxValue := by
  have sign : toSignedNumber "-".toList 10 Int64.minValue Int64.maxValue = some (.ok 0) := by
    decide +kernel
  have overflow : toSignedNumber "-9223372036854775808".toList 10 Int64.minValue
      Int64.maxValue = none := by
    decide +kernel
  refine ⟨sign, ?_, overflow, ?_⟩
  · rintro ⟨-, -, number⟩
    exact (denotes_iff.mp (number 0 sign)).1.1 rfl
  · rintro ⟨defined, -, -⟩
    exact defined overflow

end Fusion.StringUtil
