import Fusion.Ascii.Characters
import Fusion.Result
import Mathlib.Algebra.Group.Nat.Defs

/-!
# Numbers from text

`StringUtil::ParseNumber` for integral types: decimal digits are added up in 64 bits, whatever the
base that the caller asks for, and the bounds are checked once at the end.  The loops look at the
character behind the last one before they compare the positions, and ignore it.
-/

namespace Fusion

namespace StringUtil

/-- The loop over the leading digits, which gives their sum and what follows them. -/
def sumDigits (value : UInt64) : List Char → UInt64 × List Char
  | [] => (value, [])
  | symbol :: text =>
    if Ascii.isDigit symbol then sumDigits (value * 10 + (Ascii.toNibble symbol).toUInt64) text
    else (value, symbol :: text)

def toUnsignedNumber (text : List Char) (_base : Int) (max : UInt64) : Result UInt64 :=
  if text = [] then .error { message := "empty string" }
  else
    let (value, rest) := sumDigits 0 text
    if max < value then .error { message := "out of range" }
    else if rest ≠ [] then .error { message := "not a number" }
    else .ok value

/-- The types that `ParseNumber` reads without a sign, by their width. -/
inductive UnsignedType
  | bool
  | uint8
  | uint16
  | uint32
  | uint64
deriving DecidableEq

def UnsignedType.width : UnsignedType → Nat
  | .bool => 1
  | .uint8 => 8
  | .uint16 => 16
  | .uint32 => 32
  | .uint64 => 64

/-- `std::numeric_limits<T>::max()`. -/
def UnsignedType.max (type : UnsignedType) : UInt64 := UInt64.ofNat (2 ^ type.width - 1)

/-- `ParseNumber<T>` for an unsigned type. -/
def parseNumber (type : UnsignedType) (text : List Char) (base : Int) :
    Result (BitVec type.width) :=
  (toUnsignedNumber text base type.max).map fun value => BitVec.ofNat type.width value.toNat

/-- The result of an operation on `int64_t`, which is defined unless it overflows. -/
def signed (value : Int) : Option Int64 :=
  if Int64.minValue.toInt ≤ value ∧ value ≤ Int64.maxValue.toInt then some (Int64.ofInt value)
  else none

/-- The loop over the leading digits in `ToSignedNumber`. -/
def sumSigned (value : Int64) : List Char → Option (Int64 × List Char)
  | [] => some (value, [])
  | symbol :: text =>
    if Ascii.isDigit symbol then do
      let scaled ← signed (value.toInt * 10)
      let next ← signed (scaled.toInt + (Ascii.toDigit symbol).toNat)
      sumSigned next text
    else some (value, symbol :: text)

/-- `StringUtil::ToSignedNumber`, without a result where signed arithmetic overflows. -/
def toSignedNumber (text : List Char) (_base : Int) (min max : Int64) : Option (Result Int64) :=
  if text = [] then some (.error { message := "empty string" })
  else do
    let sign := text.head? = some '-'
    let (sum, rest) ← sumSigned 0 (if sign then text.drop 1 else text)
    (if sign then signed (-sum.toInt) else some sum).map fun value =>
      if value < min ∨ max < value then .error { message := "out of range" }
      else if rest ≠ [] then .error { message := "not a number" }
      else .ok value

example : parseNumber .uint16 "8080".toList 0 = .ok 8080#16 := by decide +kernel

end StringUtil

end Fusion
