import Mathlib.Data.List.Basic

/-!
# ASCII characters

The classes and conversions of `Ascii` on single characters.  A character of the program is a byte,
and the functions go by its code.
-/

namespace Fusion.Ascii

def isDigit (symbol : Char) : Bool := 48 ≤ symbol.toNat ∧ symbol.toNat ≤ 57

def isHex (symbol : Char) : Bool :=
  (97 ≤ symbol.toNat ∧ symbol.toNat ≤ 102) ∨ (65 ≤ symbol.toNat ∧ symbol.toNat ≤ 70) ∨
    (48 ≤ symbol.toNat ∧ symbol.toNat ≤ 57)

def isUpper (symbol : Char) : Bool := 65 ≤ symbol.toNat ∧ symbol.toNat ≤ 90

def toLower (symbol : Char) : Char :=
  if isUpper symbol then Char.ofNat (symbol.toNat + 32) else symbol

def toDigit (symbol : Char) : UInt8 :=
  if isDigit symbol then UInt8.ofNat (symbol.toNat - 48) else 0

def toNibble (symbol : Char) : UInt8 :=
  if isDigit symbol then UInt8.ofNat (symbol.toNat - 48)
  else if 97 ≤ symbol.toNat ∧ symbol.toNat ≤ 102 then UInt8.ofNat (symbol.toNat - 97 + 10)
  else if 65 ≤ symbol.toNat ∧ symbol.toNat ≤ 70 then UInt8.ofNat (symbol.toNat - 65 + 10)
  else 0

def toHexByte (high low : UInt8) : UInt8 := (high <<< 4) ||| low

end Fusion.Ascii
