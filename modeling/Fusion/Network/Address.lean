import Fusion.Library.Strings
import Fusion.StringUtil.Numbers

/-!
# Internet addresses and their text

Addresses are arrays of bytes in network order.  The conversion from and to text is left to the
platform's `inet_pton` and `inet_ntop`; the code checks the size of a text before it asks them.
-/

namespace Fusion.Network

/-- The families of addresses. -/
inductive AddressFamily
  | none
  | unspecified
  | inet4
  | inet6
  | unix
deriving DecidableEq, Repr

/-- `Internal::GetAddressFamily`, with the numbers of Linux. -/
def AddressFamily.number : AddressFamily → Nat
  | .none => 0
  | .unspecified => 0
  | .inet4 => 2
  | .inet6 => 10
  | .unix => 1

def AddressFamily.ofNumber : Nat → AddressFamily
  | 2 => .inet4
  | 10 => .inet6
  | 1 => .unix
  | 0 => .unspecified
  | _ => .none

abbrev InetAddress := Vector UInt8 4

abbrev Inet6Address := Vector UInt8 16

/-- The platform's conversions: `inet_pton`, and `inet_ntop` into a buffer of the given length. -/
structure InetFunctions where
  pton4 : List Char → Option InetAddress
  pton6 : List Char → Option Inet6Address
  ntop4 : InetAddress → Nat → Option (List Char)
  ntop6 : Inet6Address → Nat → Option (List Char)

/-- A text in single quotes between two parts of a message. -/
def quoted (before : String) (text : List Char) (after : String) : String :=
  before ++ "'" ++ String.ofList text ++ "'" ++ after

/-- What a C function sees of a text: the characters before the first zero. -/
def cString (text : List Char) : List Char := text.takeWhile (· ≠ Char.ofNat 0)

/-- `FromString` of an address whose text has at least `least` and at most `most` characters. -/
def addressFromString {α : Type} (least most : Nat) (kind : String)
    (pton : List Char → Option α) (text : List Char) : Result α :=
  if text = [] ∨ text.length < least ∨ most < text.length then
    .error { error := .invalidArgument, message := quoted "invalid input address " text "" }
  else
    match pton (cString text) with
    | some address => .ok address
    | none =>
      .error { error := .invalidArgument, message := quoted "failed to convert " text kind }

def InetAddress.fromString (inet : InetFunctions) : List Char → Result InetAddress :=
  addressFromString 7 16 " to an inet address" inet.pton4

def Inet6Address.fromString (inet : InetFunctions) : List Char → Result Inet6Address :=
  addressFromString 3 64 " to an inet6 address" inet.pton6

def InetAddress.toText (inet : InetFunctions) (address : InetAddress) : List Char :=
  (inet.ntop4 address 16).getD "0.0.0.0".toList

def Inet6Address.toText (inet : InetFunctions) (address : Inet6Address) : List Char :=
  (inet.ntop6 address 64).getD "::0".toList

/-- An address with the family that it was parsed as. -/
inductive ParsedAddress
  | inet4 (address : InetAddress)
  | inet6 (address : Inet6Address)

def parseAddress (inet : InetFunctions) (text : List Char) : Result ParsedAddress :=
  match InetAddress.fromString inet text with
  | .ok address => .ok (.inet4 address)
  | .error _ =>
    match Inet6Address.fromString inet text with
    | .ok address => .ok (.inet6 address)
    | .error _ =>
      .error { error := .invalidArgument, message := quoted "unable to parse address " text "" }

end Fusion.Network
