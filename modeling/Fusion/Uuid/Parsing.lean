import Fusion.Ascii.Characters
import Fusion.Library.Memory
import Fusion.Result
import Mathlib.Data.List.Induction

/-!
# Parsing UUIDs

`UUID::FromString` skips dashes and takes the other characters in pairs of hexadecimal digits.  It
stops at the first character that is neither, looks one character ahead without asking whether
there is one, and stores a byte without asking whether there is room.
-/

namespace Fusion

open Ascii

/-- A UUID: its bytes. -/
structure UUID where
  bytes : List UInt8
  length_bytes : bytes.length = 16
deriving DecidableEq

namespace UUID

/-- `SIZE`. -/
def size : Nat := 16

def zero : UUID := { bytes := List.replicate 16 0, length_bytes := rfl }

/-- Write a byte; `none` is a write outside the array. -/
def write (uuid : UUID) (index : Nat) (byte : UInt8) : Option UUID :=
  if index < size then
    some { bytes := uuid.bytes.set index byte,
           length_bytes := by rw [List.length_set, uuid.length_bytes] }
  else none

/-- The loop of `FromString`: how many bytes are written, and the bytes.  `none` is a read behind
the text or a write outside the bytes. -/
def parseLoop : List Char → Nat → UUID → Option (Nat × UUID)
  | [], index, uuid => some (index, uuid)
  | symbol :: text, index, uuid =>
    if symbol = Char.ofNat 0 then some (index, uuid)
    else if symbol = '-' then parseLoop text index uuid
    else if ¬isHex symbol then some (index, uuid)
    else
      match text with
      | [] => none
      | next :: text =>
        if ¬isHex next then some (index, uuid)
        else do
          let uuid ←
            uuid.write index (toHexByte (toNibble symbol) (toNibble next))
          parseLoop text (index + 1) uuid

/-- `FromString`; `none` is a read behind the text or a write outside the bytes. -/
def fromString (text : List Char) : Option (Result UUID) :=
  if text.length % 2 ≠ 0 then some (.error { error := .invalidArgument })
  else do
    let (index, uuid) ← parseLoop text 0 zero
    if index = size then return .ok uuid
    else
      let failure : Failure := { error := .invalidArgument }
      return .error (failure.withContext ("Failed to parse '" ++ String.ofList text ++ "'"))

/-! ## What the loop takes -/

/-- A text of dashes and of pairs of hexadecimal digits, and the bytes that the pairs spell. -/
inductive Spells : List Char → List UInt8 → Prop
  | nil : Spells [] []
  | dash {text : List Char} {bytes : List UInt8} (spells : Spells text bytes) :
      Spells ('-' :: text) bytes
  | pair {high low : Char} {text : List Char} {bytes : List UInt8}
      (high_hex : isHex high = true) (low_hex : isHex low = true)
      (spells : Spells text bytes) :
      Spells (high :: low :: text)
        (toHexByte (toNibble high) (toNibble low) :: bytes)

/-- A text that begins neither with a dash nor with two hexadecimal digits. -/
inductive Stops : List Char → Prop
  | nil : Stops []
  | other {symbol : Char} {text : List Char} (not_dash : symbol ≠ '-')
      (not_hex : isHex symbol = false) : Stops (symbol :: text)
  | lone {symbol : Char} (hex : isHex symbol = true) : Stops [symbol]
  | half {high low : Char} {text : List Char} (high_hex : isHex high = true)
      (not_hex : isHex low = false) : Stops (high :: low :: text)

/-- A hexadecimal digit with nothing behind it. -/
def LoneDigit (text : List Char) : Prop := ∃ symbol, text = [symbol] ∧ isHex symbol = true

variable {text : List Char}

theorem LoneDigit.length_eq (lone : LoneDigit text) : text.length = 1 := by
  obtain ⟨symbol, text_eq, -⟩ := lone
  rw [text_eq, List.length_singleton]

theorem exists_spells_stops (text : List Char) :
    ∃ front bytes rest, text = front ++ rest ∧ Spells front bytes ∧ Stops rest := by
  -- A dash takes the text one character on, a pair takes it two.
  induction text using List.twoStepInduction with
  | nil => exact ⟨[], [], [], rfl, .nil, .nil⟩
  | singleton symbol =>
    by_cases dash : symbol = '-'
    · exact ⟨['-'], [], [], by rw [dash]; rfl, .dash .nil, .nil⟩
    · cases hex : isHex symbol with
      | false => exact ⟨[], [], [symbol], rfl, .nil, .other dash hex⟩
      | true => exact ⟨[], [], [symbol], rfl, .nil, .lone hex⟩
  | cons_cons symbol next text behind_pair behind_one =>
    by_cases dash : symbol = '-'
    · obtain ⟨front, bytes, rest, text_eq, spells, stops⟩ := behind_one next
      exact ⟨'-' :: front, bytes, rest, by rw [dash, text_eq]; rfl, .dash spells, stops⟩
    · cases hex : isHex symbol with
      | false => exact ⟨[], [], symbol :: next :: text, rfl, .nil, .other dash hex⟩
      | true =>
        cases next_hex : isHex next with
        | false => exact ⟨[], [], symbol :: next :: text, rfl, .nil, .half hex next_hex⟩
        | true =>
          obtain ⟨front, bytes, rest, text_eq, spells, stops⟩ := behind_pair
          exact ⟨symbol :: next :: front, _, rest, by rw [text_eq]; rfl,
            .pair hex next_hex spells, stops⟩

theorem ne_nul_of_isHex {symbol : Char} (hex : isHex symbol = true) : symbol ≠ Char.ofNat 0 := by
  rintro rfl
  cases hex

theorem ne_dash_of_isHex {symbol : Char} (hex : isHex symbol = true) : symbol ≠ '-' := by
  rintro rfl
  cases hex

@[simp] theorem parseLoop_dash (text : List Char) (index : Nat) (uuid : UUID) :
    parseLoop ('-' :: text) index uuid = parseLoop text index uuid := by
  cases text with
  | nil => rfl
  | cons next text => rw [parseLoop, if_neg (by decide), if_pos rfl]

theorem parseLoop_pair {high low : Char} (high_hex : isHex high = true)
    (low_hex : isHex low = true) (text : List Char) (index : Nat) (uuid : UUID) :
    parseLoop (high :: low :: text) index uuid =
      (uuid.write index (toHexByte (toNibble high) (toNibble low))).bind
        (parseLoop text (index + 1)) := by
  rw [parseLoop, if_neg (ne_nul_of_isHex high_hex), if_neg (ne_dash_of_isHex high_hex),
    if_neg (not_not.mpr high_hex), if_neg (not_not.mpr low_hex)]
  rfl

theorem parseLoop_of_stops {rest : List Char} (stops : Stops rest) (index : Nat) (uuid : UUID) :
    LoneDigit rest ∧ parseLoop rest index uuid = none ∨
      ¬LoneDigit rest ∧ parseLoop rest index uuid = some (index, uuid) := by
  cases stops with
  | nil => exact .inr ⟨fun lone => Nat.zero_ne_one lone.length_eq, rfl⟩
  | @other symbol text not_dash not_hex =>
    refine .inr ⟨?_, ?_⟩
    · rintro ⟨digit, text_eq, hex⟩
      rw [← (List.cons.inj text_eq).1, not_hex] at hex
      cases hex
    · cases text with
      | nil => simp [parseLoop, not_dash, not_hex]
      | cons next text => simp [parseLoop, not_dash, not_hex]
  | @lone symbol hex =>
    refine .inl ⟨⟨symbol, rfl, hex⟩, ?_⟩
    rw [parseLoop, if_neg (ne_nul_of_isHex hex), if_neg (ne_dash_of_isHex hex),
      if_neg (not_not.mpr hex)]
  | @half high low text high_hex not_hex =>
    refine .inr ⟨fun lone => by simpa using lone.length_eq, ?_⟩
    rw [parseLoop, if_neg (ne_nul_of_isHex high_hex), if_neg (ne_dash_of_isHex high_hex),
      if_neg (not_not.mpr high_hex)]
    simp [not_hex]

variable {index : Nat}

theorem write_of_lt (uuid : UUID) (byte : UInt8) (inside : index < 16) :
    ∃ written, uuid.write index byte = some written ∧
      written.bytes = Memory.copyAt uuid.bytes index [byte] := by
  refine ⟨_, if_pos inside, ?_⟩
  exact (Memory.copyAt_singleton byte (by rw [uuid.length_bytes]; exact inside)).symm

variable {bytes : List UInt8} {front : List Char}

theorem parseLoop_of_fits (spells : Spells front bytes) (rest : List Char) (uuid : UUID)
    (fits : index + bytes.length ≤ 16) :
    ∃ written, written.bytes = Memory.copyAt uuid.bytes index bytes ∧
      parseLoop (front ++ rest) index uuid = parseLoop rest (index + bytes.length) written := by
  induction spells generalizing index uuid with
  | nil => exact ⟨uuid, (Memory.copyAt_nil ..).symm, rfl⟩
  | dash _ ih =>
    rw [List.cons_append, parseLoop_dash]
    exact ih uuid fits
  | @pair high low text bytes high_hex low_hex _ ih =>
    rw [List.length_cons] at fits
    obtain ⟨first, written_eq, first_eq⟩ := write_of_lt uuid
      (toHexByte (toNibble high) (toNibble low)) (by omega : index < 16)
    obtain ⟨written, bytes_eq, loop_eq⟩ := ih first (by omega : index + 1 + bytes.length ≤ 16)
    refine ⟨written, ?_, ?_⟩
    · rw [bytes_eq, first_eq]
      exact Memory.copyAt_append (by rw [uuid.length_bytes]; omega)
    · rw [List.cons_append, List.cons_append, parseLoop_pair high_hex low_hex, written_eq,
        Option.bind_some, loop_eq, List.length_cons, Nat.add_right_comm, Nat.add_assoc]

theorem parseLoop_of_too_many (spells : Spells front bytes) (rest : List Char) (uuid : UUID)
    (inside : index ≤ 16) (too_many : 16 < index + bytes.length) :
    parseLoop (front ++ rest) index uuid = none := by
  induction spells generalizing index uuid with
  | nil =>
    rw [List.length_nil] at too_many
    omega
  | dash _ ih =>
    rw [List.cons_append, parseLoop_dash]
    exact ih uuid inside too_many
  | pair high_hex low_hex _ ih =>
    rw [List.length_cons] at too_many
    rw [List.cons_append, List.cons_append, parseLoop_pair high_hex low_hex, write]
    by_cases room : index < size
    · rw [if_pos room, Option.bind_some]
      exact ih _ room (by omega)
    · rw [if_neg room, Option.bind_none]

/-! ## Strictness -/

/-- The bytes that pairs of hexadecimal digits stand for. -/
def hexPairs : List Char → List UInt8
  | high :: low :: text =>
    toHexByte (toNibble high) (toNibble low) :: hexPairs text
  | _ => []

/-- The text consists of dashes and of 32 hexadecimal digits, whose pairs are the bytes. -/
structure IsTextOf (text : List Char) (uuid : UUID) : Prop where
  symbols : ∀ symbol ∈ text, symbol = '-' ∨ isHex symbol = true
  digits : (text.filter isHex).length = 32
  pairs : hexPairs (text.filter isHex) = uuid.bytes

/-- Parsing stays inside the text and the bytes, and accepts nothing but texts of UUIDs. -/
def ParsesStrictly (text : List Char) : Prop :=
  ∃ outcome, fromString text = some outcome ∧ ∀ uuid, outcome = .ok uuid → IsTextOf text uuid

/-- The texts that `FromString` treats well: those of odd length, those that stop before there are
16 pairs, but not at a last digit, and those of 16 pairs with nothing but dashes around them. -/
def WellTreated (text : List Char) : Prop :=
  text.length % 2 = 1 ∨ ∃ front bytes rest, text = front ++ rest ∧ Spells front bytes ∧
    Stops rest ∧ (bytes.length < 16 ∧ ¬LoneDigit rest ∨ bytes.length = 16 ∧ rest = [])

theorem Spells.symbols (spells : Spells text bytes) :
    ∀ symbol ∈ text, symbol = '-' ∨ isHex symbol = true := by
  induction spells with
  | nil =>
    intro symbol member
    cases member
  | dash _ ih =>
    intro symbol member
    rcases List.mem_cons.mp member with first | later
    · exact .inl first
    · exact ih symbol later
  | pair high_hex low_hex _ ih =>
    intro symbol member
    rcases List.mem_cons.mp member with first | behind
    · exact .inr (first ▸ high_hex)
    · rcases List.mem_cons.mp behind with second | later
      · exact .inr (second ▸ low_hex)
      · exact ih symbol later

theorem Spells.digits (spells : Spells text bytes) :
    (text.filter isHex).length = 2 * bytes.length ∧ hexPairs (text.filter isHex) = bytes := by
  induction spells with
  | nil => exact ⟨rfl, rfl⟩
  | dash _ ih => exact ih
  | pair high_hex low_hex _ ih =>
    rw [List.filter_cons_of_pos high_hex, List.filter_cons_of_pos low_hex, hexPairs, ih.2]
    refine ⟨?_, rfl⟩
    rw [List.length_cons, List.length_cons, List.length_cons, ih.1]
    omega

theorem IsTextOf.rest_eq_nil {rest : List Char} {uuid : UUID}
    (text : IsTextOf (front ++ rest) uuid) (spells : Spells front bytes) (stops : Stops rest)
    (full : bytes.length = 16) : rest = [] := by
  have no_digits : (rest.filter isHex).length = 0 := by
    have total := text.digits
    rw [List.filter_append, List.length_append, spells.digits.1, full] at total
    omega
  have first_is_dash : ∀ symbol tail, rest = symbol :: tail → symbol = '-' := by
    rintro symbol tail rfl
    rcases text.symbols symbol (by simp) with dash | hex
    · exact dash
    · rw [List.filter_cons_of_pos hex, List.length_cons] at no_digits
      cases no_digits
  cases stops with
  | nil => rfl
  | other not_dash not_hex => exact absurd (first_is_dash _ _ rfl) not_dash
  | lone hex => exact absurd (first_is_dash _ _ rfl) (ne_dash_of_isHex hex)
  | half high_hex not_hex => exact absurd (first_is_dash _ _ rfl) (ne_dash_of_isHex high_hex)

section Decomposed

variable {front rest : List Char} {bytes : List UInt8} (spells : Spells front bytes)
  (stops : Stops rest)
include spells stops in
theorem parseLoop_eq_none (outside : 16 < bytes.length ∨ LoneDigit rest) :
    parseLoop (front ++ rest) 0 zero = none := by
  by_cases fits : bytes.length ≤ 16
  · obtain ⟨written, -, loop_eq⟩ :=
      parseLoop_of_fits spells rest zero (by omega : 0 + bytes.length ≤ 16)
    rcases parseLoop_of_stops stops (0 + bytes.length) written with ⟨-, read_on⟩ | ⟨not_lone, -⟩
    · rw [loop_eq, read_on]
    · rcases outside with too_many | lone
      · omega
      · exact absurd lone not_lone
  · exact parseLoop_of_too_many spells rest zero (by omega) (by omega)

include spells stops in
theorem parseLoop_eq_some (fits : bytes.length ≤ 16) (not_lone : ¬LoneDigit rest) :
    ∃ written, written.bytes = Memory.copyAt zero.bytes 0 bytes ∧
      parseLoop (front ++ rest) 0 zero = some (bytes.length, written) := by
  obtain ⟨written, bytes_eq, loop_eq⟩ :=
    parseLoop_of_fits spells rest zero (by omega : 0 + bytes.length ≤ 16)
  refine ⟨written, bytes_eq, ?_⟩
  rcases parseLoop_of_stops stops (0 + bytes.length) written with ⟨lone, -⟩ | ⟨-, stopped⟩
  · exact absurd lone not_lone
  · rw [loop_eq, stopped, Nat.zero_add]

variable (even : (front ++ rest).length % 2 = 0)
include spells stops even in
theorem fromString_eq_none (outside : 16 < bytes.length ∨ LoneDigit rest) :
    fromString (front ++ rest) = none := by
  rw [fromString, if_neg (by omega), parseLoop_eq_none spells stops outside]
  rfl

include spells stops even in
theorem fromString_of_few (few : bytes.length < 16) (not_lone : ¬LoneDigit rest) :
    ∃ failure, fromString (front ++ rest) = some (.error failure) := by
  obtain ⟨written, -, loop_eq⟩ := parseLoop_eq_some spells stops (Nat.le_of_lt few) not_lone
  rw [fromString, if_neg (by omega), loop_eq]
  exact ⟨_, if_neg (Nat.ne_of_lt few)⟩

include spells stops even in
theorem fromString_of_full (full : bytes.length = 16) (not_lone : ¬LoneDigit rest) :
    ∃ uuid, uuid.bytes = bytes ∧ fromString (front ++ rest) = some (.ok uuid) := by
  obtain ⟨written, bytes_eq, loop_eq⟩ := parseLoop_eq_some spells stops (Nat.le_of_eq full) not_lone
  refine ⟨written, ?_, ?_⟩
  · rw [bytes_eq, Memory.copyAt, List.take_zero, List.nil_append,
      List.drop_of_length_le (by rw [zero.length_bytes]; omega), List.append_nil]
  · rw [fromString, if_neg (by omega), loop_eq]
    exact if_pos full

end Decomposed

theorem WellTreated.parsesStrictly (even : text.length % 2 = 0) (treated : WellTreated text) :
    ParsesStrictly text := by
  rcases treated with odd | ⟨front, bytes, rest, rfl, spells, stops, few | full⟩
  · omega
  · obtain ⟨failure, refused⟩ := fromString_of_few spells stops even few.1 few.2
    exact ⟨_, refused, fun uuid accepted => by cases accepted⟩
  · have not_lone : ¬LoneDigit rest := by
      rw [full.2]
      exact fun lone => Nat.zero_ne_one lone.length_eq
    obtain ⟨uuid, bytes_eq, accepted⟩ := fromString_of_full spells stops even full.1 not_lone
    refine ⟨_, accepted, fun other other_eq => ?_⟩
    rw [← Except.ok.inj other_eq, full.2, List.append_nil]
    refine ⟨spells.symbols, ?_, ?_⟩
    · rw [spells.digits.1, full.1]
    · rw [spells.digits.2, bytes_eq]

theorem ParsesStrictly.wellTreated (even : text.length % 2 = 0) (strictly : ParsesStrictly text) :
    WellTreated text := by
  obtain ⟨outcome, parsed, strict⟩ := strictly
  obtain ⟨front, bytes, rest, rfl, spells, stops⟩ := exists_spells_stops text
  refine .inr ⟨front, bytes, rest, rfl, spells, stops, ?_⟩
  have inside : ¬(16 < bytes.length ∨ LoneDigit rest) := by
    intro outside
    rw [fromString_eq_none spells stops even outside] at parsed
    cases parsed
  rw [not_or, Nat.not_lt] at inside
  rcases Nat.lt_or_eq_of_le inside.1 with few | full
  · exact .inl ⟨few, inside.2⟩
  · obtain ⟨uuid, -, accepted⟩ := fromString_of_full spells stops even full inside.2
    rw [accepted, Option.some.injEq] at parsed
    exact .inr ⟨full, (strict uuid parsed.symm).rest_eq_nil spells stops full⟩

/-- Parsing is strict and in bounds for the texts that are treated well, and for no others. -/
theorem parsesStrictly_iff (text : List Char) : ParsesStrictly text ↔ WellTreated text := by
  rcases Nat.mod_two_eq_zero_or_one text.length with even | odd
  · exact ⟨ParsesStrictly.wellTreated even, WellTreated.parsesStrictly even⟩
  · refine iff_of_true ⟨_, if_pos (by omega), ?_⟩ (.inl odd)
    intro uuid accepted
    cases accepted

/-- A last digit alone is read past, a seventeenth pair is written past the bytes, and text behind
sixteen pairs is accepted. -/
theorem not_parsesStrictly :
    fromString "-a".toList = none ∧
    fromString (List.replicate 34 'a') = none ∧
    (fromString (List.replicate 32 'a' ++ ['z', 'z']) =
        some (.ok { bytes := List.replicate 16 0xaa, length_bytes := rfl }) ∧
      ¬ParsesStrictly (List.replicate 32 'a' ++ ['z', 'z'])) := by
  have accepted : fromString (List.replicate 32 'a' ++ ['z', 'z']) =
      some (.ok { bytes := List.replicate 16 0xaa, length_bytes := rfl }) := by decide +kernel
  refine ⟨rfl, by decide +kernel, accepted, ?_⟩
  rintro ⟨outcome, parsed, strict⟩
  rw [accepted, Option.some.injEq] at parsed
  rcases (strict _ parsed.symm).symbols 'z' (by simp) with dash | hex
  · cases dash
  · cases hex

end UUID
end Fusion
