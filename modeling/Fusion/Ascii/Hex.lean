import Fusion.Ascii.Characters
import Fusion.Library.Memory

/-!
# Hexadecimal text

The two encoders of byte strings and the decoder.  No object of the program has 2 ^ 63 bytes, so
sizes are natural numbers.
-/

namespace Fusion.Ascii

def hexCharacters : List Char :=
  ['0', '1', '2', '3', '4', '5', '6', '7', '8', '9', 'a', 'b', 'c', 'd', 'e', 'f']

/-- The character for the high half of a byte. -/
def highCharacter (byte : UInt8) : Char := hexCharacters.getD ((byte >>> 4) &&& 0xF).toNat '0'

/-- The character for the low half of a byte. -/
def lowCharacter (byte : UInt8) : Char := hexCharacters.getD (byte &&& 0xF).toNat '0'

/-- The loop of `ToHexString` into a buffer, from the place `i` on; `none` is a read behind the
bytes or a write outside the buffer. -/
def toHexLoop (length : Nat) : List UInt8 → Nat → List Char → Option (List Char × Nat)
  | [], i, buffer => if i + 2 ≤ length then none else some (buffer, i)
  | byte :: bytes, i, buffer =>
    if i + 2 ≤ length then do
      let buffer ← Memory.store buffer i [highCharacter byte]
      let buffer ← Memory.store buffer (i + 1) [lowCharacter byte]
      toHexLoop length bytes (i + 2) buffer
    else some (buffer, i)

/-- `ToHexString` into a buffer: the buffer afterwards and the length of the returned view. -/
def toHexStringInto (bytes : List UInt8) (buffer : List Char) : Option (List Char × Nat) :=
  if bytes.length = 0 ∨ buffer.length = 0 then some (buffer, 0)
  else do
    let length := min (buffer.length - 1) (bytes.length * 2 + 1)
    let (buffer, i) ← toHexLoop length bytes 0 buffer
    let buffer ← Memory.store buffer i [Char.ofNat 0]
    return (buffer, i)

/-- `ToHexString` as a `std::string`. -/
def toHexString (bytes : List UInt8) : List Char :=
  if bytes.length = 0 ∨ bytes.length % 2 ≠ 0 then []
  else bytes.foldl (fun text byte => text ++ [highCharacter byte] ++ [lowCharacter byte]) []

/-- What `FromHexString` writes, each byte with its place, and the length of the span that it
returns. -/
structure Decoded where
  writes : List (Nat × UInt8)
  length : Nat
deriving DecidableEq

/-- The loop of `FromHexString` from the place `i` on. -/
def fromHexLoop : Nat → List Char → List (Nat × UInt8)
  | i, high :: low :: text =>
    (i, toHexByte (toNibble high) (toNibble low)) :: fromHexLoop (i + 1) text
  | _, _ => []

/-- `FromHexString` with a buffer or a null pointer. -/
def fromHexString (text : List Char) (null : Bool) (size : Nat) : Decoded :=
  if null ∨ text.length = 0 ∨ text.length % 2 ≠ 0 ∨ size = 0 then { writes := [], length := 0 }
  else { writes := fromHexLoop 0 text, length := text.length / 2 }

/-- The bytes of the returned span, in a buffer with these bytes before. -/
def Decoded.span (decoded : Decoded) (memory : List UInt8) : List UInt8 :=
  (decoded.writes.foldl (fun memory write => memory.set write.1 write.2) memory).take decoded.length

/-! ## Encoding -/

/-- The lower-case hexadecimal digits of the bytes. -/
def encoded (bytes : List UInt8) : List Char :=
  bytes.flatMap fun byte => [Nat.digitChar (byte.toNat / 16), Nat.digitChar (byte.toNat % 16)]

theorem hexCharacters_getD : ∀ nibble < 16,
    hexCharacters.getD nibble '0' = Nat.digitChar nibble := by
  decide

variable (byte : UInt8)

theorem toNat_and_nibble : (byte &&& 0xF).toNat = byte.toNat % 16 := by
  rw [UInt8.toNat_and]
  exact Nat.and_two_pow_sub_one_eq_mod byte.toNat 4

theorem toNat_shiftRight_nibble : (byte >>> 4).toNat = byte.toNat / 16 := by
  rw [UInt8.toNat_shiftRight]
  exact Nat.shiftRight_eq_div_pow byte.toNat 4

theorem highCharacter_eq : highCharacter byte = Nat.digitChar (byte.toNat / 16) := by
  have small : byte.toNat / 16 < 16 := Nat.div_lt_of_lt_mul byte.toNat_lt
  rw [highCharacter, toNat_and_nibble, toNat_shiftRight_nibble, Nat.mod_eq_of_lt small,
    hexCharacters_getD _ small]

theorem lowCharacter_eq : lowCharacter byte = Nat.digitChar (byte.toNat % 16) := by
  rw [lowCharacter, toNat_and_nibble, hexCharacters_getD _ (Nat.mod_lt _ (by decide))]

@[simp] theorem encoded_nil : encoded [] = [] := rfl

theorem encoded_cons (bytes : List UInt8) :
    encoded (byte :: bytes) = [highCharacter byte] ++ [lowCharacter byte] ++ encoded bytes := by
  rw [highCharacter_eq, lowCharacter_eq]
  rfl

theorem length_encoded (bytes : List UInt8) : (encoded bytes).length = 2 * bytes.length := by
  induction bytes with
  | nil => rfl
  | cons byte bytes ih =>
    rw [encoded_cons, List.length_append, ih, List.length_cons]
    simp only [List.length_append, List.length_singleton]
    omega

variable {buffer : List Char} {i : Nat}

theorem toHexLoop_cons {length : Nat} (room : i + 2 ≤ length) (inside : length ≤ buffer.length)
    (byte : UInt8) (bytes : List UInt8) :
    toHexLoop length (byte :: bytes) i buffer =
        toHexLoop length bytes (i + 2)
          (Memory.copyAt buffer i ([highCharacter byte] ++ [lowCharacter byte])) := by
  have high_fits : i + [highCharacter byte].length ≤ buffer.length := by
    rw [List.length_singleton]
    omega
  have low_fits : i + 1 + [lowCharacter byte].length ≤
      (Memory.copyAt buffer i [highCharacter byte]).length := by
    rw [List.length_singleton, Memory.length_copyAt high_fits]
    omega
  have pair_eq : Memory.copyAt (Memory.copyAt buffer i [highCharacter byte]) (i + 1)
      [lowCharacter byte] =
      Memory.copyAt buffer i ([highCharacter byte] ++ [lowCharacter byte]) :=
    Memory.copyAt_append (by omega)
  rw [toHexLoop, if_pos room, Memory.store_eq_some high_fits]
  change (Memory.store (Memory.copyAt buffer i [highCharacter byte]) (i + 1)
    [lowCharacter byte]).bind _ = _
  rw [Memory.store_eq_some low_fits, Option.bind_some, pair_eq]

/-- The loop encodes as many bytes as there is room for, if there are as many. -/
theorem toHexLoop_eq {length i : Nat} {bytes : List UInt8} {buffer : List Char}
    (enough : (length - i) / 2 ≤ bytes.length) (inside : length ≤ buffer.length) :
    toHexLoop length bytes i buffer =
      some (Memory.copyAt buffer i (encoded (bytes.take ((length - i) / 2))),
        i + 2 * ((length - i) / 2)) := by
  have finished : ∀ {bytes : List UInt8} {buffer : List Char} {i : Nat}, ¬i + 2 ≤ length →
      (Memory.copyAt buffer i (encoded (bytes.take ((length - i) / 2))),
        i + 2 * ((length - i) / 2)) = (buffer, i) := by
    intro bytes buffer i full
    have none_left : (length - i) / 2 = 0 := by omega
    rw [none_left, List.take_zero, encoded_nil, Memory.copyAt_nil, Nat.mul_zero, Nat.add_zero]
  induction bytes generalizing i buffer with
  | nil =>
    have full : ¬i + 2 ≤ length := by
      rw [List.length_nil] at enough
      omega
    rw [toHexLoop, if_neg full, finished full]
  | cons byte bytes ih =>
    by_cases room : i + 2 ≤ length
    · have count_eq : (length - i) / 2 = (length - (i + 2)) / 2 + 1 := by omega
      have pair_fits : i + ([highCharacter byte] ++ [lowCharacter byte]).length ≤
          buffer.length := Nat.le_trans room inside
      have later := @ih (i + 2)
        (Memory.copyAt buffer i ([highCharacter byte] ++ [lowCharacter byte]))
        (by rw [List.length_cons] at enough; omega)
        (by rw [Memory.length_copyAt pair_fits]; exact inside)
      have joined : Memory.copyAt (Memory.copyAt buffer i
            ([highCharacter byte] ++ [lowCharacter byte])) (i + 2)
            (encoded (bytes.take ((length - (i + 2)) / 2))) =
          Memory.copyAt buffer i ([highCharacter byte] ++ [lowCharacter byte] ++
            encoded (bytes.take ((length - (i + 2)) / 2))) :=
        Memory.copyAt_append (by omega)
      have end_eq : i + 2 + 2 * ((length - (i + 2)) / 2) =
          i + 2 * ((length - (i + 2)) / 2 + 1) := by omega
      rw [toHexLoop_cons room inside, later, joined, end_eq, count_eq, List.take_succ_cons,
        encoded_cons]
    · rw [toHexLoop, if_neg room, finished room]

theorem length_encoded_take {bytes : List UInt8} {count : Nat} (inside : count ≤ bytes.length) :
    (encoded (bytes.take count)).length = 2 * count := by
  rw [length_encoded, List.length_take, Nat.min_eq_left inside]

theorem take_copyAt_encoded {buffer : List Char} {bytes : List UInt8} {count : Nat}
    (inside : count ≤ bytes.length) :
    (Memory.copyAt buffer 0 (encoded (bytes.take count) ++ [Char.ofNat 0])).take (2 * count) =
      encoded (bytes.take count) := by
  rw [Memory.copyAt, List.take_zero, List.nil_append, List.append_assoc,
    ← length_encoded_take inside, List.take_left]

variable {bytes : List UInt8}

/-- `ToHexString` fills the buffer with the text of the bytes that fit and a NUL. -/
theorem toHexStringInto_eq (nonempty : bytes ≠ []) (room : 1 ≤ buffer.length) :
    toHexStringInto bytes buffer =
      let count := min bytes.length ((buffer.length - 1) / 2)
      some (Memory.copyAt buffer 0 (encoded (bytes.take count) ++ [Char.ofNat 0]), 2 * count) := by
  have size_pos := List.length_pos_iff.mpr nonempty
  have count_eq : (min (buffer.length - 1) (bytes.length * 2 + 1) - 0) / 2 =
      min bytes.length ((buffer.length - 1) / 2) := by omega
  have looped := @toHexLoop_eq (min (buffer.length - 1) (bytes.length * 2 + 1)) 0 bytes buffer
    (by omega) (by omega)
  rw [count_eq, Nat.zero_add] at looped
  generalize kept_eq : min bytes.length ((buffer.length - 1) / 2) = count at looped
  have text_length := @length_encoded_take bytes count (by omega)
  have text_fits : 0 + (encoded (bytes.take count)).length ≤ buffer.length := by omega
  have nul_fits : 2 * count + [Char.ofNat 0].length ≤
      (Memory.copyAt buffer 0 (encoded (bytes.take count))).length := by
    rw [Memory.length_copyAt text_fits, List.length_singleton]
    omega
  have ended : Memory.copyAt (Memory.copyAt buffer 0 (encoded (bytes.take count))) (2 * count)
      [Char.ofNat 0] =
      Memory.copyAt buffer 0 (encoded (bytes.take count) ++ [Char.ofNat 0]) := by
    rw [← Memory.copyAt_append (Nat.zero_le _), text_length, Nat.zero_add]
  rw [toHexStringInto, if_neg (by omega)]
  change (toHexLoop _ bytes 0 buffer).bind _ = _
  rw [looped, Option.bind_some]
  change (Memory.store _ (2 * count) [Char.ofNat 0]).bind _ = _
  rw [Memory.store_eq_some nul_fits, Option.bind_some, ended]
  rfl

theorem toHexString_of_even (even : bytes.length % 2 = 0) : toHexString bytes = encoded bytes := by
  have appended : ∀ text, bytes.foldl
      (fun text byte => text ++ [highCharacter byte] ++ [lowCharacter byte]) text =
        text ++ encoded bytes := by
    clear even
    induction bytes with
    | nil => simp
    | cons byte bytes ih =>
      intro text
      rw [List.foldl_cons, ih, encoded_cons]
      simp only [List.append_assoc]
  by_cases empty : bytes.length = 0
  · rw [toHexString, if_pos (.inl empty), List.length_eq_zero_iff.mp empty, encoded_nil]
  · rw [toHexString, if_neg (by omega), appended, List.nil_append]

/-! ## Decoding -/

theorem toNibble_digitChar : ∀ nibble < 16,
    toNibble (Nat.digitChar nibble) = UInt8.ofNat nibble := by
  decide

theorem toHexByte_nibbles : ∀ number < 256,
    toHexByte (UInt8.ofNat (number / 16)) (UInt8.ofNat (number % 16)) = UInt8.ofNat number := by
  decide +kernel

theorem toHexByte_characters :
    toHexByte (toNibble (highCharacter byte)) (toNibble (lowCharacter byte)) = byte := by
  have high : byte.toNat / 16 < 16 := Nat.div_lt_of_lt_mul byte.toNat_lt
  have low : byte.toNat % 16 < 16 := Nat.mod_lt _ (by decide)
  rw [highCharacter_eq, lowCharacter_eq, toNibble_digitChar _ high, toNibble_digitChar _ low,
    toHexByte_nibbles _ byte.toNat_lt, UInt8.ofNat_toNat]

theorem fromHexLoop_encoded (i : Nat) (bytes : List UInt8) :
    fromHexLoop i (encoded bytes) = (bytes.zipIdx i).map Prod.swap := by
  induction bytes generalizing i with
  | nil => rfl
  | cons byte bytes ih =>
    rw [encoded_cons]
    change (i, toHexByte (toNibble (highCharacter byte)) (toNibble (lowCharacter byte))) ::
      fromHexLoop (i + 1) (encoded bytes) = _
    rw [toHexByte_characters, ih, List.zipIdx_cons, List.map_cons]
    rfl

theorem foldl_set_zipIdx {memory bytes : List UInt8} {i : Nat}
    (fits : i + bytes.length ≤ memory.length) :
    ((bytes.zipIdx i).map Prod.swap).foldl (fun memory write => memory.set write.1 write.2) memory =
      Memory.copyAt memory i bytes := by
  induction bytes generalizing i memory with
  | nil =>
    rw [Memory.copyAt_nil]
    rfl
  | cons byte bytes ih =>
    rw [List.length_cons] at fits
    have inside : i < memory.length := by omega
    have set_eq : memory.set i byte = Memory.copyAt memory i [byte] :=
      (Memory.copyAt_singleton byte inside).symm
    have rest := @ih (memory.set i byte) (i + 1) (by rw [List.length_set]; omega)
    rw [List.zipIdx_cons, List.map_cons, List.foldl_cons]
    change List.foldl _ (memory.set i byte) _ = _
    rw [rest, set_eq]
    exact Memory.copyAt_append (Nat.le_of_lt inside)

theorem fromHexString_of_encoded {size : Nat} (nonempty : bytes ≠ []) (some_size : 0 < size) :
    fromHexString (encoded bytes) false size =
      { writes := (bytes.zipIdx 0).map Prod.swap, length := bytes.length } := by
  have size_pos := List.length_pos_iff.mpr nonempty
  rw [fromHexString, length_encoded, if_neg, fromHexLoop_encoded]
  · congr 1
    omega
  · simp only [Bool.false_eq_true, false_or]
    omega

variable {write : Nat × UInt8}

theorem fst_lt_of_mem_writes (member : write ∈ (bytes.zipIdx 0).map Prod.swap) :
    write.1 < bytes.length := by
  obtain ⟨pair, pair_mem, rfl⟩ := List.mem_map.mp member
  exact List.snd_lt_of_mem_zipIdx pair_mem

theorem fromHexString_encoded (nonempty : bytes ≠ []) :
    (∀ write ∈ (fromHexString (encoded bytes) false bytes.length).writes, write.1 < bytes.length) ∧
      ∀ memory : List UInt8, memory.length = bytes.length →
        (fromHexString (encoded bytes) false bytes.length).span memory = bytes := by
  rw [fromHexString_of_encoded nonempty (List.length_pos_iff.mpr nonempty)]
  refine ⟨fun write => fst_lt_of_mem_writes, fun memory length_eq => ?_⟩
  rw [Decoded.span, foldl_set_zipIdx (by omega), Memory.copyAt_of_end (by omega), List.take_zero,
    List.nil_append, List.take_length]

/-- `ToHexString` stays inside the buffer and leaves there the text of the first bytes, as many as
fit, and a NUL behind it; with room for all bytes, decoding the text gives them back. -/
theorem toHexStringInto_encodes {bytes : List UInt8} {buffer : List Char} (nonempty : bytes ≠ [])
    (room : 1 ≤ buffer.length) :
    ∃ written count, toHexStringInto bytes buffer = some (written, count) ∧
      written.length = buffer.length ∧ written[count]? = some (Char.ofNat 0) ∧
      written.take count = encoded (bytes.take (min bytes.length ((buffer.length - 1) / 2))) ∧
      (2 * bytes.length + 1 ≤ buffer.length →
        (∀ write ∈ (fromHexString (written.take count) false bytes.length).writes,
          write.1 < bytes.length) ∧
        ∀ memory : List UInt8, memory.length = bytes.length →
          (fromHexString (written.take count) false bytes.length).span memory = bytes) := by
  refine ⟨_, _, toHexStringInto_eq nonempty room, ?_⟩
  generalize count_eq : min bytes.length ((buffer.length - 1) / 2) = count
  have inside : count ≤ bytes.length := by omega
  have text_length := length_encoded_take inside
  have fits : 0 + (encoded (bytes.take count) ++ [Char.ofNat 0]).length ≤ buffer.length := by
    rw [List.length_append, List.length_singleton, text_length]
    omega
  have text_eq := @take_copyAt_encoded buffer bytes count inside
  refine ⟨Memory.length_copyAt fits, ?_, text_eq, ?_⟩
  · rw [Memory.getElem?_copyAt (Nat.zero_le _), if_pos, Nat.sub_zero, ← text_length,
      List.getElem?_append_right (Nat.le_refl _), Nat.sub_self]
    · rfl
    · rw [List.length_append, List.length_singleton, text_length]
      omega
  · intro all
    have count_all : count = bytes.length := by omega
    rw [text_eq, count_all, List.take_length]
    exact fromHexString_encoded nonempty

/-- Six places hold the text of two bytes out of three, and a NUL. -/
theorem toHexStringInto_encodes_truncated :
    ∃ written count, toHexStringInto [0xAB, 0x01, 0xF0] (List.replicate 6 ' ') =
        some (written, count) ∧
      written.length = 6 ∧ written[count]? = some (Char.ofNat 0) ∧
      written.take count = encoded [0xAB, 0x01] := by
  obtain ⟨written, count, written_eq, length_eq, ended, text_eq, -⟩ :=
    @toHexStringInto_encodes [0xAB, 0x01, 0xF0] (List.replicate 6 ' ') (by decide) (by decide)
  exact ⟨written, count, written_eq, length_eq, ended, text_eq⟩

/-- The encoders agree exactly on byte strings of even length. -/
theorem toHexString_agrees_iff {bytes : List UInt8} {buffer : List Char} (nonempty : bytes ≠ [])
    (room : 2 * bytes.length + 1 ≤ buffer.length) :
    (∃ written count, toHexStringInto bytes buffer = some (written, count) ∧
        toHexString bytes = written.take count) ↔ bytes.length % 2 = 0 := by
  have size_pos := List.length_pos_iff.mpr nonempty
  have count_eq : min bytes.length ((buffer.length - 1) / 2) = bytes.length := by omega
  have into_eq := toHexStringInto_eq nonempty (show 1 ≤ buffer.length by omega)
  have text_eq := @take_copyAt_encoded buffer bytes bytes.length (Nat.le_refl _)
  simp only [count_eq, List.take_length] at into_eq text_eq
  constructor
  · rintro ⟨written, count, written_eq, agree⟩
    by_contra odd
    rw [into_eq] at written_eq
    cases written_eq
    rw [text_eq, toHexString, if_pos (.inr odd)] at agree
    have length_eq := congrArg List.length agree
    rw [length_encoded, List.length_nil] at length_eq
    omega
  · intro even
    refine ⟨_, _, into_eq, ?_⟩
    rw [text_eq, toHexString_of_even even]

theorem toHexString_agrees_pair :
    ∃ written count, toHexStringInto [0x12, 0xAB] (List.replicate 5 ' ') = some (written, count) ∧
      toHexString [0x12, 0xAB] = written.take count :=
  (toHexString_agrees_iff (by decide) (by decide)).mpr rfl

/-- The text of a single byte is empty as a `std::string`. -/
theorem toHexString_byte_empty :
    toHexString [0xAB] = [] ∧
      toHexStringInto [0xAB] (List.replicate 3 ' ') = some (['a', 'b', Char.ofNat 0], 2) := by
  decide

theorem fst_lt_of_mem_fromHexLoop {text : List Char} (member : write ∈ fromHexLoop i text) :
    write.1 < i + text.length / 2 := by
  fun_induction fromHexLoop i text with
  | case1 i high low text ih =>
    rw [List.length_cons, List.length_cons]
    cases List.mem_cons.mp member with
    | inl here =>
      rw [here]
      dsimp only
      omega
    | inr later =>
      have below := ih later
      omega
  | case2 => cases member

/-- `FromHexString` writes inside the declared size, and decodes only text of hexadecimal digits for
no more bytes than that, exactly if it refuses the call or the text is such. -/
theorem fromHexString_strict_iff (text : List Char) (null : Bool) (size : Nat) :
    ((∀ write ∈ (fromHexString text null size).writes, write.1 < size) ∧
        ((fromHexString text null size).length ≠ 0 →
          text.length % 2 = 0 ∧ (∀ symbol ∈ text, isHex symbol = true) ∧ text.length / 2 ≤ size)) ↔
      null = true ∨ size = 0 ∨ text = [] ∨ text.length % 2 ≠ 0 ∨
        text.length / 2 ≤ size ∧ ∀ symbol ∈ text, isHex symbol = true := by
  by_cases refused : null = true ∨ text.length = 0 ∨ text.length % 2 ≠ 0 ∨ size = 0
  · rw [fromHexString, if_pos refused]
    refine iff_of_true ⟨by simp, fun longer => absurd rfl longer⟩ ?_
    rcases refused with isNull | empty | odd | none
    · exact .inl isNull
    · exact .inr (.inr (.inl (List.length_eq_zero_iff.mp empty)))
    · exact .inr (.inr (.inr (.inl odd)))
    · exact .inr (.inl none)
  · rw [fromHexString, if_neg refused]
    rw [not_or, not_or, not_or, not_not] at refused
    obtain ⟨pointer, nonempty, even, some_size⟩ := refused
    constructor
    · rintro ⟨-, strict⟩
      obtain ⟨-, digits, fits⟩ := strict (show text.length / 2 ≠ 0 by omega)
      exact .inr (.inr (.inr (.inr ⟨fits, digits⟩)))
    · rintro (isNull | none | rfl | odd | ⟨fits, digits⟩)
      · exact absurd isNull pointer
      · exact absurd none some_size
      · exact absurd rfl nonempty
      · exact absurd even odd
      · refine ⟨fun write member => ?_, fun _ => ⟨even, digits, fits⟩⟩
        have below := fst_lt_of_mem_fromHexLoop member
        omega

/-- Four bytes are written where there is room for two, and other characters count as zero. -/
theorem fromHexString_unchecked :
    fromHexString "aabbccdd".toList false 2 =
        { writes := [(0, 0xAA), (1, 0xBB), (2, 0xCC), (3, 0xDD)], length := 4 } ∧
      fromHexString "zz".toList false 1 = { writes := [(0, 0)], length := 1 } ∧
      isHex 'z' = false := by
  decide

end Fusion.Ascii
