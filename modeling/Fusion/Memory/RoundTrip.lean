import Fusion.Memory.MemoryReader
import Fusion.Memory.MemoryWriter

/-!
# Reading back what was written

Words of three widths in either byte order and strings of bytes are put one after the other with
the sequential calls of `MemoryWriter` and read back with those of `MemoryReader`.  Both sides are
compared through the bytes of the buffer: a put appends the encoding of its item behind everything
put before, and a read that finds the encoding of an item returns the item.
-/

namespace Fusion.Memory

open Buffers MemoryWriter

/-! ## A word is its bytes -/

theorem word16_bytes (value : UInt16) : word16 (value >>> 8).toUInt8 value.toUInt8 = value := by
  have value_lt := value.toNat_lt
  apply UInt16.toNat_inj.mp
  simp only [word16, UInt16.toUInt16_toUInt8, UInt16.toNat_add, UInt16.toNat_shiftLeft,
    UInt16.toNat_mod, UInt16.toNat_shiftRight, UInt16.reduceToNat, Nat.reduceMod,
    Nat.shiftRight_eq_div_pow, Nat.reducePow, Nat.shiftLeft_eq, Nat.mod_add_mod]
  omega

theorem word32_bytes (value : UInt32) :
    word32 (value >>> 24).toUInt8 (value >>> 16).toUInt8 (value >>> 8).toUInt8 value.toUInt8 =
      value := by
  have value_lt := value.toNat_lt
  apply UInt32.toNat_inj.mp
  simp only [word32, UInt32.toUInt32_toUInt8, UInt32.toNat_add, UInt32.toNat_shiftLeft,
    UInt32.toNat_mod, UInt32.toNat_shiftRight, UInt32.reduceToNat, Nat.reduceMod,
    Nat.shiftRight_eq_div_pow, Nat.reducePow, Nat.shiftLeft_eq, Nat.add_mod_mod,
    Nat.mod_add_mod]
  omega

theorem word64_bytes (value : UInt64) :
    word64 (value >>> 56).toUInt8 (value >>> 48).toUInt8 (value >>> 40).toUInt8
      (value >>> 32).toUInt8 (value >>> 24).toUInt8 (value >>> 16).toUInt8
      (value >>> 8).toUInt8 value.toUInt8 = value := by
  have value_lt := value.toNat_lt
  apply UInt64.toNat_inj.mp
  simp only [word64, UInt64.toUInt64_toUInt8, UInt64.toNat_add, UInt64.toNat_shiftLeft,
    UInt64.toNat_mod, UInt64.toNat_shiftRight, UInt64.reduceToNat, Nat.reduceMod,
    Nat.shiftRight_eq_div_pow, Nat.reducePow, Nat.shiftLeft_eq, Nat.add_mod_mod,
    Nat.mod_add_mod]
  omega

/-! ## Items and the calls for them -/

/-- What can be put and read back. -/
inductive Item
  | word16BE (value : UInt16)
  | word16LE (value : UInt16)
  | word32BE (value : UInt32)
  | word32LE (value : UInt32)
  | word64BE (value : UInt64)
  | word64LE (value : UInt64)
  | bytes (contents : List UInt8)
deriving Repr, DecidableEq

/-- The sequential put of an item. -/
def Item.put (writer : MemoryWriter) : Item → Writing
  | .word16BE value => writer.put16BE value
  | .word16LE value => writer.put16LE value
  | .word32BE value => writer.put32BE value
  | .word32LE value => writer.put32LE value
  | .word64BE value => writer.put64BE value
  | .word64LE value => writer.put64LE value
  | .bytes contents =>
    writer.put (fun place => contents.getD place 0) (UInt64.ofNat contents.length)

/-- A reading seen through a function of its value. -/
def Reading.map {α β : Type} (f : α → β) (reading : Reading α) : Reading β :=
  { reading with value := f reading.value }

/-- The sequential read for an item of this kind and, for bytes, of this length. -/
def Item.read (reader : MemoryReader) : Item → Reading Item
  | .word16BE _ => reader.read16BE.map .word16BE
  | .word16LE _ => reader.read16LE.map .word16LE
  | .word32BE _ => reader.read32BE.map .word32BE
  | .word32LE _ => reader.read32LE.map .word32LE
  | .word64BE _ => reader.read64BE.map .word64BE
  | .word64LE _ => reader.read64LE.map .word64LE
  | .bytes contents => (reader.readSpan (UInt64.ofNat contents.length)).map .bytes

/-- The bytes of an item in the buffer. -/
def Item.encode : Item → List UInt8
  | .word16BE value => bytes16BE value
  | .word16LE value => bytes16LE value
  | .word32BE value => bytes32BE value
  | .word32LE value => bytes32LE value
  | .word64BE value => bytes64BE value
  | .word64LE value => bytes64LE value
  | .bytes contents => contents

/-- The bytes of the items one after the other. -/
def encodeAll (items : List Item) : List UInt8 := items.flatMap Item.encode

/-- Put the items in order; the flag tells whether every assertion held. -/
def putAll : List Item → MemoryWriter → MemoryWriter × Bool
  | [], writer => (writer, true)
  | item :: items, writer =>
    let written := item.put writer
    let rest := putAll items written.writer
    (rest.1, written.asserted && rest.2)

/-- Read items of these kinds in order; the flag tells whether every assertion held. -/
def readAll : List Item → MemoryReader → Reading (List Item)
  | [], reader => ⟨[], reader, ⟨reader.offset, 0⟩, true⟩
  | item :: items, reader =>
    let first := item.read reader
    let rest := readAll items first.reader
    { value := first.value :: rest.value
      reader := rest.reader
      accessed := ⟨reader.offset, first.accessed.count + rest.accessed.count⟩
      asserted := first.asserted && rest.asserted }

/-! ## Putting -/

/-- Between two states of a writer, `bytes` were put behind everything that was there. -/
structure Appended (before after : MemoryWriter) (bytes : List UInt8) : Prop where
  size : after.data.size = before.data.size
  offset : after.offset = before.offset + UInt64.ofNat bytes.length
  contents : after.data.bytes before.offset bytes.length = bytes
  kept : ∀ earlier count, earlier.toNat + count ≤ before.offset.toNat →
    after.data.bytes earlier count = before.data.bytes earlier count

theorem Appended.refl (writer : MemoryWriter) : Appended writer writer [] :=
  ⟨rfl, (UInt64.add_zero _).symm, rfl, fun _ _ _ => rfl⟩

theorem Appended.trans {first second third : MemoryWriter} {left right : List UInt8}
    (fits : first.offset.toNat + left.length < 2 ^ 64)
    (earlier : Appended first second left) (later : Appended second third right) :
    Appended first third (left ++ right) := by
  have offset_eq : second.offset.toNat = first.offset.toNat + left.length := by
    rw [earlier.offset, toNat_add_ofNat fits]
  constructor
  · rw [later.size, earlier.size]
  · rw [later.offset, earlier.offset, List.length_append, UInt64.ofNat_add, UInt64.add_assoc]
  · rw [List.length_append, Buffer.bytes_add, ← earlier.offset, later.contents,
      later.kept first.offset left.length (by omega), earlier.contents]
  · intro offset count below
    rw [later.kept offset count (by omega), earlier.kept offset count below]

theorem Item.put_eq (writer : MemoryWriter) (item : Item) :
    item.put writer = putValues item.encode writer.offset writer := by
  cases item <;> rfl

/-- An item that fits is appended, and the assertion of `Seek` holds. -/
theorem Item.appended_put {writer : MemoryWriter} {item : Item}
    (fits : writer.offset.toNat + item.encode.length ≤ writer.data.size.toNat) :
    Appended writer (item.put writer).writer item.encode ∧ (item.put writer).asserted = true := by
  have size_lt := writer.data.size.toNat_lt
  have length_eq : (UInt64.ofNat item.encode.length).toNat = item.encode.length :=
    UInt64.toNat_ofNat_of_lt' (Nat.lt_of_le_of_lt (Nat.le_add_left _ _)
      (Nat.lt_of_le_of_lt fits size_lt))
  have passes : writer.offset + UInt64.ofNat item.encode.length ≤ writer.data.size := by
    rw [UInt64.le_iff_toNat_le, toNat_add_ofNat (by omega)]
    exact fits
  have below : writer.offset ≤ writer.data.size := by
    rw [UInt64.le_iff_toNat_le]
    omega
  rw [Item.put_eq, putValues, putOffset, if_pos passes, length_eq]
  refine ⟨⟨rfl, rfl, Buffer.bytes_copy (by omega), ?_⟩, decide_eq_true below⟩
  intro earlier count before
  exact @Buffer.bytes_copy_of_before writer.data writer.offset earlier
    (fun place => item.encode.getD place 0) item.encode.length count before (by omega)

theorem appended_putAll {items : List Item} {writer : MemoryWriter}
    (fits : writer.offset.toNat + (encodeAll items).length ≤ writer.data.size.toNat) :
    Appended writer (putAll items writer).1 (encodeAll items) ∧ (putAll items writer).2 = true := by
  induction items generalizing writer with
  | nil => exact ⟨Appended.refl writer, rfl⟩
  | cons item items ih =>
    have size_lt := writer.data.size.toNat_lt
    have split : encodeAll (item :: items) = item.encode ++ encodeAll items := rfl
    rw [split, List.length_append] at fits
    obtain ⟨first, first_asserted⟩ := @Item.appended_put writer item (by omega)
    have offset_eq : (item.put writer).writer.offset.toNat =
        writer.offset.toNat + item.encode.length := by
      rw [first.offset, toNat_add_ofNat (by omega)]
    obtain ⟨rest, rest_asserted⟩ := @ih (item.put writer).writer (by
      rw [offset_eq, first.size]
      omega)
    rw [split]
    refine ⟨first.trans (by omega) rest, ?_⟩
    rw [putAll, first_asserted, rest_asserted]
    rfl

/-! ## Reading -/

/-- The item that a read for it makes of the bytes it finds. -/
def Item.decode (byte : Nat → UInt8) : Item → Item
  | .word16BE _ => .word16BE (big16 byte)
  | .word16LE _ => .word16LE (little16 byte)
  | .word32BE _ => .word32BE (big32 byte)
  | .word32LE _ => .word32LE (little32 byte)
  | .word64BE _ => .word64BE (big64 byte)
  | .word64LE _ => .word64LE (little64 byte)
  | .bytes contents => .bytes ((List.range contents.length).map byte)

/-- The encoding of an item decodes to it. -/
theorem Item.decode_encode {byte : Nat → UInt8} {item : Item}
    (agree : ∀ place < item.encode.length, byte place = item.encode.getD place 0) :
    item.decode byte = item := by
  cases item with
  | word16BE value =>
    rw [Item.decode, big16, agree 0 (by decide : 0 < 2), agree 1 (by decide : 1 < 2)]
    exact congrArg Item.word16BE (word16_bytes value)
  | word16LE value =>
    rw [Item.decode, little16, agree 0 (by decide : 0 < 2), agree 1 (by decide : 1 < 2)]
    exact congrArg Item.word16LE (word16_bytes value)
  | word32BE value =>
    rw [Item.decode, big32, agree 0 (by decide : 0 < 4), agree 1 (by decide : 1 < 4),
      agree 2 (by decide : 2 < 4), agree 3 (by decide : 3 < 4)]
    exact congrArg Item.word32BE (word32_bytes value)
  | word32LE value =>
    rw [Item.decode, little32, agree 0 (by decide : 0 < 4), agree 1 (by decide : 1 < 4),
      agree 2 (by decide : 2 < 4), agree 3 (by decide : 3 < 4)]
    exact congrArg Item.word32LE (word32_bytes value)
  | word64BE value =>
    rw [Item.decode, big64, agree 0 (by decide : 0 < 8), agree 1 (by decide : 1 < 8),
      agree 2 (by decide : 2 < 8), agree 3 (by decide : 3 < 8), agree 4 (by decide : 4 < 8),
      agree 5 (by decide : 5 < 8), agree 6 (by decide : 6 < 8), agree 7 (by decide : 7 < 8)]
    exact congrArg Item.word64BE (word64_bytes value)
  | word64LE value =>
    rw [Item.decode, little64, agree 0 (by decide : 0 < 8), agree 1 (by decide : 1 < 8),
      agree 2 (by decide : 2 < 8), agree 3 (by decide : 3 < 8), agree 4 (by decide : 4 < 8),
      agree 5 (by decide : 5 < 8), agree 6 (by decide : 6 < 8), agree 7 (by decide : 7 < 8)]
    exact congrArg Item.word64LE (word64_bytes value)
  | bytes contents =>
    apply congrArg Item.bytes
    apply List.ext_getElem
    · simp
    · intro place _ place_lt
      simp only [List.getElem_map, List.getElem_range]
      rw [agree place place_lt]
      simp [Item.encode, place_lt]

theorem Item.read_of_fits {reader : MemoryReader} {item : Item} (nonempty : item ≠ .bytes [])
    (fits : reader.offset.toNat + item.encode.length ≤ reader.data.size.toNat) :
    item.read reader =
      ⟨item.decode (reader.data.byteFrom reader.offset),
        { reader with offset := reader.offset + UInt64.ofNat item.encode.length },
        ⟨reader.offset, item.encode.length⟩, true⟩ := by
  cases item with
  | word16BE value => exact congrArg (Reading.map _) (readChecked_of_fits 0 big16 true fits)
  | word16LE value => exact congrArg (Reading.map _) (readChecked_of_fits 0 little16 true fits)
  | word32BE value => exact congrArg (Reading.map _) (readChecked_of_fits 0 big32 true fits)
  | word32LE value => exact congrArg (Reading.map _) (readChecked_of_fits 0 little32 true fits)
  | word64BE value => exact congrArg (Reading.map _) (readChecked_of_fits 0 big64 true fits)
  | word64LE value => exact congrArg (Reading.map _) (readChecked_of_fits 0 little64 true fits)
  | bytes contents =>
    have size_lt := reader.data.size.toNat_lt
    have length_eq : (UInt64.ofNat contents.length).toNat = contents.length :=
      UInt64.toNat_ofNat_of_lt' (Nat.lt_of_le_of_lt (Nat.le_add_left _ _)
        (Nat.lt_of_le_of_lt fits size_lt))
    have positive : 0 < contents.length := by
      apply List.length_pos_iff.mpr
      rintro rfl
      exact nonempty rfl
    have started : decide (reader.offset < reader.data.size) = true := by
      rw [decide_eq_true_iff, UInt64.lt_iff_toNat_lt]
      have fits_length : reader.offset.toNat + contents.length ≤ reader.data.size.toNat := fits
      omega
    rw [Item.read, MemoryReader.readSpan, MemoryReader.readSpanOffset, readAt, started,
      readChecked_of_fits [] _ true (by rw [length_eq]; exact fits), length_eq]
    rfl

/-- Reading items whose encodings lie one after the other from the offset on returns them. -/
theorem readAll_of_bytes {items : List Item} {reader : MemoryReader}
    (nonempty : ∀ item ∈ items, item ≠ .bytes [])
    (fits : reader.offset.toNat + (encodeAll items).length ≤ reader.data.size.toNat)
    (contents : reader.data.bytes reader.offset (encodeAll items).length = encodeAll items) :
    (readAll items reader).value = items ∧
      (readAll items reader).reader.offset = reader.offset + UInt64.ofNat (encodeAll items).length ∧
      (readAll items reader).asserted = true := by
  induction items generalizing reader with
  | nil => exact ⟨rfl, (UInt64.add_zero _).symm, rfl⟩
  | cons item items ih =>
    have size_lt := reader.data.size.toNat_lt
    have split : encodeAll (item :: items) = item.encode ++ encodeAll items := rfl
    rw [split, List.length_append] at fits
    rw [split, List.length_append, Buffer.bytes_add] at contents
    obtain ⟨here, later⟩ := List.append_inj contents (by simp [Buffer.bytes])
    have agree : ∀ place < item.encode.length,
        reader.data.byteFrom reader.offset place = item.encode.getD place 0 := by
      intro place place_lt
      rw [← here]
      simp [Buffer.bytes, place_lt]
    have read_eq := @Item.read_of_fits reader item (nonempty item (List.mem_cons_self ..))
      (by omega)
    rw [Item.decode_encode agree] at read_eq
    obtain ⟨value_eq, offset_eq, asserted_eq⟩ := @ih
      { reader with offset := reader.offset + UInt64.ofNat item.encode.length }
      (fun item item_mem => nonempty item (List.mem_cons_of_mem _ item_mem))
      (by
        change (reader.offset + UInt64.ofNat item.encode.length).toNat +
          (encodeAll items).length ≤ reader.data.size.toNat
        rw [toNat_add_ofNat (by omega)]
        omega)
      later
    rw [readAll, read_eq, split]
    refine ⟨congrArg (item :: ·) value_eq, ?_, asserted_eq⟩
    rw [offset_eq, List.length_append, UInt64.ofNat_add, UInt64.add_assoc]

/-! ## The round trip -/

theorem encodeAll_append (front back : List Item) :
    encodeAll (front ++ back) = encodeAll front ++ encodeAll back :=
  List.flatMap_append

/-- Items that fit a buffer are read back as they were put, the two offsets agree after each item,
and no assertion fails on either side. -/
theorem readAll_putAll (data : Buffer) (items : List Item)
    (nonempty : ∀ item ∈ items, item ≠ .bytes [])
    (fits : (encodeAll items).length ≤ data.size.toNat) :
    let written := putAll items (ofBuffer data)
    let reading := readAll items (MemoryReader.ofBuffer written.1.data)
    reading.value = items ∧ written.2 = true ∧ reading.asserted = true ∧
      ∀ front back, items = front ++ back →
        (readAll front (MemoryReader.ofBuffer written.1.data)).reader.offset =
          (putAll front (ofBuffer data)).1.offset := by
  intro written reading
  have fits_all : (ofBuffer data).offset.toNat + (encodeAll items).length ≤
      (ofBuffer data).data.size.toNat := by
    rw [show (ofBuffer data).offset.toNat = 0 from rfl, Nat.zero_add]
    exact fits
  obtain ⟨appended, written_asserted⟩ := appended_putAll fits_all
  have size_eq : written.1.data.size = data.size := appended.size
  have front_read (front back : List Item) (split : items = front ++ back) :
      (readAll front (MemoryReader.ofBuffer written.1.data)).value = front ∧
        (readAll front (MemoryReader.ofBuffer written.1.data)).reader.offset =
          0 + UInt64.ofNat (encodeAll front).length ∧
        (readAll front (MemoryReader.ofBuffer written.1.data)).asserted = true := by
    have contents : written.1.data.bytes 0 (encodeAll items).length = encodeAll items :=
      appended.contents
    rw [split, encodeAll_append, List.length_append] at fits
    rw [split, encodeAll_append, List.length_append, Buffer.bytes_add] at contents
    apply readAll_of_bytes
    · intro item item_mem
      exact nonempty item (split ▸ List.mem_append_left back item_mem)
    · change 0 + (encodeAll front).length ≤ written.1.data.size.toNat
      rw [size_eq]
      omega
    · exact (List.append_inj contents (by simp [Buffer.bytes])).1
  obtain ⟨value_eq, _, asserted_eq⟩ := front_read items [] (List.append_nil items).symm
  refine ⟨value_eq, written_asserted, asserted_eq, ?_⟩
  intro front back split
  have fits_front : (ofBuffer data).offset.toNat + (encodeAll front).length ≤
      (ofBuffer data).data.size.toNat := by
    rw [split, encodeAll_append, List.length_append] at fits_all
    omega
  rw [(front_read front back split).2.1, (appended_putAll fits_front).1.offset]
  rfl

/-- A word of each width and a string fill a buffer of 17 bytes and are read back. -/
theorem readAll_putAll_seventeen :
    ∃ data : Buffer, data.size = 17 ∧
      (readAll [.word16LE 0x1234, .word32BE 7, .bytes [1, 0, 2], .word64LE 9]
        (MemoryReader.ofBuffer
          (putAll [.word16LE 0x1234, .word32BE 7, .bytes [1, 0, 2], .word64LE 9]
            (ofBuffer data)).1.data)).value =
        [.word16LE 0x1234, .word32BE 7, .bytes [1, 0, 2], .word64LE 9] :=
  ⟨⟨4096, fun _ => 0, 17, by decide⟩, rfl,
    (readAll_putAll ⟨4096, fun _ => 0, 17, by decide⟩
      [.word16LE 0x1234, .word32BE 7, .bytes [1, 0, 2], .word64LE 9]
      (by decide) (by decide)).1⟩

end Fusion.Memory
