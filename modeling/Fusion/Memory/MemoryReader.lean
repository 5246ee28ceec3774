import Fusion.Library.Buffers
import Fusion.Library.Runs

/-!
# Reading a memory buffer

`MemoryReader` walks a buffer of bytes.  Each overload has its own bounds check, made on a sum of
machine words, and the overloads that take an offset go through `Seek`, whose assertion is empty in
a release build.  A call is modelled together with the bytes that it touches.
-/

namespace Fusion.Memory

open Buffers

/-- The fields of `MemoryReader`: the buffer (`m_data` and `m_size`) and `m_offset`. -/
structure MemoryReader where
  data : Buffer
  offset : UInt64

/-- A reader over a buffer starts at its first byte. -/
def MemoryReader.ofBuffer (data : Buffer) : MemoryReader := ⟨data, 0⟩

/-- What a call returns, what it leaves, which bytes it read or handed out, and whether the
assertion on its way held. -/
structure Reading (α : Type) where
  value : α
  reader : MemoryReader
  accessed : Range
  asserted : Bool

/-- The call touches nothing and returns the empty value of its type. -/
def refused {α : Type} (empty : α) (reader : MemoryReader) : Reading α :=
  ⟨empty, reader, ⟨reader.offset, 0⟩, true⟩

/-- The bytes `width` from `offset` on are put together, and the reader moves behind them, when
`offset + checked` is at most the size. -/
def readChecked {α : Type} (checked width : UInt64) (empty : α) (compose : (Nat → UInt8) → α)
    (asserted : Bool) (offset : UInt64) (reader : MemoryReader) : Reading α :=
  if offset + checked ≤ reader.data.size then
    { value := compose (reader.data.byteFrom offset)
      reader := { reader with offset := offset + width }
      accessed := ⟨offset, width.toNat⟩
      asserted := asserted }
  else refused empty reader

/-- The overloads without an offset read at `m_offset`. -/
def readNext {α : Type} (checked width : UInt64) (empty : α) (compose : (Nat → UInt8) → α)
    (reader : MemoryReader) : Reading α :=
  readChecked checked width empty compose true reader.offset reader

/-- The overloads with an offset go through `Seek`, which asserts `offset < m_size`. -/
def readAt {α : Type} (checked width : UInt64) (empty : α) (compose : (Nat → UInt8) → α)
    (offset : UInt64) (reader : MemoryReader) : Reading α :=
  readChecked checked width empty compose (decide (offset < reader.data.size)) offset reader

variable {reader : MemoryReader} {offset width : UInt64} {α : Type}

theorem readChecked_of_fits (empty : α) (compose : (Nat → UInt8) → α) (asserted : Bool)
    (fits : offset.toNat + width.toNat ≤ reader.data.size.toNat) :
    readChecked width width empty compose asserted offset reader =
      ⟨compose (reader.data.byteFrom offset), { reader with offset := offset + width },
        ⟨offset, width.toNat⟩, asserted⟩ := by
  have size_lt := reader.data.size.toNat_lt
  have passes : offset + width ≤ reader.data.size := by
    rw [UInt64.le_iff_toNat_le, UInt64.toNat_add, Nat.mod_eq_of_lt (by omega)]
    exact fits
  rw [readChecked, if_pos passes]

/-! ## Words put together from bytes, most significant first -/

/-- Two bytes shifted into a 16-bit word. -/
def word16 (first second : UInt8) : UInt16 := (first.toUInt16 <<< 8) + second.toUInt16

/-- Four bytes shifted into a 32-bit word. -/
def word32 (first second third fourth : UInt8) : UInt32 :=
  (first.toUInt32 <<< 24) + (second.toUInt32 <<< 16) + (third.toUInt32 <<< 8) + fourth.toUInt32

/-- Eight bytes shifted into a 64-bit word. -/
def word64 (first second third fourth fifth sixth seventh eighth : UInt8) : UInt64 :=
  (first.toUInt64 <<< 56) + (second.toUInt64 <<< 48) + (third.toUInt64 <<< 40) +
    (fourth.toUInt64 <<< 32) + (fifth.toUInt64 <<< 24) + (sixth.toUInt64 <<< 16) +
    (seventh.toUInt64 <<< 8) + eighth.toUInt64

def big16 (byte : Nat → UInt8) : UInt16 := word16 (byte 0) (byte 1)

def little16 (byte : Nat → UInt8) : UInt16 := word16 (byte 1) (byte 0)

def big32 (byte : Nat → UInt8) : UInt32 := word32 (byte 0) (byte 1) (byte 2) (byte 3)

def little32 (byte : Nat → UInt8) : UInt32 := word32 (byte 3) (byte 2) (byte 1) (byte 0)

def big64 (byte : Nat → UInt8) : UInt64 :=
  word64 (byte 0) (byte 1) (byte 2) (byte 3) (byte 4) (byte 5) (byte 6) (byte 7)

def little64 (byte : Nat → UInt8) : UInt64 :=
  word64 (byte 7) (byte 6) (byte 5) (byte 4) (byte 3) (byte 2) (byte 1) (byte 0)

namespace MemoryReader

/-! ## The fixed-width reads -/

/-- `Read()`: the check is `m_offset <= m_size`. -/
def read : MemoryReader → Reading UInt8 := readNext 0 1 0 fun byte => byte 0

/-- `Read(offset)`: the check is `offset <= m_size`. -/
def readOffset : UInt64 → MemoryReader → Reading UInt8 := readAt 0 1 0 fun byte => byte 0

def read16BE : MemoryReader → Reading UInt16 := readNext 2 2 0 big16

def read16BEOffset : UInt64 → MemoryReader → Reading UInt16 := readAt 2 2 0 big16

def read16LE : MemoryReader → Reading UInt16 := readNext 2 2 0 little16

def read16LEOffset : UInt64 → MemoryReader → Reading UInt16 := readAt 2 2 0 little16

def read32BE : MemoryReader → Reading UInt32 := readNext 4 4 0 big32

def read32BEOffset : UInt64 → MemoryReader → Reading UInt32 := readAt 4 4 0 big32

def read32LE : MemoryReader → Reading UInt32 := readNext 4 4 0 little32

def read32LEOffset : UInt64 → MemoryReader → Reading UInt32 := readAt 4 4 0 little32

def read64BE : MemoryReader → Reading UInt64 := readNext 8 8 0 big64

/-- `Read64_BE(offset)`: the check is made with four bytes and eight are read. -/
def read64BEOffset : UInt64 → MemoryReader → Reading UInt64 := readAt 4 8 0 big64

def read64LE : MemoryReader → Reading UInt64 := readNext 8 8 0 little64

/-- `Read64_LE(offset)`: the check is made with four bytes and eight are read. -/
def read64LEOffset : UInt64 → MemoryReader → Reading UInt64 := readAt 4 8 0 little64

/-! ## Spans and strings -/

/-- `ReadSpan(offset, length)`: the bytes of the span count as touched. -/
def readSpanOffset (offset length : UInt64) : MemoryReader → Reading (List UInt8) :=
  readAt length length [] (fun byte => (List.range length.toNat).map byte) offset

def readSpan (length : UInt64) (reader : MemoryReader) : Reading (List UInt8) :=
  readSpanOffset reader.offset length reader

/-- `StringUtil::Length(s, len)` over the bytes from `s` on: how many precede the first NUL. -/
def stringLength : (Nat → UInt8) → Nat → Nat
  | _, 0 => 0
  | byte, count + 1 =>
    if byte 0 = 0 then 0 else stringLength (fun place => byte (place + 1)) count + 1

/-- The bytes that `StringUtil::Length(s, len)` may look at: its loop runs while `start < end`, and
as addresses `end` lies below `start` when `s + len` wraps. -/
def scanned (data : Buffer) (offset length : UInt64) : Nat :=
  if data.address + offset < data.address + offset + length then length.toNat else 0

/-- `ReadString(offset, length)`: the string ends at the first NUL, the reader moves by `length`. -/
def readStringOffset (offset length : UInt64) (reader : MemoryReader) : Reading (List UInt8) :=
  if offset + length ≤ reader.data.size then
    let byte := reader.data.byteFrom offset
    let limit := scanned reader.data offset length
    let found := stringLength byte limit
    { value := (List.range found).map byte
      reader := { reader with offset := offset + length }
      accessed := ⟨offset, min (found + 1) limit⟩
      asserted := decide (offset < reader.data.size) }
  else refused [] reader

def readString (length : UInt64) (reader : MemoryReader) : Reading (List UInt8) :=
  readStringOffset reader.offset length reader

/-! ## Sequences of calls -/

/-- A reading call; a position is the offset of the overload that takes one. -/
inductive Call
  | read (position : Option UInt64)
  | read16BE (position : Option UInt64)
  | read16LE (position : Option UInt64)
  | read32BE (position : Option UInt64)
  | read32LE (position : Option UInt64)
  | read64BE (position : Option UInt64)
  | read64LE (position : Option UInt64)
  | readSpan (position : Option UInt64) (length : UInt64)
  | readString (position : Option UInt64) (length : UInt64)
deriving Repr, DecidableEq

end MemoryReader

/-- What remains of a call when its value is dropped. -/
def Reading.effect {α : Type} (reading : Reading α) : MemoryReader × Range :=
  (reading.reader, reading.accessed)

namespace MemoryReader

/-- The reader that a call leaves and the bytes that it touches. -/
def Call.effect (reader : MemoryReader) : Call → MemoryReader × Range
  | .read none => (MemoryReader.read reader).effect
  | .read (some offset) => (readOffset offset reader).effect
  | .read16BE none => (MemoryReader.read16BE reader).effect
  | .read16BE (some offset) => (read16BEOffset offset reader).effect
  | .read16LE none => (MemoryReader.read16LE reader).effect
  | .read16LE (some offset) => (read16LEOffset offset reader).effect
  | .read32BE none => (MemoryReader.read32BE reader).effect
  | .read32BE (some offset) => (read32BEOffset offset reader).effect
  | .read32LE none => (MemoryReader.read32LE reader).effect
  | .read32LE (some offset) => (read32LEOffset offset reader).effect
  | .read64BE none => (MemoryReader.read64BE reader).effect
  | .read64BE (some offset) => (read64BEOffset offset reader).effect
  | .read64LE none => (MemoryReader.read64LE reader).effect
  | .read64LE (some offset) => (read64LEOffset offset reader).effect
  | .readSpan none length => (MemoryReader.readSpan length reader).effect
  | .readSpan (some offset) length => (readSpanOffset offset length reader).effect
  | .readString none length => (MemoryReader.readString length reader).effect
  | .readString (some offset) length => (readStringOffset offset length reader).effect

/-- Every call returns, whatever it was given. -/
def step (reader : MemoryReader) (call : Call) : Option MemoryReader :=
  some (call.effect reader).1

/-- The call touches only bytes of the buffer and leaves the offset inside it. -/
def InBounds (reader : MemoryReader) (call : Call) : Prop :=
  (call.effect reader).2.Within reader.data.size ∧ (call.effect reader).1.offset ≤ reader.data.size

/-- What a call needs for its own check to suffice. -/
def Safe (reader : MemoryReader) : Call → Prop
  | .read position => Covers 0 1 (position.getD reader.offset) reader.data.size
  | .read16BE position => Covers 2 2 (position.getD reader.offset) reader.data.size
  | .read16LE position => Covers 2 2 (position.getD reader.offset) reader.data.size
  | .read32BE position => Covers 4 4 (position.getD reader.offset) reader.data.size
  | .read32LE position => Covers 4 4 (position.getD reader.offset) reader.data.size
  | .read64BE none => Covers 8 8 reader.offset reader.data.size
  | .read64BE (some offset) => Covers 4 8 offset reader.data.size
  | .read64LE none => Covers 8 8 reader.offset reader.data.size
  | .read64LE (some offset) => Covers 4 8 offset reader.data.size
  | .readSpan position length =>
    Covers length length (position.getD reader.offset) reader.data.size
  | .readString position length =>
    Covers length length (position.getD reader.offset) reader.data.size ∨
      scanned reader.data (position.getD reader.offset) length = 0

theorem readChecked_inBounds_iff {checked : UInt64} (empty : α) (compose : (Nat → UInt8) → α)
    (asserted : Bool) (offset : UInt64) (inside : reader.offset ≤ reader.data.size) :
    let effect := (readChecked checked width empty compose asserted offset reader).effect
    (effect.2.Within reader.data.size ∧ effect.1.offset ≤ reader.data.size) ↔
      Covers checked width offset reader.data.size := by
  by_cases passes : offset + checked ≤ reader.data.size
  · simp only [readChecked, passes, if_true, Reading.effect, Covers, true_implies]
    constructor
    · rintro ⟨within, moved⟩
      by_cases nonempty : 0 < width.toNat
      · exact (Range.within_iff_fits nonempty).mp within
      · rw [UInt64.le_iff_toNat_le, UInt64.toNat_add] at moved
        have offset_lt := offset.toNat_lt
        omega
    · intro fits
      refine ⟨Range.Fits.within fits, ?_⟩
      rw [UInt64.le_iff_toNat_le, UInt64.toNat_add]
      omega
  · simp only [readChecked, passes, if_false, refused, Reading.effect, Covers, false_implies,
      iff_true]
    exact ⟨fun place place_lt => absurd place_lt (Nat.not_lt_zero place), inside⟩

theorem fits_of_scanned {data : Buffer} {length : UInt64} (started : offset < data.size)
    (runs : scanned data offset length ≠ 0) (passes : offset + length ≤ data.size) :
    offset.toNat + length.toNat ≤ data.size.toNat := by
  have ordered : data.address + offset < data.address + offset + length := by
    by_contra unordered
    exact runs (if_neg unordered)
  have inside := data.inside
  have length_lt := length.toNat_lt
  rw [UInt64.lt_iff_toNat_lt] at started
  rw [UInt64.lt_iff_toNat_lt, UInt64.toNat_add _ length, UInt64.toNat_add] at ordered
  rw [UInt64.le_iff_toNat_le, UInt64.toNat_add] at passes
  omega

/-- `ReadString` stays in bounds when its check covers it or its scan does not start. -/
theorem readStringOffset_inBounds_iff (offset length : UInt64)
    (inside : reader.offset ≤ reader.data.size) :
    let effect := (readStringOffset offset length reader).effect
    (effect.2.Within reader.data.size ∧ effect.1.offset ≤ reader.data.size) ↔
      Covers length length offset reader.data.size ∨ scanned reader.data offset length = 0 := by
  by_cases passes : offset + length ≤ reader.data.size
  · simp only [readStringOffset, passes, if_true, Reading.effect, Covers, true_implies, and_true]
    constructor
    · intro within
      by_cases runs : scanned reader.data offset length = 0
      · exact .inr runs
      · have first := within 0 (Nat.lt_min.mpr ⟨Nat.succ_pos _, Nat.pos_of_ne_zero runs⟩)
        rw [show UInt64.ofNat 0 = 0 from rfl, UInt64.add_zero] at first
        exact .inl (fits_of_scanned first runs passes)
    · rintro (fits | idle)
      · apply Range.Fits.within
        have limit_le : scanned reader.data offset length ≤ length.toNat := by
          unfold scanned
          split <;> omega
        refine Nat.le_trans (Nat.add_le_add_left ?_ _) fits
        exact Nat.le_trans (Nat.min_le_right _ _) limit_le
      · rw [idle, Nat.min_zero]
        exact fun place place_lt => absurd place_lt (Nat.not_lt_zero place)
  · simp only [readStringOffset, passes, if_false, refused, Reading.effect, Covers, false_implies,
      true_or, iff_true]
    exact ⟨fun place place_lt => absurd place_lt (Nat.not_lt_zero place), inside⟩

/-- One call stays in bounds exactly when it is safe. -/
theorem inBounds_iff_safe (inside : reader.offset ≤ reader.data.size) (call : Call) :
    InBounds reader call ↔ Safe reader call := by
  cases call with
  | read position =>
    cases position with
    | none => exact readChecked_inBounds_iff _ _ _ _ inside
    | some offset => exact readChecked_inBounds_iff _ _ _ _ inside
  | read16BE position =>
    cases position with
    | none => exact readChecked_inBounds_iff _ _ _ _ inside
    | some offset => exact readChecked_inBounds_iff _ _ _ _ inside
  | read16LE position =>
    cases position with
    | none => exact readChecked_inBounds_iff _ _ _ _ inside
    | some offset => exact readChecked_inBounds_iff _ _ _ _ inside
  | read32BE position =>
    cases position with
    | none => exact readChecked_inBounds_iff _ _ _ _ inside
    | some offset => exact readChecked_inBounds_iff _ _ _ _ inside
  | read32LE position =>
    cases position with
    | none => exact readChecked_inBounds_iff _ _ _ _ inside
    | some offset => exact readChecked_inBounds_iff _ _ _ _ inside
  | read64BE position =>
    cases position with
    | none => exact readChecked_inBounds_iff _ _ _ _ inside
    | some offset => exact readChecked_inBounds_iff _ _ _ _ inside
  | read64LE position =>
    cases position with
    | none => exact readChecked_inBounds_iff _ _ _ _ inside
    | some offset => exact readChecked_inBounds_iff _ _ _ _ inside
  | readSpan position length =>
    cases position with
    | none => exact readChecked_inBounds_iff _ _ _ _ inside
    | some offset => exact readChecked_inBounds_iff _ _ _ _ inside
  | readString position length =>
    cases position with
    | none => exact readStringOffset_inBounds_iff _ _ inside
    | some offset => exact readStringOffset_inBounds_iff _ _ inside

theorem data_effect (reader : MemoryReader) (call : Call) :
    (call.effect reader).1.data = reader.data := by
  have checked_data {α : Type} (checked width : UInt64) (empty : α)
      (compose : (Nat → UInt8) → α) (asserted : Bool) (offset : UInt64) :
      (readChecked checked width empty compose asserted offset reader).reader.data =
        reader.data := by
    unfold readChecked
    split <;> rfl
  have string_data (offset length : UInt64) :
      (readStringOffset offset length reader).reader.data = reader.data := by
    unfold readStringOffset
    split <;> rfl
  cases call with
  | readString position length => cases position <;> exact string_data _ _
  | readSpan position length => cases position <;> exact checked_data _ _ _ _ _ _
  | read position => cases position <;> exact checked_data _ _ _ _ _ _
  | read16BE position => cases position <;> exact checked_data _ _ _ _ _ _
  | read16LE position => cases position <;> exact checked_data _ _ _ _ _ _
  | read32BE position => cases position <;> exact checked_data _ _ _ _ _ _
  | read32LE position => cases position <;> exact checked_data _ _ _ _ _ _
  | read64BE position => cases position <;> exact checked_data _ _ _ _ _ _
  | read64LE position => cases position <;> exact checked_data _ _ _ _ _ _

/-- Over every buffer and every sequence of calls, all calls stay in bounds exactly when each of
them is safe where it is made. -/
theorem everyStep_inBounds_iff (data : Buffer) (calls : List Call) :
    Runs.EveryStep step (ofBuffer data) (fun _ reader call _ => InBounds reader call) calls ↔
      Runs.EveryStep step (ofBuffer data) (fun _ reader call _ => Safe reader call) calls := by
  have start : (ofBuffer data).offset ≤ (ofBuffer data).data.size := UInt64.zero_le
  refine @Runs.everyStep_iff _ _ _ _ _ _
    (fun _ reader => reader.offset ≤ reader.data.size) start ?_ ?_ calls
  · intro front before call after inside _
    exact inBounds_iff_safe inside call
  · intro front before call after inside step_eq safe
    obtain rfl := Option.some.inj step_eq
    rw [data_effect before call]
    exact ((inBounds_iff_safe inside call).mpr safe).2

/-- Four bytes at some address. -/
private def fourBytes : Buffer := ⟨4096, fun _ => 0, 4, by decide⟩

/-- `Read64_BE(0)` on a buffer of four bytes passes its check, touches the byte at index four and
leaves the offset at eight. -/
theorem read64BEOffset_outOfBounds :
    ∃ data : Buffer, data.size = 4 ∧
      ¬ Runs.EveryStep step (ofBuffer data) (fun _ reader call _ => InBounds reader call)
        [.read64BE (some 0)] := by
  refine ⟨fourBytes, rfl, fun every => ?_⟩
  have bounds := every [] (.read64BE (some 0)) [] _ _ rfl rfl rfl
  have moved : (8 : UInt64) ≤ 4 := bounds.2
  exact absurd moved (by decide)

end MemoryReader

end Fusion.Memory
