import Fusion.Library.Buffers

/-!
# Writing a memory buffer

`MemoryWriter` puts bytes, words and zeros into a buffer.  Every overload ends in the same three
steps: a bounds check on a sum of machine words, `Seek` to the offset, and a copy or a fill that
moves the writer behind what it wrote.
-/

namespace Fusion.Memory

open Buffers

/-- The fields of `MemoryWriter`: the buffer (`m_data` and `m_size`) and `m_offset`. -/
structure MemoryWriter where
  data : Buffer
  offset : UInt64

/-- A writer over a buffer starts at its first byte. -/
def MemoryWriter.ofBuffer (data : Buffer) : MemoryWriter := ⟨data, 0⟩

/-- What a call leaves, which bytes it wrote, and whether the assertion on its way held. -/
structure Writing where
  writer : MemoryWriter
  written : Range
  asserted : Bool

namespace MemoryWriter

/-- `Put(offset, data, size)`; the source is the memory from `data` on. -/
def putOffset (offset : UInt64) (source : Nat → UInt8) (size : UInt64) (writer : MemoryWriter) :
    Writing :=
  if offset + size ≤ writer.data.size then
    { writer := ⟨writer.data.copy offset source size.toNat, offset + size⟩
      written := ⟨offset, size.toNat⟩
      -- `Seek` asserts that the offset is at most the size
      asserted := decide (offset ≤ writer.data.size) }
  else ⟨writer, ⟨writer.offset, 0⟩, true⟩

def put (source : Nat → UInt8) (size : UInt64) (writer : MemoryWriter) : Writing :=
  putOffset writer.offset source size writer

/-- The local array of a word put, copied with its own size. -/
def putValues (values : List UInt8) (offset : UInt64) : MemoryWriter → Writing :=
  putOffset offset (fun place => values.getD place 0) (UInt64.ofNat values.length)

/-! ## The arrays of the word puts -/

def bytes16BE (value : UInt16) : List UInt8 := [(value >>> 8).toUInt8, value.toUInt8]

def bytes16LE (value : UInt16) : List UInt8 := [value.toUInt8, (value >>> 8).toUInt8]

def bytes32BE (value : UInt32) : List UInt8 :=
  [(value >>> 24).toUInt8, (value >>> 16).toUInt8, (value >>> 8).toUInt8, value.toUInt8]

def bytes32LE (value : UInt32) : List UInt8 :=
  [value.toUInt8, (value >>> 8).toUInt8, (value >>> 16).toUInt8, (value >>> 24).toUInt8]

def bytes64BE (value : UInt64) : List UInt8 :=
  [(value >>> 56).toUInt8, (value >>> 48).toUInt8, (value >>> 40).toUInt8,
    (value >>> 32).toUInt8, (value >>> 24).toUInt8, (value >>> 16).toUInt8,
    (value >>> 8).toUInt8, value.toUInt8]

def bytes64LE (value : UInt64) : List UInt8 :=
  [value.toUInt8, (value >>> 8).toUInt8, (value >>> 16).toUInt8, (value >>> 24).toUInt8,
    (value >>> 32).toUInt8, (value >>> 40).toUInt8, (value >>> 48).toUInt8,
    (value >>> 56).toUInt8]

/-! ## The overloads -/

def put16BEOffset (offset : UInt64) (value : UInt16) := putValues (bytes16BE value) offset

def put16BE (value : UInt16) (writer : MemoryWriter) := put16BEOffset writer.offset value writer

def put16LEOffset (offset : UInt64) (value : UInt16) := putValues (bytes16LE value) offset

def put16LE (value : UInt16) (writer : MemoryWriter) := put16LEOffset writer.offset value writer

def put32BEOffset (offset : UInt64) (value : UInt32) := putValues (bytes32BE value) offset

def put32BE (value : UInt32) (writer : MemoryWriter) := put32BEOffset writer.offset value writer

def put32LEOffset (offset : UInt64) (value : UInt32) := putValues (bytes32LE value) offset

def put32LE (value : UInt32) (writer : MemoryWriter) := put32LEOffset writer.offset value writer

def put64BEOffset (offset : UInt64) (value : UInt64) := putValues (bytes64BE value) offset

def put64BE (value : UInt64) (writer : MemoryWriter) := put64BEOffset writer.offset value writer

def put64LEOffset (offset : UInt64) (value : UInt64) := putValues (bytes64LE value) offset

def put64LE (value : UInt64) (writer : MemoryWriter) := put64LEOffset writer.offset value writer

def putStringOffset (offset : UInt64) (str : Nat → UInt8) (length : UInt64) :=
  putOffset offset str length

def putString (str : Nat → UInt8) (length : UInt64) (writer : MemoryWriter) :=
  putStringOffset writer.offset str length writer

/-- `PutZero(offset, count)` has the same check and fills with `memset`. -/
def putZeroOffset (offset count : UInt64) (writer : MemoryWriter) : Writing :=
  if offset + count ≤ writer.data.size then
    { writer := ⟨writer.data.copy offset (fun _ => 0) count.toNat, offset + count⟩
      written := ⟨offset, count.toNat⟩
      asserted := decide (offset ≤ writer.data.size) }
  else ⟨writer, ⟨writer.offset, 0⟩, true⟩

def putZero (count : UInt64) (writer : MemoryWriter) : Writing :=
  putZeroOffset writer.offset count writer

/-! ## All or nothing -/

/-- A call that puts; a position is the offset of the overload that takes one.  A span and a
string view are their pointer and their size. -/
inductive Call
  | put (position : Option UInt64) (source : Nat → UInt8) (size : UInt64)
  | put16BE (position : Option UInt64) (value : UInt16)
  | put16LE (position : Option UInt64) (value : UInt16)
  | put32BE (position : Option UInt64) (value : UInt32)
  | put32LE (position : Option UInt64) (value : UInt32)
  | put64BE (position : Option UInt64) (value : UInt64)
  | put64LE (position : Option UInt64) (value : UInt64)
  | putString (position : Option UInt64) (str : Nat → UInt8) (length : UInt64)
  | putZero (position : Option UInt64) (count : UInt64)

/-- The call as the code makes it. -/
def Call.perform (writer : MemoryWriter) : Call → Writing
  | .put none source size => MemoryWriter.put source size writer
  | .put (some offset) source size => putOffset offset source size writer
  | .put16BE none value => MemoryWriter.put16BE value writer
  | .put16BE (some offset) value => put16BEOffset offset value writer
  | .put16LE none value => MemoryWriter.put16LE value writer
  | .put16LE (some offset) value => put16LEOffset offset value writer
  | .put32BE none value => MemoryWriter.put32BE value writer
  | .put32BE (some offset) value => put32BEOffset offset value writer
  | .put32LE none value => MemoryWriter.put32LE value writer
  | .put32LE (some offset) value => put32LEOffset offset value writer
  | .put64BE none value => MemoryWriter.put64BE value writer
  | .put64BE (some offset) value => put64BEOffset offset value writer
  | .put64LE none value => MemoryWriter.put64LE value writer
  | .put64LE (some offset) value => put64LEOffset offset value writer
  | .putString none str length => MemoryWriter.putString str length writer
  | .putString (some offset) str length => putStringOffset offset str length writer
  | .putZero none count => MemoryWriter.putZero count writer
  | .putZero (some offset) count => putZeroOffset offset count writer

/-- Where the call is to put its bytes. -/
def Call.target (writer : MemoryWriter) : Call → UInt64
  | .put position _ _ => position.getD writer.offset
  | .put16BE position _ => position.getD writer.offset
  | .put16LE position _ => position.getD writer.offset
  | .put32BE position _ => position.getD writer.offset
  | .put32LE position _ => position.getD writer.offset
  | .put64BE position _ => position.getD writer.offset
  | .put64LE position _ => position.getD writer.offset
  | .putString position _ _ => position.getD writer.offset
  | .putZero position _ => position.getD writer.offset

/-- How many bytes the call is to put. -/
def Call.size : Call → UInt64
  | .put _ _ size => size
  | .put16BE _ _ => 2
  | .put16LE _ _ => 2
  | .put32BE _ _ => 4
  | .put32LE _ _ => 4
  | .put64BE _ _ => 8
  | .put64LE _ _ => 8
  | .putString _ _ length => length
  | .putZero _ count => count

/-- The bytes that the call is to put. -/
def Call.source : Call → Nat → UInt8
  | .put _ source _ => source
  | .put16BE _ value => fun place => (bytes16BE value).getD place 0
  | .put16LE _ value => fun place => (bytes16LE value).getD place 0
  | .put32BE _ value => fun place => (bytes32BE value).getD place 0
  | .put32LE _ value => fun place => (bytes32LE value).getD place 0
  | .put64BE _ value => fun place => (bytes64BE value).getD place 0
  | .put64LE _ value => fun place => (bytes64LE value).getD place 0
  | .putString _ str _ => str
  | .putZero _ _ => fun _ => 0

/-- Every overload is `Put` at its target, with its size and its source. -/
theorem perform_eq_putOffset (writer : MemoryWriter) (call : Call) :
    call.perform writer = putOffset (call.target writer) call.source call.size writer := by
  cases call with
  | put position source size => cases position <;> rfl
  | put16BE position value => cases position <;> rfl
  | put16LE position value => cases position <;> rfl
  | put32BE position value => cases position <;> rfl
  | put32LE position value => cases position <;> rfl
  | put64BE position value => cases position <;> rfl
  | put64LE position value => cases position <;> rfl
  | putString position str length => cases position <;> rfl
  | putZero position count => cases position <;> rfl

/-- The call writes exactly its bytes, inside the buffer, and moves behind them. -/
structure All (writer : MemoryWriter) (call : Call) : Prop where
  fits : (call.target writer).toNat + call.size.toNat ≤ writer.data.size.toNat
  written : (call.perform writer).written = ⟨call.target writer, call.size.toNat⟩
  contents : ∀ place < call.size.toNat,
    (call.perform writer).writer.data.byteFrom (call.target writer) place = call.source place
  frame : ∀ index, call.size.toNat ≤ (index - call.target writer).toNat →
    (call.perform writer).writer.data.memory index = writer.data.memory index
  moved : (call.perform writer).writer.offset.toNat = (call.target writer).toNat + call.size.toNat

/-- The call writes nothing and leaves the buffer and the offset as they were. -/
def Nothing (writer : MemoryWriter) (call : Call) : Prop :=
  (call.perform writer).written.count = 0 ∧ (call.perform writer).writer = writer

variable {call : Call} {writer : MemoryWriter}

theorem all_of_fits (fits : (call.target writer).toNat + call.size.toNat ≤ writer.data.size.toNat) :
    All writer call := by
  have size_lt := writer.data.size.toNat_lt
  have sum_eq : (call.target writer + call.size).toNat =
      (call.target writer).toNat + call.size.toNat := by
    rw [UInt64.toNat_add, Nat.mod_eq_of_lt (by omega)]
  have passes : call.target writer + call.size ≤ writer.data.size := by
    rw [UInt64.le_iff_toNat_le, sum_eq]
    exact fits
  have perform_eq : call.perform writer =
      ⟨⟨writer.data.copy (call.target writer) call.source call.size.toNat,
        call.target writer + call.size⟩, ⟨call.target writer, call.size.toNat⟩,
        decide (call.target writer ≤ writer.data.size)⟩ := by
    rw [perform_eq_putOffset, putOffset, if_pos passes]
  refine ⟨fits, by rw [perform_eq], ?_, ?_, by rw [perform_eq]; exact sum_eq⟩
  · intro place place_lt
    rw [perform_eq]
    exact Buffer.byteFrom_copy place_lt call.size.toNat_lt
  · intro index outside
    rw [perform_eq]
    exact Buffer.memory_copy_of_outside outside

theorem nothing_of_refused (refused : ¬ call.target writer + call.size ≤ writer.data.size) :
    Nothing writer call := by
  rw [Nothing, perform_eq_putOffset, putOffset, if_neg refused]
  exact ⟨rfl, rfl⟩

/-- A put is all or nothing exactly when what passes its check fits: the sum of offset and size
either does not wrap or, wrapped, still exceeds the size of the buffer. -/
theorem all_or_nothing_iff (writer : MemoryWriter) (call : Call) :
    All writer call ∨ Nothing writer call ↔
      Covers call.size call.size (call.target writer) writer.data.size := by
  constructor
  · rintro (all | nothing) passes
    · exact all.fits
    · have untouched := nothing.1
      rw [perform_eq_putOffset, putOffset, if_pos passes] at untouched
      have empty : call.size.toNat = 0 := untouched
      have target_lt := (call.target writer).toNat_lt
      rw [UInt64.le_iff_toNat_le, UInt64.toNat_add] at passes
      omega
  · intro covers
    by_cases passes : call.target writer + call.size ≤ writer.data.size
    · exact .inl (all_of_fits (covers passes))
    · exact .inr (nothing_of_refused passes)

/-- `PutZero(1, 2^64 - 1)` on a buffer of one byte: the sum wraps to zero and passes, and memory is
cleared from index one to the end of the address space. -/
theorem putZeroOffset_wraps :
    ∃ writer : MemoryWriter, writer.data.size = 1 ∧ writer.offset ≤ writer.data.size ∧
      ¬ (All writer (.putZero (some 1) 0xFFFFFFFFFFFFFFFF) ∨
        Nothing writer (.putZero (some 1) 0xFFFFFFFFFFFFFFFF)) := by
  refine ⟨⟨⟨4096, fun _ => 0, 1, by decide⟩, 0⟩, rfl, by decide, ?_⟩
  rintro (all | nothing)
  · exact absurd all.fits (by decide)
  · exact absurd nothing.1 (by decide)

end MemoryWriter

end Fusion.Memory
