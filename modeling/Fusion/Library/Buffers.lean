import Mathlib.Algebra.Group.Nat.Defs
import Mathlib.Data.List.Basic

/-!
# Byte buffers in a 64-bit address space

A buffer is an address and a size; the memory goes on after its last byte.  Indices and their sums
are machine words, so a run of bytes that starts near the last index goes on at index zero.
-/

namespace Buffers

/-- Consecutive indices, taken modulo `2 ^ 64`. -/
structure Range where
  start : UInt64
  count : Nat
deriving Repr, DecidableEq

/-- Every index of the range is one of a buffer of this size. -/
def Range.Within (range : Range) (size : UInt64) : Prop :=
  ∀ place < range.count, range.start + UInt64.ofNat place < size

instance (range : Range) (size : UInt64) : Decidable (range.Within size) :=
  inferInstanceAs (Decidable (∀ place < range.count, range.start + UInt64.ofNat place < size))

/-- The range ends, without wrapping, at most where the buffer does. -/
def Range.Fits (range : Range) (size : UInt64) : Prop :=
  range.start.toNat + range.count ≤ size.toNat

instance (range : Range) (size : UInt64) : Decidable (range.Fits size) :=
  inferInstanceAs (Decidable (range.start.toNat + range.count ≤ size.toNat))

/-- A bounds check on `offset + checked`, a sum of machine words, covers an access of `width` bytes:
what passes it fits. -/
def Covers (checked width offset size : UInt64) : Prop :=
  offset + checked ≤ size → offset.toNat + width.toNat ≤ size.toNat

instance (checked width offset size : UInt64) : Decidable (Covers checked width offset size) :=
  inferInstanceAs (Decidable (_ → _))

theorem toNat_add_ofNat {start : UInt64} {place : Nat}
    (small : start.toNat + place < 2 ^ 64) :
    (start + UInt64.ofNat place).toNat = start.toNat + place := by
  have place_lt : place < 2 ^ 64 := by omega
  rw [UInt64.toNat_add, UInt64.toNat_ofNat_of_lt' place_lt, Nat.mod_eq_of_lt small]

variable {range : Range} {size : UInt64}

theorem Range.Fits.within (fits : range.Fits size) : range.Within size := by
  intro place place_lt
  have size_lt := size.toNat_lt
  unfold Range.Fits at fits
  rw [UInt64.lt_iff_toNat_lt, toNat_add_ofNat (by omega)]
  omega

/-- A range whose indices all lie in the buffer does not wrap: the index at the buffer's end
would be one of them. -/
theorem Range.within_iff_fits (nonempty : 0 < range.count) :
    range.Within size ↔ range.Fits size := by
  refine ⟨fun within => ?_, Range.Fits.within⟩
  have size_lt := size.toNat_lt
  have first := within 0 nonempty
  rw [UInt64.lt_iff_toNat_lt, toNat_add_ofNat (by have := range.start.toNat_lt; omega)] at first
  unfold Range.Fits
  by_contra overflow
  have last := within (size.toNat - range.start.toNat) (by omega)
  rw [UInt64.lt_iff_toNat_lt, toNat_add_ofNat (by omega)] at last
  omega

/-- A buffer that lies inside the address space, with the memory seen from its first byte. -/
structure Buffer where
  address : UInt64
  memory : UInt64 → UInt8
  size : UInt64
  inside : address.toNat + size.toNat ≤ 2 ^ 64

/-- The bytes from an offset on. -/
def Buffer.byteFrom (buffer : Buffer) (offset : UInt64) (place : Nat) : UInt8 :=
  buffer.memory (offset + UInt64.ofNat place)

/-- The list of `count` bytes from an offset on. -/
def Buffer.bytes (buffer : Buffer) (offset : UInt64) (count : Nat) : List UInt8 :=
  (List.range count).map (buffer.byteFrom offset)

theorem Buffer.bytes_add (buffer : Buffer) (offset : UInt64) (left right : Nat) :
    buffer.bytes offset (left + right) =
      buffer.bytes offset left ++ buffer.bytes (offset + UInt64.ofNat left) right := by
  simp only [Buffer.bytes, List.range_add, List.map_append, List.map_map]
  congr 1
  apply List.map_congr_left
  intro place _
  simp only [Function.comp_apply, Buffer.byteFrom, UInt64.ofNat_add, UInt64.add_assoc]

/-- Copy the first `count` bytes of a source to an offset. -/
def Buffer.copy (buffer : Buffer) (offset : UInt64) (source : Nat → UInt8) (count : Nat) : Buffer :=
  { buffer with
    memory := fun index =>
      if (index - offset).toNat < count then source (index - offset).toNat
      else buffer.memory index }

variable {buffer : Buffer} {count : Nat} {offset : UInt64} {source : Nat → UInt8}

theorem Buffer.memory_copy_of_outside {index : UInt64} (outside : count ≤ (index - offset).toNat) :
    (buffer.copy offset source count).memory index = buffer.memory index :=
  if_neg (Nat.not_lt.mpr outside)

variable {place : Nat}

/-- What was copied is read back. -/
theorem Buffer.byteFrom_copy (place_lt : place < count) (count_lt : count < 2 ^ 64) :
    (buffer.copy offset source count).byteFrom offset place = source place := by
  have distance : (offset + UInt64.ofNat place - offset).toNat = place := by
    rw [UInt64.add_comm, UInt64.add_sub_cancel]
    exact UInt64.toNat_ofNat_of_lt' (Nat.lt_trans place_lt count_lt)
  simp only [Buffer.byteFrom, Buffer.copy, distance, place_lt, if_true]

/-- A copy leaves the bytes before its offset as they were. -/
theorem Buffer.byteFrom_copy_of_before {earlier : UInt64}
    (before : earlier.toNat + place < offset.toNat) (no_wrap : offset.toNat + count ≤ 2 ^ 64) :
    (buffer.copy offset source count).byteFrom earlier place = buffer.byteFrom earlier place := by
  have offset_lt := offset.toNat_lt
  have index_eq := @toNat_add_ofNat earlier place (by omega)
  apply Buffer.memory_copy_of_outside
  rw [UInt64.toNat_sub, index_eq]
  omega

theorem Buffer.bytes_copy {source : List UInt8} (length_lt : source.length < 2 ^ 64) :
    (buffer.copy offset (fun place => source.getD place 0) source.length).bytes offset
      source.length = source := by
  apply List.ext_getElem
  · simp [Buffer.bytes]
  · intro place _ place_lt
    simp [Buffer.bytes, Buffer.byteFrom_copy place_lt length_lt, place_lt]

theorem Buffer.bytes_copy_of_before {buffer : Buffer} {offset earlier : UInt64}
    {source : Nat → UInt8} {count earlierCount : Nat}
    (before : earlier.toNat + earlierCount ≤ offset.toNat)
    (no_wrap : offset.toNat + count ≤ 2 ^ 64) :
    (buffer.copy offset source count).bytes earlier earlierCount =
      buffer.bytes earlier earlierCount := by
  apply List.map_congr_left
  intro place place_mem
  have place_lt := List.mem_range.mp place_mem
  exact Buffer.byteFrom_copy_of_before (by omega) no_wrap

end Buffers
