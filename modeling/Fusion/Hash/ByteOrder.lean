import Fusion.Hash.Compression
import Fusion.Library.MessageDigest
import Fusion.Library.SecureHash

/-!
# Byte orders of the hashers

The shifts and masks by which the hashers load words and store lengths and digests, as base-256
digits in the order of each standard.
-/

namespace Fusion

open Words

variable (input : List UInt8) (index : Nat)

theorem toNat_input32 :
    (input32 input index).toNat =
      ofLittleEndian
        [input.getD (4 * index) 0, input.getD (4 * index + 1) 0, input.getD (4 * index + 2) 0,
          input.getD (4 * index + 3) 0] :=
  toNat_or_shiftLeft_bytes _ _ _ _

theorem input32_eq_blockWord : input32 input index = MessageDigest.blockWord input index := by
  rw [MessageDigest.blockWord, ← toNat_input32, UInt32.ofNat_toNat]

/-- Each step of the swap moves the low byte of the word behind those moved before. -/
theorem toNat_constSwap (x result : UInt32) {remaining : Nat} (few : remaining ≤ 4)
    (room : result.toNat < 256 ^ (4 - remaining)) :
    (Endian.constSwap x result remaining).toNat =
      result.toNat * 256 ^ remaining + ofBigEndian (littleEndian remaining x.toNat) := by
  induction remaining generalizing x result with
  | zero => simp [Endian.constSwap, ofBigEndian, ofLittleEndian, littleEndian]
  | succ remaining ih =>
    have small : result.toNat < 2 ^ 24 :=
      Nat.lt_of_lt_of_le room
        (Nat.pow_le_pow_right (by decide) (by omega : 4 - (remaining + 1) ≤ 3))
    have moved : ((result <<< 8) ||| (x &&& 0xFF)).toNat = x.toNat % 256 + result.toNat * 256 := by
      rw [UInt32.or_comm, toNat_or_shiftLeft (by decide), toNat_and_mask]
      · rfl
      · rw [toNat_and_mask]
        exact Nat.mod_lt _ (by decide)
      · change result.toNat * 2 ^ 8 < 2 ^ 32
        omega
    have shifted : (x >>> 8).toNat = x.toNat / 256 := by
      rw [UInt32.toNat_shiftRight, Nat.shiftRight_eq_div_pow]
      rfl
    have moved_room : ((result <<< 8) ||| (x &&& 0xFF)).toNat < 256 ^ (4 - remaining) := by
      rw [moved, show 4 - remaining = 4 - (remaining + 1) + 1 by omega, Nat.pow_succ]
      omega
    rw [Endian.constSwap, ih _ _ (by omega) moved_room, moved, shifted, littleEndian_succ,
      ofBigEndian_cons, length_littleEndian, UInt8.toNat_ofNat']
    ring

theorem constSwap_input32_eq_blockWord :
    Endian.constSwap (input32 input index) = SecureHash.blockWord input index := by
  have swapped := @toNat_constSwap (input32 input index) 0 4 (by decide) (by decide)
  have digits := littleEndian_ofLittleEndian
    [input.getD (4 * index) 0, input.getD (4 * index + 1) 0, input.getD (4 * index + 2) 0,
      input.getD (4 * index + 3) 0]
  rw [toNat_input32, show UInt32.toNat 0 = 0 from rfl, Nat.zero_mul, Nat.zero_add] at swapped
  rw [SecureHash.blockWord, ← digits]
  exact UInt32.ofNat_toNat.symm.trans (congrArg UInt32.ofNat swapped)

theorem map_constSwap_input32 {input : List UInt8} {schedule : Nat → UInt32}
    (start : ∀ t, t < 16 → schedule t = SecureHash.blockWord input t) :
    ((List.range 16).map fun i => Endian.constSwap (input32 input i)) =
      (List.range 16).map schedule := by
  refine List.map_congr_left fun t below => ?_
  rw [start t (List.mem_range.mp below), constSwap_input32_eq_blockWord]

/-! ## Stored bytes -/

theorem bigEndianBytes_eq (bits : UInt64) : bigEndianBytes bits = bigEndian 8 bits.toNat := by
  simp only [bigEndianBytes, toUInt8_and_mask_long, UInt64.toNat_shiftRight,
    Nat.shiftRight_eq_div_pow]
  simp [bigEndian, littleEndian, List.range_succ]

theorem littleEndianBytes_eq (bits : UInt64) :
    littleEndianBytes bits = littleEndian 8 bits.toNat := by
  simp only [littleEndianBytes, toUInt8_and_mask_long, UInt64.toNat_shiftRight,
    Nat.shiftRight_eq_div_pow, Nat.div_div_eq_div_mul]
  simp [littleEndian, List.range_succ]

theorem bigEndianWord_eq (word : UInt32) : bigEndianWord word = bigEndian 4 word.toNat := by
  simp only [bigEndianWord, toUInt8_and_mask, UInt32.toNat_shiftRight, Nat.shiftRight_eq_div_pow]
  simp [bigEndian, littleEndian, List.range_succ]

theorem littleEndianWord_eq (word : UInt32) :
    littleEndianWord word = littleEndian 4 word.toNat := by
  simp only [littleEndianWord, toUInt8_and_mask, UInt32.toNat_shiftRight, Nat.shiftRight_eq_div_pow]
  simp [littleEndian, List.range_succ]

end Fusion
