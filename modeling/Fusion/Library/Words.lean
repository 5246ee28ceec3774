import Mathlib.Data.List.Basic
import Mathlib.Data.Nat.Digits.Defs

/-!
# Words and bytes

A word of 32 bits is compared bit by bit, and is written as four base-256 digits in either order.
-/

namespace Words

/-! ## Bits -/

theorem ext_getLsbD {left right : UInt32}
    (bits : ∀ bit, bit < 32 → left.toBitVec.getLsbD bit = right.toBitVec.getLsbD bit) :
    left = right := by
  apply UInt32.toBitVec_inj.mp
  apply BitVec.eq_of_getLsbD_eq
  exact bits

/-- Circular shift to the left. -/
def rotateLeft (word shift : UInt32) : UInt32 := (word <<< shift) ||| (word >>> (32 - shift))

/-- Circular shift to the right. -/
def rotateRight (word shift : UInt32) : UInt32 := (word >>> shift) ||| (word <<< (32 - shift))

/-- Where the first word has a one the bit of the second, and elsewhere that of the third. -/
def choose (x y z : UInt32) : UInt32 := (x &&& y) ^^^ (~~~x &&& z)

/-- The bit that at least two of the words have. -/
def majority (x y z : UInt32) : UInt32 := (x &&& y) ^^^ (x &&& z) ^^^ (y &&& z)

def parity (x y z : UInt32) : UInt32 := x ^^^ y ^^^ z

variable (x y z : UInt32) (count value : Nat)

theorem xor_and_xor_eq_choose : z ^^^ (x &&& (y ^^^ z)) = choose x y z := by
  apply ext_getLsbD
  intro bit bit_lt
  simp only [choose, UInt32.toBitVec_xor, UInt32.toBitVec_and, UInt32.toBitVec_not,
    BitVec.getLsbD_xor, BitVec.getLsbD_and, BitVec.getLsbD_not, bit_lt]
  cases x.toBitVec.getLsbD bit <;> cases y.toBitVec.getLsbD bit <;>
    cases z.toBitVec.getLsbD bit <;> rfl

theorem and_or_not_and_eq_choose : (x &&& y) ||| (~~~x &&& z) = choose x y z := by
  apply ext_getLsbD
  intro bit bit_lt
  simp only [choose, UInt32.toBitVec_xor, UInt32.toBitVec_and, UInt32.toBitVec_or,
    UInt32.toBitVec_not, BitVec.getLsbD_xor, BitVec.getLsbD_and, BitVec.getLsbD_or,
    BitVec.getLsbD_not, bit_lt]
  cases x.toBitVec.getLsbD bit <;> cases y.toBitVec.getLsbD bit <;>
    cases z.toBitVec.getLsbD bit <;> rfl

theorem or_and_or_eq_majority : ((x ||| y) &&& z) ||| (x &&& y) = majority x y z := by
  apply ext_getLsbD
  intro bit bit_lt
  simp only [majority, UInt32.toBitVec_xor, UInt32.toBitVec_and, UInt32.toBitVec_or,
    BitVec.getLsbD_xor, BitVec.getLsbD_and, BitVec.getLsbD_or]
  cases x.toBitVec.getLsbD bit <;> cases y.toBitVec.getLsbD bit <;>
    cases z.toBitVec.getLsbD bit <;> rfl

theorem or_or_eq_majority : (x &&& y) ||| (x &&& z) ||| (y &&& z) = majority x y z := by
  apply ext_getLsbD
  intro bit bit_lt
  simp only [majority, UInt32.toBitVec_xor, UInt32.toBitVec_and, UInt32.toBitVec_or,
    BitVec.getLsbD_xor, BitVec.getLsbD_and, BitVec.getLsbD_or]
  cases x.toBitVec.getLsbD bit <;> cases y.toBitVec.getLsbD bit <;>
    cases z.toBitVec.getLsbD bit <;> rfl

/-! ## Bytes -/

/-- The number with the given base-256 digits, least significant first. -/
def ofLittleEndian (bytes : List UInt8) : Nat := Nat.ofDigits 256 (bytes.map UInt8.toNat)

/-- The number with the given base-256 digits, most significant first. -/
def ofBigEndian (bytes : List UInt8) : Nat := ofLittleEndian bytes.reverse

/-- The last `count` base-256 digits of a number, least significant first. -/
def littleEndian (count value : Nat) : List UInt8 :=
  (List.range count).map fun place => UInt8.ofNat (value / 256 ^ place)

/-- The last `count` base-256 digits of a number, most significant first. -/
def bigEndian (count value : Nat) : List UInt8 := (littleEndian count value).reverse

@[simp]
theorem length_littleEndian : (littleEndian count value).length = count := by
  simp [littleEndian]

@[simp]
theorem length_bigEndian : (bigEndian count value).length = count := by
  rw [bigEndian, List.length_reverse, length_littleEndian]

theorem littleEndian_succ :
    littleEndian (count + 1) value = UInt8.ofNat value :: littleEndian count (value / 256) := by
  unfold littleEndian
  rw [List.range_succ_eq_map, List.map_cons, List.map_map]
  simp [Function.comp_def, Nat.pow_succ', Nat.div_div_eq_div_mul]

theorem ofLittleEndian_cons (byte : UInt8) (bytes : List UInt8) :
    ofLittleEndian (byte :: bytes) = byte.toNat + 256 * ofLittleEndian bytes := by
  simp [ofLittleEndian, Nat.ofDigits_cons]

theorem ofBigEndian_cons (byte : UInt8) (bytes : List UInt8) :
    ofBigEndian (byte :: bytes) = ofBigEndian bytes + 256 ^ bytes.length * byte.toNat := by
  simp [ofBigEndian, ofLittleEndian, Nat.ofDigits_append]

/-- The digits of a number are read back. -/
theorem littleEndian_ofLittleEndian (bytes : List UInt8) :
    littleEndian bytes.length (ofLittleEndian bytes) = bytes := by
  induction bytes with
  | nil => rfl
  | cons byte bytes ih =>
    have byte_lt := byte.toNat_lt
    have last : UInt8.ofNat (byte.toNat + 256 * ofLittleEndian bytes) = byte := by
      apply UInt8.toNat_inj.mp
      rw [UInt8.toNat_ofNat']
      omega
    have front : (byte.toNat + 256 * ofLittleEndian bytes) / 256 = ofLittleEndian bytes := by
      omega
    rw [List.length_cons, littleEndian_succ, ofLittleEndian_cons, last, front, ih]

/-! ## Bytes of a word -/

/-- A number is read back from enough of its digits. -/
theorem ofLittleEndian_littleEndian {count value : Nat} (small : value < 256 ^ count) :
    ofLittleEndian (littleEndian count value) = value := by
  induction count generalizing value with
  | zero =>
    obtain rfl : value = 0 := by simpa using small
    rfl
  | succ count ih =>
    have rest : value / 256 < 256 ^ count := by
      rw [Nat.pow_succ'] at small
      exact Nat.div_lt_of_lt_mul small
    rw [littleEndian_succ, ofLittleEndian_cons, ih rest, UInt8.toNat_ofNat', Nat.mod_add_div]

theorem ofBigEndian_bigEndian {count value : Nat} (small : value < 256 ^ count) :
    ofBigEndian (bigEndian count value) = value := by
  rw [ofBigEndian, bigEndian, List.reverse_reverse, ofLittleEndian_littleEndian small]

theorem toNat_and_mask (word : UInt32) : (word &&& 0xFF).toNat = word.toNat % 256 :=
  (UInt32.toNat_and word 0xFF).trans (Nat.and_two_pow_sub_one_eq_mod word.toNat 8)

theorem toUInt8_and_mask (word : UInt32) : (word &&& 0xFF).toUInt8 = UInt8.ofNat word.toNat := by
  apply UInt8.toNat_inj.mp
  rw [UInt32.toNat_toUInt8, toNat_and_mask, UInt8.toNat_ofNat', Nat.mod_mod]

theorem toUInt8_and_mask_long (word : UInt64) :
    (word &&& 0xFF).toUInt8 = UInt8.ofNat word.toNat := by
  apply UInt8.toNat_inj.mp
  have masked : (word &&& 0xFF).toNat = word.toNat % 256 :=
    (UInt64.toNat_and word 0xFF).trans (Nat.and_two_pow_sub_one_eq_mod word.toNat 8)
  rw [UInt64.toNat_toUInt8, masked, UInt8.toNat_ofNat', Nat.mod_mod]

/-- Two words whose bits do not overlap are put together by addition. -/
theorem toNat_or_shiftLeft {low high shift : UInt32} (shift_lt : shift.toNat < 32)
    (low_lt : low.toNat < 2 ^ shift.toNat) (high_lt : high.toNat * 2 ^ shift.toNat < 2 ^ 32) :
    (low ||| (high <<< shift)).toNat = low.toNat + high.toNat * 2 ^ shift.toNat := by
  rw [UInt32.toNat_or, UInt32.toNat_shiftLeft, Nat.mod_eq_of_lt shift_lt, Nat.shiftLeft_eq,
    Nat.mod_eq_of_lt high_lt, Nat.or_comm, ← Nat.shiftLeft_eq,
    ← Nat.shiftLeft_add_eq_or_of_lt low_lt, Nat.shiftLeft_eq, Nat.add_comm]

/-- Four bytes shifted into their places make the word with these digits. -/
theorem toNat_or_shiftLeft_bytes (a b c d : UInt8) :
    (a.toUInt32 ||| (b.toUInt32 <<< 8) ||| (c.toUInt32 <<< 16) ||| (d.toUInt32 <<< 24)).toNat =
      ofLittleEndian [a, b, c, d] := by
  have a_lt : a.toNat < 2 ^ 8 := a.toNat_lt
  have b_lt : b.toNat < 2 ^ 8 := b.toNat_lt
  have c_lt : c.toNat < 2 ^ 8 := c.toNat_lt
  have d_lt : d.toNat < 2 ^ 8 := d.toNat_lt
  have two : (a.toUInt32 ||| (b.toUInt32 <<< 8)).toNat = a.toNat + b.toNat * 2 ^ 8 :=
    @toNat_or_shiftLeft a.toUInt32 b.toUInt32 8 (by decide) a_lt
      (show b.toNat * 2 ^ 8 < 2 ^ 32 by omega)
  have three : (a.toUInt32 ||| (b.toUInt32 <<< 8) ||| (c.toUInt32 <<< 16)).toNat =
      a.toNat + b.toNat * 2 ^ 8 + c.toNat * 2 ^ 16 := by
    rw [← two]
    refine @toNat_or_shiftLeft _ c.toUInt32 16 (by decide) ?_
      (show c.toNat * 2 ^ 16 < 2 ^ 32 by omega)
    rw [two]
    change a.toNat + b.toNat * 2 ^ 8 < 2 ^ 16
    omega
  have four : (a.toUInt32 ||| (b.toUInt32 <<< 8) ||| (c.toUInt32 <<< 16) |||
      (d.toUInt32 <<< 24)).toNat =
      a.toNat + b.toNat * 2 ^ 8 + c.toNat * 2 ^ 16 + d.toNat * 2 ^ 24 := by
    rw [← three]
    refine @toNat_or_shiftLeft _ d.toUInt32 24 (by decide) ?_
      (show d.toNat * 2 ^ 24 < 2 ^ 32 by omega)
    rw [three]
    change a.toNat + b.toNat * 2 ^ 8 + c.toNat * 2 ^ 16 < 2 ^ 24
    omega
  rw [four]
  simp only [ofLittleEndian_cons, show ofLittleEndian [] = 0 from rfl]
  omega

end Words
