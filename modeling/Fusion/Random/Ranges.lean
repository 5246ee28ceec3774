import Fusion.Library.CyclicRanges
import Fusion.Random.Generators

/-!
# Random numbers of a range

The templates of `Random` reduce a draw to the width of the range, in unsigned arithmetic that wraps
around.  The width of the range of all numbers wraps to zero, and then the draw is not reduced.
-/

namespace Fusion.Random

open RandomState CyclicRanges

/-! ## Draws in a range -/

/-- A draw reduced to the width of the range, which is zero for the range of all numbers. -/
def numberOf {δ : Type} [Add δ] [Sub δ] [Mod δ] [OfNat δ 0] [OfNat δ 1] [DecidableEq δ]
    (value min max : δ) : δ :=
  let ret := max - min + 1
  let value := if ret ≠ 0 then value % ret else value
  value + min

/-- What `UInt32` makes of a draw. -/
def uint32Of (value min max : UInt32) : UInt32 :=
  numberOf value min max

/-- What `UInt64` makes of a draw. -/
def uint64Of (value min max : UInt64) : UInt64 :=
  numberOf value min max

/-- What `Int32` makes of a draw. -/
def int32Of (value : UInt32) (min max : Int32) : Int32 :=
  (uint32Of value min.toUInt32 max.toUInt32).toInt32

/-- What `Int64` makes of a draw. -/
def int64Of (value : UInt64) (min max : Int64) : Int64 :=
  (uint64Of value min.toUInt64 max.toUInt64).toInt64

section Templates

variable {σ : Type} [RandomState σ]

def uint32 (state : σ) (min max : UInt32) : UInt32 × σ :=
  let (value, state) := bits32 state
  (uint32Of value min max, state)

def uint64 (state : σ) (min max : UInt64) : UInt64 × σ :=
  let (value, state) := bits64 state
  (uint64Of value min max, state)

def int32 (state : σ) (min max : Int32) : Int32 × σ :=
  let (value, state) := uint32 state min.toUInt32 max.toUInt32
  (value.toInt32, state)

def int64 (state : σ) (min max : Int64) : Int64 × σ :=
  let (value, state) := uint64 state min.toUInt64 max.toUInt64
  (value.toInt64, state)

end Templates

/-! ## Covering a range -/

/-- A number is what a draw is made into, it lies in the range, and every number of the range is
made of some draw. -/
structure Covers {σ α δ : Type} [LE α] (bits : σ → δ × σ) (number : σ → α → α → α × σ)
    (ofDraw : δ → α → α → α) : Prop where
  drawn : ∀ state min max, number state min max = (ofDraw (bits state).1 min max, (bits state).2)
  inside : ∀ state min max, min ≤ max →
    min ≤ (number state min max).1 ∧ (number state min max).1 ≤ max
  covered : ∀ min max value, min ≤ value → value ≤ max → ∃ draw, ofDraw draw min max = value

/-- Unsigned machine numbers as words of their width: one for each word, with its arithmetic. -/
structure Words (δ : Type) [Add δ] [Sub δ] [Mod δ] [OfNat δ 0] [OfNat δ 1] (width : Nat) where
  word : δ → BitVec width
  injective : Function.Injective word
  surjective : Function.Surjective word
  zero : word 0 = 0
  one : word 1 = 1
  add : ∀ x y, word (x + y) = word x + word y
  sub : ∀ x y, word (x - y) = word x - word y
  mod : ∀ x y, word (x % y) = word x % word y

/-- The words of `uint32_t`. -/
def words32 : Words UInt32 32 where
  word := UInt32.toBitVec
  injective := fun _ _ => UInt32.toBitVec_inj.mp
  surjective := fun word => ⟨UInt32.ofBitVec word, rfl⟩
  zero := rfl
  one := rfl
  add := fun _ _ => UInt32.toBitVec_add
  sub := fun _ _ => UInt32.toBitVec_sub
  mod := fun _ _ => UInt32.toBitVec_mod

/-- The words of `uint64_t`. -/
def words64 : Words UInt64 64 where
  word := UInt64.toBitVec
  injective := fun _ _ => UInt64.toBitVec_inj.mp
  surjective := fun word => ⟨UInt64.ofBitVec word, rfl⟩
  zero := rfl
  one := rfl
  add := fun _ _ => UInt64.toBitVec_add
  sub := fun _ _ => UInt64.toBitVec_sub
  mod := fun _ _ => UInt64.toBitVec_mod

section Words

variable {δ : Type} [Add δ] [Sub δ] [Mod δ] [OfNat δ 0] [OfNat δ 1] [DecidableEq δ] {width : Nat}

theorem Words.numberOf_eq (words : Words δ width) (value min max : δ) :
    words.word (numberOf value min max) =
      pick (words.word value) (words.word min) (words.word max) := by
  have width_eq : words.word (max - min + 1) = words.word max - words.word min + 1 := by
    rw [words.add, words.sub, words.one]
  have zero_iff : max - min + 1 = 0 ↔ words.word max - words.word min + 1 = 0 := by
    rw [← words.injective.eq_iff, width_eq, words.zero]
  rw [numberOf, pick, words.add]
  by_cases wraps : max - min + 1 = 0
  · rw [if_neg (not_not.mpr wraps), if_neg (not_not.mpr (zero_iff.mp wraps))]
  · rw [if_pos wraps, if_pos (mt zero_iff.mpr wraps), words.mod, width_eq]

/-- Numbers that are read from words cover a range if they are made of a draw among the words of
the range. -/
theorem Words.covers {σ α : Type} [LE α] {bits : σ → δ × σ} {number : σ → α → α → α × σ}
    {ofDraw : δ → α → α → α} {read : BitVec width → Int} (words : Words δ width)
    (reading : CyclicRanges.Reading read) (toUnsigned : α → δ)
    (unsigned_injective : Function.Injective toUnsigned)
    (le_iff : ∀ x y, x ≤ y ↔ read (words.word (toUnsigned x)) ≤ read (words.word (toUnsigned y)))
    (drawn : ∀ state min max,
      number state min max = (ofDraw (bits state).1 min max, (bits state).2))
    (made : ∀ draw min max,
      toUnsigned (ofDraw draw min max) = numberOf draw (toUnsigned min) (toUnsigned max)) :
    Covers bits number ofDraw := by
  refine ⟨drawn, ?_, ?_⟩
  · intro state min max ordered
    rw [le_iff] at ordered
    rw [drawn, le_iff, le_iff, made, words.numberOf_eq, ← reading.sub_le_sub_iff ordered]
    exact pick_sub_le ..
  · intro min max value above below
    rw [le_iff] at above below
    have distance := (reading.sub_le_sub_iff (Int.le_trans above below) _).mpr ⟨above, below⟩
    obtain ⟨draw, draw_eq⟩ :=
      words.surjective (words.word (toUnsigned value) - words.word (toUnsigned min))
    refine ⟨draw, unsigned_injective (words.injective ?_)⟩
    rw [made, words.numberOf_eq, draw_eq, pick_sub distance]

end Words

section Templates

variable {σ : Type} [RandomState σ]

theorem covers_uint32 : Covers (bits32 : σ → UInt32 × σ) uint32 uint32Of :=
  words32.covers reading_toNat id Function.injective_id
    (fun _ _ => UInt32.le_iff_toNat_le.trans Int.ofNat_le.symm) (fun _ _ _ => rfl) fun _ _ _ => rfl

theorem covers_uint64 : Covers (bits64 : σ → UInt64 × σ) uint64 uint64Of :=
  words64.covers reading_toNat id Function.injective_id
    (fun _ _ => UInt64.le_iff_toNat_le.trans Int.ofNat_le.symm) (fun _ _ _ => rfl) fun _ _ _ => rfl

theorem covers_int32 : Covers (bits32 : σ → UInt32 × σ) int32 int32Of :=
  words32.covers reading_toInt Int32.toUInt32
    (fun _ _ same => Int32.toBitVec_inj.mp (congrArg UInt32.toBitVec same))
    (fun _ _ => Int32.le_iff_toInt_le) (fun _ _ _ => rfl) fun _ _ _ => rfl

theorem covers_int64 : Covers (bits64 : σ → UInt64 × σ) int64 int64Of :=
  words64.covers reading_toInt Int64.toUInt64
    (fun _ _ same => Int64.toBitVec_inj.mp (congrArg UInt64.toBitVec same))
    (fun _ _ => Int64.le_iff_toInt_le) (fun _ _ _ => rfl) fun _ _ _ => rfl

/-- Every generator covers every range of unsigned and of signed numbers. -/
theorem ranges_covered :
    Covers (bits32 : σ → UInt32 × σ) uint32 uint32Of ∧
      Covers (bits64 : σ → UInt64 × σ) uint64 uint64Of ∧
      Covers (bits32 : σ → UInt32 × σ) int32 int32Of ∧
      Covers (bits64 : σ → UInt64 × σ) int64 int64Of :=
  ⟨covers_uint32, covers_uint64, covers_int32, covers_int64⟩

end Templates

end Fusion.Random
