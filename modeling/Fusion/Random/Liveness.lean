import Fusion.Random.Observation

/-!
# Generators never die

The words that `XorShift1024` writes follow a recurrence over sixteen words.  Words whose low bits
stay zero have more and more zero bits, until they are zero.
-/

namespace Fusion.Random
namespace XorShift1024

/-! ## The stream of words -/

section Stream

variable (schedule : Nat → Draw) (self : XorShift1024)

/-- The oldest word of the array after so many draws, which the next draw replaces. -/
def oldest (time : Nat) : UInt64 :=
  (stateAt schedule self time).word (((stateAt schedule self time).p + 1) % 16)

theorem stateAt_succ (time : Nat) :
    stateAt schedule self (time + 1) = (stateAt schedule self time).bits64.2 :=
  takesHalves.draw_snd _ _

theorem word_eq_oldest {place : Nat} (inside : place < 16) (time : Nat) :
    (stateAt schedule self time).word (((stateAt schedule self time).p + 1 + place) % 16) =
      oldest schedule self (time + place) := by
  induction place generalizing time with
  | zero => rfl
  | succ place ih =>
    -- One draw later the word is one place nearer to the index, and it was not replaced.
    have later := ih (by omega) (time + 1)
    rw [stateAt_succ, word_bits64, p_bits64, if_neg (by omega)] at later
    rw [Nat.add_right_comm time 1 place] at later
    rw [← Nat.add_assoc time, ← later]
    congr 1
    omega

variable {time : Nat} (indexed : (stateAt schedule self time).p < 16)
include indexed

theorem word_p_eq_oldest :
    (stateAt schedule self time).word (stateAt schedule self time).p =
      oldest schedule self (time + 15) := by
  rw [← word_eq_oldest schedule self (by decide : 15 < 16) time]
  congr 1
  omega

theorem oldest_add_sixteen :
    oldest schedule self (time + 16) =
      mixed (oldest schedule self (time + 15)) (oldest schedule self time) := by
  have written := word_eq_oldest schedule self (by decide : 15 < 16) (time + 1)
  rw [stateAt_succ, word_bits64, p_bits64, if_pos (by omega)] at written
  rw [word_p_eq_oldest schedule self indexed] at written
  exact written.symm

theorem value_eq_oldest :
    (stateAt schedule self time).bits64.1 =
      oldest schedule self (time + 16) * 0x9e3779b97f4a7c13 := by
  rw [value_bits64, word_p_eq_oldest schedule self indexed,
    oldest_add_sixteen schedule self indexed]
  rfl

end Stream

/-! ## Zeros spread -/

/-- The low bits are zero. -/
def Clear (bits : Nat) (word : UInt64) : Prop := ∀ i < bits, word.toBitVec.getLsbD i = false

variable {bits : Nat}

theorem Clear.xor_shiftLeft {word : UInt64} (clear : Clear bits word) :
    Clear bits (word ^^^ (word <<< 31)) := by
  intro i i_lt
  change (word.toBitVec ^^^ (word.toBitVec <<< 31)).getLsbD i = false
  rw [BitVec.getLsbD_xor, BitVec.getLsbD_shiftLeft, clear i i_lt, clear (i - 31) (by omega),
    Bool.and_false, Bool.false_xor]

theorem Clear.of_mixed (wide : 30 ≤ bits) {state0 state1 : UInt64} (clear0 : Clear bits state0)
    (clear1 : Clear bits state1) (clear : Clear bits (mixed state0 state1)) :
    Clear (bits + 19) state0 := by
  intro i i_lt
  by_cases low : i < bits
  · exact clear0 i low
  · -- The newest word is shifted down by 30 places, the other words by no more than eleven.
    let shifted := state1 ^^^ (state1 <<< 31)
    have shifted_clear : Clear bits shifted := clear1.xor_shiftLeft
    have bit : (shifted.toBitVec ^^^ state0.toBitVec ^^^ (shifted.toBitVec >>> 11) ^^^
        (state0.toBitVec >>> 30)).getLsbD (i - 30) = false := clear (i - 30) (by omega)
    rw [BitVec.getLsbD_xor, BitVec.getLsbD_xor, BitVec.getLsbD_xor, BitVec.getLsbD_ushiftRight,
      BitVec.getLsbD_ushiftRight, shifted_clear (i - 30) (by omega), clear0 (i - 30) (by omega),
      shifted_clear (11 + (i - 30)) (by omega), Nat.add_sub_cancel' (by omega)] at bit
    simpa using bit

theorem Clear.eq_zero (all : 64 ≤ bits) {word : UInt64} (clear : Clear bits word) : word = 0 := by
  apply UInt64.toBitVec_inj.mp
  apply BitVec.eq_of_getLsbD_eq
  intro i inside
  rw [clear i (by omega)]
  exact BitVec.getLsbD_zero.symm

theorem eq_zero_of_low_halves {words : Nat → UInt64}
    (recurrence : ∀ time, words (time + 16) = mixed (words (time + 15)) (words time))
    (low : ∀ time, Clear 32 (words (time + 16))) (time : Nat) : words (time + 46) = 0 := by
  have more : ∀ time, Clear 51 (words (time + 31)) := by
    intro time
    have next := low (time + 16)
    rw [recurrence] at next
    exact Clear.of_mixed (by decide) (low (time + 15)) (low time) next
  have next := more (time + 16)
  rw [show time + 16 + 31 = time + 31 + 16 by omega, recurrence] at next
  exact Clear.eq_zero (by decide) (Clear.of_mixed (by decide) (more (time + 15)) (more time) next)

/-! ## Draws of zero -/

theorem clear_of_product {word : UInt64} (vanishes : (word * 0x9e3779b97f4a7c13).toUInt32 = 0) :
    Clear 32 word := by
  have low_zero : word.toUInt32 = 0 := by
    rw [UInt64.toUInt32_mul] at vanishes
    calc word.toUInt32 = word.toUInt32 * (0x7f4a7c13 * 0xfbf0ae1b) := (UInt32.mul_one _).symm
      _ = word.toUInt32 * 0x7f4a7c13 * 0xfbf0ae1b := (UInt32.mul_assoc ..).symm
      _ = 0 * 0xfbf0ae1b := congrArg (· * 0xfbf0ae1b) vanishes
      _ = 0 := UInt32.zero_mul
  intro i i_lt
  have low_value : word.toNat % 2 ^ 32 = 0 := congrArg UInt32.toNat low_zero
  have bit : (word.toNat % 2 ^ 32).testBit i = false := by rw [low_value, Nat.zero_testBit]
  rw [Nat.testBit_mod_two_pow, decide_eq_true i_lt, Bool.true_and] at bit
  exact bit

theorem productive (self : XorShift1024) (alive : self.Alive) (schedule : Nat → Draw) :
    ¬∀ time, valueAt schedule self time = 0 := by
  intro zeros
  have lives := invariant_stateAt alive_draw schedule alive
  have low : ∀ time, Clear 32 (oldest schedule self (time + 16)) := by
    intro time
    apply clear_of_product
    rw [← value_eq_oldest schedule self (lives time).1]
    exact takesHalves.low_half_of_draw (zeros time)
  have zero := eq_zero_of_low_halves
    (fun time => oldest_add_sixteen schedule self (lives time).1) low
  apply (lives 46).2
  rw [allZero_iff]
  intro place inside
  have indexed := (lives 46).1
  have ahead := word_eq_oldest schedule self
    (Nat.mod_lt (place + 15 - (stateAt schedule self 46).p) (by decide : 0 < 16)) 46
  rw [Nat.add_comm 46, zero] at ahead
  rw [← ahead]
  congr 1
  omega

end XorShift1024

/-! ## All generators -/

/-- No generator dies, whatever its seed is: no draws lead to a state of zeros, no schedule of draws
gives zeros only from some time on, and the index of `XorShift1024` stays inside its words. -/
theorem generators_never_die :
    (∀ seed, NeverDies XorShift32.AllZero (XorShift32.ofSeed seed)) ∧
    (∀ seed, NeverDies XorShift128.AllZero (XorShift128.ofSeed seed)) ∧
    (∀ seed, NeverDies XorShift1024.AllZero (XorShift1024.ofSeed seed)) ∧
    ∀ seed draws, (drawn draws (XorShift1024.ofSeed seed)).p < 16 := by
  refine ⟨fun seed => ?_, fun seed => ?_, fun seed => ?_, fun seed draws => ?_⟩
  · exact NeverDies.of_invariant XorShift32.not_allZero_draw (XorShift32.not_allZero_ofSeed seed)
      (fun _ alive => alive) XorShift32.productive
  · exact NeverDies.of_invariant XorShift128.not_allZero_draw (XorShift128.not_allZero_ofSeed seed)
      (fun _ alive => alive) XorShift128.productive
  · exact NeverDies.of_invariant XorShift1024.alive_draw (XorShift1024.alive_ofSeed seed)
      (fun _ alive => alive.2) XorShift1024.productive
  · exact (invariant_drawn XorShift1024.alive_draw draws (XorShift1024.alive_ofSeed seed)).1

end Fusion.Random
