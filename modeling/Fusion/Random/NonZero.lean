import Fusion.Library.XorLinear
import Fusion.Random.Generators
import Mathlib.Data.List.GetD

/-!
# States that are not all zero

A seed never gives a state of zeros, and no draw leads to one.  A generator that has died draws
nothing but zeros from some time on.
-/

namespace Fusion.Random

/-! ## Runs of draws -/

/-- The two calls that draw a word. -/
inductive Draw
  | bits32
  | bits64
deriving DecidableEq

section Runs

variable {σ : Type} [RandomState σ]

/-- A draw of either kind: its value, and the state afterwards. -/
def draw (state : σ) : Draw → UInt64 × σ
  | .bits32 => ((RandomState.bits32 state).1.toUInt64, (RandomState.bits32 state).2)
  | .bits64 => RandomState.bits64 state

/-- The state after some draws. -/
def drawn (draws : List Draw) (state : σ) : σ :=
  draws.foldl (fun state kind => (draw state kind).2) state

/-- The state after so many draws of a schedule. -/
def stateAt (schedule : Nat → Draw) (state : σ) : Nat → σ
  | 0 => state
  | time + 1 => (draw (stateAt schedule state time) (schedule time)).2

/-- The value that is drawn at a time. -/
def valueAt (schedule : Nat → Draw) (state : σ) (time : Nat) : UInt64 :=
  (draw (stateAt schedule state time) (schedule time)).1

/-- No draws lead to a state of zeros, and on no schedule are there zeros only from some time on. -/
structure NeverDies (allZero : σ → Prop) (initial : σ) : Prop where
  nonzero : ∀ draws, ¬allZero (drawn draws initial)
  produces : ∀ schedule start, ∃ time ≥ start, valueAt schedule initial time ≠ 0

theorem stateAt_add (schedule : Nat → Draw) (state : σ) (start time : Nat) :
    stateAt schedule state (start + time) =
      stateAt (fun later => schedule (start + later)) (stateAt schedule state start) time := by
  induction time with
  | zero => rfl
  | succ time ih => rw [Nat.add_succ, stateAt, stateAt, ih]

theorem valueAt_add (schedule : Nat → Draw) (state : σ) (start time : Nat) :
    valueAt schedule state (start + time) =
      valueAt (fun later => schedule (start + later)) (stateAt schedule state start) time := by
  rw [valueAt, stateAt_add, valueAt]

variable {state : σ}

theorem valueAt_tail {schedule : Nat → Draw} (zeros : ∀ time, valueAt schedule state time = 0)
    (time : Nat) :
    valueAt (fun later => schedule (1 + later)) (draw state (schedule 0)).2 time = 0 :=
  (valueAt_add schedule state 1 time).symm.trans (zeros (1 + time))

section Invariant

variable {invariant : σ → Prop}
  (kept : ∀ state kind, invariant state → invariant (draw state kind).2)
include kept in
theorem invariant_drawn (draws : List Draw) (holds : invariant state) :
    invariant (drawn draws state) := by
  induction draws generalizing state with
  | nil => exact holds
  | cons kind draws ih => exact ih (kept state kind holds)

include kept in
theorem invariant_stateAt (schedule : Nat → Draw) (holds : invariant state) (time : Nat) :
    invariant (stateAt schedule state time) := by
  induction time with
  | zero => exact holds
  | succ time ih => exact kept _ _ ih

include kept in
theorem NeverDies.of_invariant {allZero : σ → Prop} {initial : σ} (holds : invariant initial)
    (nonzero : ∀ state, invariant state → ¬allZero state)
    (productive : ∀ state, invariant state → ∀ schedule, ¬∀ time, valueAt schedule state time = 0) :
    NeverDies allZero initial := by
  refine ⟨fun draws => nonzero _ (invariant_drawn kept draws holds), fun schedule start => ?_⟩
  have later := productive _ (invariant_stateAt kept schedule holds start)
    (fun later => schedule (start + later))
  rw [not_forall] at later
  obtain ⟨time, produced⟩ := later
  rw [← valueAt_add] at produced
  exact ⟨start + time, Nat.le_add_right start time, produced⟩

end Invariant

variable (σ) in
/-- A draw of 32 bits is the low half of a draw of 64 bits. -/
def TakesHalves : Prop :=
  ∀ state : σ, RandomState.bits32 state =
    ((RandomState.bits64 state).1.toUInt32, (RandomState.bits64 state).2)

namespace TakesHalves

theorem draw_snd (halves : TakesHalves σ) (state : σ) (kind : Draw) :
    (draw state kind).2 = (RandomState.bits64 state).2 := by
  cases kind with
  | bits32 => rw [draw, halves state]
  | bits64 => rfl

theorem low_half_of_draw (halves : TakesHalves σ) {kind : Draw}
    (vanishes : (draw state kind).1 = 0) : (RandomState.bits64 state).1.toUInt32 = 0 := by
  cases kind with
  | bits32 =>
    rw [draw, halves state] at vanishes
    exact UInt32.toUInt64_inj.mp vanishes
  | bits64 => exact congrArg UInt64.toUInt32 vanishes

end TakesHalves

end Runs

/-! ## Words -/

section Words

variable {value count : UInt64}

theorem eq_zero_of_xor_shiftRight (shifts : 0 < count.toNat % 64)
    (vanishes : value ^^^ (value >>> count) = 0) : value = 0 := by
  have word_zero : value.toBitVec ^^^ (value.toBitVec >>> (count.toNat % 64)) = 0 :=
    congrArg UInt64.toBitVec vanishes
  exact UInt64.toBitVec_inj.mp (XorLinear.xor_shiftRight_eq_zero shifts word_zero)

theorem eq_zero_of_xor_shiftLeft (shifts : 0 < count.toNat % 64)
    (vanishes : value ^^^ (value <<< count) = 0) : value = 0 := by
  have word_zero : value.toBitVec ^^^ (value.toBitVec <<< (count.toNat % 64)) = 0 :=
    congrArg UInt64.toBitVec vanishes
  exact UInt64.toBitVec_inj.mp (XorLinear.xor_shiftLeft_eq_zero shifts word_zero)

theorem eq_zero_of_mul {factor inverse : UInt64} (unit : factor * inverse = 1)
    (vanishes : value * factor = 0) : value = 0 := by
  calc value = value * (factor * inverse) := by rw [unit, UInt64.mul_one]
    _ = value * factor * inverse := (UInt64.mul_assoc ..).symm
    _ = 0 := by rw [vanishes, UInt64.zero_mul]

theorem eq_zero_of_mix64 (vanishes : mix64 value = 0) : value = 0 := by
  apply eq_zero_of_xor_shiftRight (by decide : 0 < (33 : UInt64).toNat % 64)
  apply eq_zero_of_mul (by decide : (0xff51afd7ed558ccd : UInt64) * 0x4f74430c22a54005 = 1)
  apply eq_zero_of_xor_shiftRight (by decide : 0 < (33 : UInt64).toNat % 64)
  apply eq_zero_of_mul (by decide : (0xc4ceb9fe1a85ec53 : UInt64) * 0x9cb4b2f8129337db = 1)
  exact eq_zero_of_xor_shiftRight (by decide : 0 < (33 : UInt64).toNat % 64) vanishes

theorem mix64_seed_ne_zero (seed : UInt64) : mix64 (if seed = 0 then 1 else seed) ≠ 0 := by
  intro vanishes
  have seed_zero := eq_zero_of_mix64 vanishes
  by_cases zero : seed = 0
  · rw [if_pos zero] at seed_zero
    exact absurd seed_zero (by decide)
  · rw [if_neg zero] at seed_zero
    exact zero seed_zero

theorem eq_zero_of_rotl (inside : count.toNat % 64 ≤ 64)
    (back : (64 - count).toNat % 64 = 64 - count.toNat % 64) (vanishes : rotl value count = 0) :
    value = 0 := by
  have word_zero : (value.toBitVec <<< (count.toNat % 64)) |||
      (value.toBitVec >>> ((64 - count).toNat % 64)) = 0 :=
    congrArg UInt64.toBitVec vanishes
  rw [back] at word_zero
  exact UInt64.toBitVec_inj.mp (XorLinear.rotated_eq_zero inside word_zero)

end Words

/-! ## States -/

namespace XorShift32

/-- A state of zeros. -/
def AllZero (self : XorShift32) : Prop := self.state = 0

theorem eq_zero_of_next {state : UInt32} (vanishes : next state = 0) : state = 0 := by
  apply UInt32.toBitVec_inj.mp
  apply XorLinear.xor_shiftLeft_eq_zero (by decide : 0 < 13)
  apply XorLinear.xor_shiftRight_eq_zero (by decide : 0 < 17)
  apply XorLinear.xor_shiftLeft_eq_zero (by decide : 0 < 5)
  exact congrArg UInt32.toBitVec vanishes

theorem not_allZero_draw (self : XorShift32) (kind : Draw) (alive : ¬self.AllZero) :
    ¬(draw self kind).2.AllZero := by
  cases kind with
  | bits32 => exact fun vanishes => alive (eq_zero_of_next vanishes)
  | bits64 => exact fun vanishes => alive (eq_zero_of_next (eq_zero_of_next vanishes))

theorem not_allZero_ofSeed (seed : UInt32) : ¬(ofSeed seed).AllZero := by
  intro vanishes
  by_cases nonzero : seed ≠ 0
  · exact nonzero ((if_pos nonzero).symm.trans vanishes)
  · exact absurd ((if_neg nonzero).symm.trans vanishes) (by decide)

end XorShift32

namespace XorShift128

/-- A state of zeros. -/
def AllZero (self : XorShift128) : Prop := self.state0 = 0 ∧ self.state1 = 0

theorem allZero_of_bits64 {self : XorShift128} (vanishes : self.bits64.2.AllZero) :
    self.AllZero := by
  obtain ⟨next0, next1⟩ := vanishes
  have both : self.state1 ^^^ self.state0 = 0 :=
    eq_zero_of_rotl (by decide) (by decide) next1
  change rotl self.state0 55 ^^^ (self.state1 ^^^ self.state0) ^^^
    ((self.state1 ^^^ self.state0) <<< 14) = 0 at next0
  rw [both] at next0
  have first : self.state0 = 0 := by
    apply eq_zero_of_rotl (by decide) (by decide : (64 - (55 : UInt64)).toNat % 64 = _)
    simpa using next0
  refine ⟨first, ?_⟩
  simpa [first] using both

theorem takesHalves : TakesHalves XorShift128 := fun _ => rfl

theorem not_allZero_draw (self : XorShift128) (kind : Draw) (alive : ¬self.AllZero) :
    ¬(draw self kind).2.AllZero := by
  rw [takesHalves.draw_snd]
  exact fun vanishes => alive (allZero_of_bits64 vanishes)

theorem not_allZero_ofSeed (seed : UInt64) : ¬(ofSeed seed).AllZero :=
  fun vanishes => mix64_seed_ne_zero seed vanishes.1

end XorShift128

namespace XorShift1024

/-- A state of zeros. -/
def AllZero (self : XorShift1024) : Prop := ∀ word ∈ self.words, word = 0

/-- The word at a place of the array. -/
def word (self : XorShift1024) (place : Nat) : UInt64 := self.words.getD place 0

theorem allZero_iff {self : XorShift1024} : self.AllZero ↔ ∀ place < 16, self.word place = 0 := by
  constructor
  · intro zeros place inside
    rw [word, List.getD_eq_getElem _ _ (by rw [self.length_words]; exact inside)]
    exact zeros _ (List.getElem_mem _)
  · intro zeros element member
    obtain ⟨place, inside, rfl⟩ := List.mem_iff_getElem.mp member
    have zero := zeros place (by rw [← self.length_words]; exact inside)
    rwa [word, List.getD_eq_getElem _ _ inside] at zero

theorem p_bits64 (self : XorShift1024) : self.bits64.2.p = (self.p + 1) % 16 :=
  Nat.and_two_pow_sub_one_eq_mod (self.p + 1) 4

theorem word_bits64 (self : XorShift1024) (place : Nat) :
    self.bits64.2.word place =
      if place = (self.p + 1) % 16 then
        mixed (self.word self.p) (self.word ((self.p + 1) % 16))
      else self.word place := by
  have inside : self.bits64.2.p < self.words.length := by
    rw [p_bits64, self.length_words]
    exact Nat.mod_lt _ (by decide)
  change (self.words.set self.bits64.2.p
    (mixed (self.word self.p) (self.word self.bits64.2.p))).getD place 0 = _
  rw [List.getD_eq_getElem?_getD, List.getElem?_set, if_pos inside, p_bits64]
  by_cases here : place = (self.p + 1) % 16
  · rw [if_pos here, if_pos here.symm, Option.getD_some]
  · rw [if_neg here, if_neg (Ne.symm here), ← List.getD_eq_getElem?_getD, word]

theorem value_bits64 (self : XorShift1024) :
    self.bits64.1 =
      mixed (self.word self.p) (self.word ((self.p + 1) % 16)) * 0x9e3779b97f4a7c13 := by
  rw [← p_bits64]
  rfl

theorem eq_zero_of_mixed {state1 : UInt64} (vanishes : mixed 0 state1 = 0) : state1 = 0 := by
  apply eq_zero_of_xor_shiftLeft (by decide : 0 < (31 : UInt64).toNat % 64)
  apply eq_zero_of_xor_shiftRight (by decide : 0 < (11 : UInt64).toNat % 64)
  simpa [mixed] using vanishes

theorem allZero_of_bits64 {self : XorShift1024} (inside : self.p < 16)
    (vanishes : self.bits64.2.AllZero) : self.AllZero := by
  rw [allZero_iff] at vanishes ⊢
  have moved : self.p ≠ (self.p + 1) % 16 := by omega
  have first : self.word self.p = 0 := by
    have zero := vanishes self.p inside
    rwa [word_bits64, if_neg moved] at zero
  intro place place_lt
  have zero := vanishes place place_lt
  rw [word_bits64] at zero
  by_cases here : place = (self.p + 1) % 16
  · rw [if_pos here, first, ← here] at zero
    exact eq_zero_of_mixed zero
  · rwa [if_neg here] at zero

/-- The index stays inside, and some word is not zero. -/
def Alive (self : XorShift1024) : Prop := self.p < 16 ∧ ¬self.AllZero

theorem takesHalves : TakesHalves XorShift1024 := fun _ => rfl

theorem alive_draw (self : XorShift1024) (kind : Draw) (alive : self.Alive) :
    (draw self kind).2.Alive := by
  rw [takesHalves.draw_snd]
  refine ⟨?_, fun vanishes => alive.2 (allZero_of_bits64 alive.1 vanishes)⟩
  exact (p_bits64 self).trans_lt (Nat.mod_lt _ (by decide))

theorem alive_ofSeed (seed : UInt64) : (ofSeed seed).Alive := by
  refine ⟨Nat.zero_lt_succ 15, fun vanishes => ?_⟩
  exact mix64_seed_ne_zero seed (vanishes _ (List.mem_cons_self ..))

end XorShift1024

end Fusion.Random
