import Fusion.Random.NonZero

/-!
# Observing the generators

The last bit of a draw of `XorShift32` or `XorShift128` is a linear function of the state.  As many
draws as the state has bits determine it, so a generator that is not all zero does not draw zeros
for so long.
-/

namespace Fusion.Random

open XorLinear

/-! ## `XorShift32` -/

variable {kind : Draw}

namespace XorShift32

/-- The mask of a state that asks for what a mask asks of the next one. -/
def pull (mask : Nat) : Nat :=
  let mask := mask ^^^ (mask >>> 5)
  let mask := mask ^^^ (mask <<< 17) % 2 ^ 32
  mask ^^^ (mask >>> 13)

theorem pullsBack : PullsBack next UInt32.toNat pull 32 := by
  refine ⟨fun mask small => ?_, fun mask small state => ?_⟩
  · exact xor_shiftRight_lt (xor_shiftLeft_lt (xor_shiftRight_lt small 5) 17) 13
  · -- The three shifts of a step are taken back one after the other.
    have first_small := xor_shiftLeft_lt state.toNat_lt 13
    have last_small := xor_shiftLeft_lt (xor_shiftRight_lt small 5) 17
    symm
    calc dot mask (next state).toNat
        = dot (mask ^^^ (mask >>> 5)) ((state ^^^ (state <<< 13)) ^^^
            ((state ^^^ (state <<< 13)) >>> 17)).toNat := dot_xor_shiftLeft small 5
      _ = dot ((mask ^^^ (mask >>> 5)) ^^^ ((mask ^^^ (mask >>> 5)) <<< 17) % 2 ^ 32)
            (state ^^^ (state <<< 13)).toNat := dot_xor_shiftRight first_small 17
      _ = dot (pull mask) state.toNat := dot_xor_shiftLeft last_small 13

/-- What the last bit of a draw asks of the state. -/
def drawMask : Nat := 1 ^^^ pull 1

theorem drawMask_spans : spans 32 (List.iterate pull drawMask 32) = true := by
  decide +kernel

theorem dot_drawMask (state : UInt32) :
    dot drawMask state.toNat = (next state + state).toNat.testBit 0 := by
  rw [drawMask, dot_xor_left, pullsBack.dot_pull 1 (by decide), dot_one, dot_one, Bool.xor_comm,
    UInt32.toNat_add, testBit_zero_add _ _ (by decide)]

theorem eq_zero_of_quiet {state : UInt32}
    (quiet : ∀ steps < 32, next (next^[steps] state) + next^[steps] state = 0) : state = 0 := by
  apply UInt32.toNat_inj.mp
  apply pullsBack.eq_zero (by decide : drawMask < 2 ^ 32) drawMask_spans state.toNat_lt
  intro steps steps_lt
  rw [dot_drawMask, quiet steps steps_lt]
  rfl

theorem halves_eq_zero {high low : UInt32}
    (vanishes : (high.toUInt64 <<< 32) ||| low.toUInt64 = 0) : high = 0 ∧ low = 0 := by
  obtain ⟨high_zero, low_zero⟩ := UInt64.or_eq_zero_iff.mp vanishes
  refine ⟨UInt32.toNat_inj.mp ?_, UInt32.toUInt64_inj.mp low_zero⟩
  have high_lt := high.toNat_lt
  have shifted := congrArg UInt64.toNat high_zero
  rw [UInt64.toNat_shiftLeft, UInt32.toNat_toUInt64, Nat.shiftLeft_eq, UInt64.toNat_zero] at shifted
  change high.toNat * 2 ^ 32 % 2 ^ 64 = 0 at shifted
  rw [UInt32.toNat_zero]
  omega

variable {self : XorShift32}

theorem quiet_of_draw (vanishes : (draw self kind).1 = 0) : next self.state + self.state = 0 := by
  cases kind with
  | bits32 => exact UInt32.toUInt64_inj.mp vanishes
  | bits64 => exact (halves_eq_zero vanishes).1

theorem quiet_of_valueAt {schedule : Nat → Draw} (zeros : ∀ time, valueAt schedule self time = 0)
    (steps : Nat) : next (next^[steps] self.state) + next^[steps] self.state = 0 := by
  -- A draw of 64 bits takes two steps.
  induction steps using Nat.twoStepInduction generalizing self schedule with
  | zero => exact quiet_of_draw (zeros 0)
  | one =>
    have first := zeros 0
    have behind := valueAt_tail zeros
    rw [valueAt] at first
    cases kind : schedule 0 with
    | bits32 =>
      rw [kind] at behind
      exact quiet_of_draw (behind 0)
    | bits64 =>
      rw [kind] at first
      exact (halves_eq_zero first).2
  | more steps behind_two behind_one =>
    have behind := valueAt_tail zeros
    cases kind : schedule 0 with
    | bits32 =>
      rw [kind] at behind
      exact behind_one behind
    | bits64 =>
      rw [kind] at behind
      exact behind_two behind

theorem productive (self : XorShift32) (alive : ¬self.AllZero) (schedule : Nat → Draw) :
    ¬∀ time, valueAt schedule self time = 0 :=
  fun zeros => alive (eq_zero_of_quiet fun steps _ => quiet_of_valueAt zeros steps)

end XorShift32

/-! ## `XorShift128` -/

namespace XorShift128

/-- The two words as one number. -/
def code (self : XorShift128) : Nat := self.state0.toNat ^^^ (self.state1.toNat <<< 64)

/-- What masks of the next words ask of the second word. -/
def pullSecond (mask0 mask1 : Nat) : Nat := (mask0 ^^^ (mask0 >>> 14)) ^^^ turnedBack 64 36 mask1

/-- What masks of the next words ask of the first word. -/
def pullFirst (mask0 mask1 : Nat) : Nat := turnedBack 64 55 mask0 ^^^ pullSecond mask0 mask1

/-- The mask of a state that asks for what a mask asks of the next one. -/
def pull (mask : Nat) : Nat :=
  pullFirst (mask % 2 ^ 64) (mask >>> 64) ^^^ (pullSecond (mask % 2 ^ 64) (mask >>> 64) <<< 64)

variable {low : Nat}

theorem xor_shiftLeft_mod (small : low < 2 ^ 64) (high : Nat) :
    (low ^^^ (high <<< 64)) % 2 ^ 64 = low := by
  rw [Nat.xor_mod_two_pow, Nat.shiftLeft_eq, Nat.mul_mod_left, Nat.xor_zero, Nat.mod_eq_of_lt small]

theorem xor_shiftLeft_shiftRight (small : low < 2 ^ 64) (high : Nat) :
    (low ^^^ (high <<< 64)) >>> 64 = high := by
  rw [Nat.shiftRight_xor_distrib, Nat.shiftLeft_shiftRight, Nat.shiftRight_eq_div_pow,
    Nat.div_eq_of_lt small, Nat.zero_xor]

theorem dot_code (mask : Nat) (self : XorShift128) :
    dot mask self.code =
      xor (dot (mask % 2 ^ 64) self.state0.toNat) (dot (mask >>> 64) self.state1.toNat) := by
  rw [code, dot_xor_right, dot_shiftLeft, dot_mod_left self.state0.toNat_lt]

theorem xor_shiftLeft_lt_both {high : Nat} (low_small : low < 2 ^ 64) (high_small : high < 2 ^ 64) :
    low ^^^ (high <<< 64) < 2 ^ 128 := by
  apply Nat.xor_lt_two_pow
  · exact low_small.trans (by decide)
  · rw [Nat.shiftLeft_eq]
    omega

theorem allZero_of_code {self : XorShift128} (vanishes : self.code = 0) : self.AllZero := by
  have first := xor_shiftLeft_mod self.state0.toNat_lt self.state1.toNat
  have second := xor_shiftLeft_shiftRight self.state0.toNat_lt self.state1.toNat
  rw [← code, vanishes] at first second
  exact ⟨UInt64.toNat_inj.mp first.symm, UInt64.toNat_inj.mp second.symm⟩

theorem dot_rotl {mask : Nat} (small : mask < 2 ^ 64) (value : UInt64) {count : UInt64} {turn : Nat}
    (turn_eq : count.toNat % 64 = turn) (back : (64 - count).toNat % 64 = 64 - turn)
    (inside : turn ≤ 64) :
    dot mask (rotl value count).toNat = dot (turnedBack 64 turn mask) value.toNat := by
  rw [rotl, UInt64.toNat_or, UInt64.toNat_shiftLeft, UInt64.toNat_shiftRight, turn_eq, back]
  exact dot_rotated small value.toNat_lt inside

section Words

variable {mask0 mask1 : Nat} (small0 : mask0 < 2 ^ 64) (small1 : mask1 < 2 ^ 64)
include small0 small1

theorem pullSecond_lt : pullSecond mask0 mask1 < 2 ^ 64 :=
  Nat.xor_lt_two_pow (xor_shiftRight_lt small0 14) (turnedBack_lt small1 36)

theorem pullFirst_lt : pullFirst mask0 mask1 < 2 ^ 64 :=
  Nat.xor_lt_two_pow (turnedBack_lt small0 55) (pullSecond_lt small0 small1)

theorem dot_bits64 (self : XorShift128) :
    xor (dot mask0 self.bits64.2.state0.toNat) (dot mask1 self.bits64.2.state1.toNat) =
      xor (dot (pullFirst mask0 mask1) self.state0.toNat)
        (dot (pullSecond mask0 mask1) self.state1.toNat) := by
  -- Both of the next words take in the sum of the words.
  let sum := self.state1 ^^^ self.state0
  have sum_eq : sum.toNat = self.state1.toNat ^^^ self.state0.toNat := UInt64.toNat_xor ..
  have first : dot mask0 self.bits64.2.state0.toNat =
      xor (dot (turnedBack 64 55 mask0) self.state0.toNat)
        (dot (mask0 ^^^ (mask0 >>> 14)) sum.toNat) := by
    change dot mask0 (rotl self.state0 55 ^^^ sum ^^^ (sum <<< 14)).toNat = _
    rw [UInt64.xor_assoc, UInt64.toNat_xor, dot_xor_right,
      dot_rotl small0 self.state0 rfl rfl (by decide)]
    congr 1
    exact dot_xor_shiftLeft small0 14
  have second : dot mask1 self.bits64.2.state1.toNat = dot (turnedBack 64 36 mask1) sum.toNat :=
    dot_rotl small1 sum rfl rfl (by decide)
  rw [first, second, Bool.xor_assoc, ← dot_xor_left, ← pullSecond, sum_eq, dot_xor_right,
    pullFirst, dot_xor_left, Bool.xor_assoc, Bool.xor_comm (dot _ self.state1.toNat)]

end Words

theorem pullsBack : PullsBack (fun self => self.bits64.2) code pull 128 := by
  have halves : ∀ mask < 2 ^ 128, mask % 2 ^ 64 < 2 ^ 64 ∧ mask >>> 64 < 2 ^ 64 := by
    intro mask small
    rw [Nat.shiftRight_eq_div_pow]
    exact ⟨Nat.mod_lt _ (by decide), Nat.div_lt_of_lt_mul small⟩
  refine ⟨fun mask small => ?_, fun mask small self => ?_⟩
  · obtain ⟨small0, small1⟩ := halves mask small
    exact xor_shiftLeft_lt_both (pullFirst_lt small0 small1) (pullSecond_lt small0 small1)
  · obtain ⟨small0, small1⟩ := halves mask small
    have first_lt := pullFirst_lt small0 small1
    rw [dot_code, dot_code, pull, xor_shiftLeft_mod first_lt, xor_shiftLeft_shiftRight first_lt,
      dot_bits64 small0 small1]

/-- What the last bit of a draw asks of the state. -/
def drawMask : Nat := 1 ^^^ (1 <<< 64)

theorem drawMask_spans : spans 128 (List.iterate pull drawMask 128) = true := by
  decide +kernel

theorem dot_drawMask (self : XorShift128) :
    dot drawMask self.code = self.bits64.1.toNat.testBit 0 := by
  have sum_eq : self.bits64.1.toNat = (self.state0.toNat + self.state1.toNat) % 2 ^ 64 :=
    UInt64.toNat_add ..
  rw [dot_code, drawMask, xor_shiftLeft_mod (by decide), xor_shiftLeft_shiftRight (by decide),
    dot_one, dot_one, sum_eq, testBit_zero_add _ _ (by decide)]

theorem stateAt_eq (schedule : Nat → Draw) (self : XorShift128) (time : Nat) :
    stateAt schedule self time = (fun self => self.bits64.2)^[time] self := by
  induction time with
  | zero => rfl
  | succ time ih =>
    rw [Function.iterate_succ_apply', ← ih]
    exact takesHalves.draw_snd _ _

theorem testBit_of_draw {self : XorShift128} (vanishes : (draw self kind).1 = 0) :
    self.bits64.1.toNat.testBit 0 = false := by
  have low_zero : self.bits64.1.toNat % 2 ^ 32 = 0 :=
    congrArg UInt32.toNat (takesHalves.low_half_of_draw vanishes)
  rw [Nat.testBit_zero]
  exact decide_eq_false (by omega)

theorem productive (self : XorShift128) (alive : ¬self.AllZero) (schedule : Nat → Draw) :
    ¬∀ time, valueAt schedule self time = 0 := by
  intro zeros
  apply alive
  apply allZero_of_code
  apply pullsBack.eq_zero (by decide : drawMask < 2 ^ 128) drawMask_spans
    (xor_shiftLeft_lt_both self.state0.toNat_lt self.state1.toNat_lt)
  intro steps _
  rw [dot_drawMask, ← stateAt_eq schedule]
  exact testBit_of_draw (zeros steps)

end XorShift128

end Fusion.Random
