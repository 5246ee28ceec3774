import Fusion.Random.Liveness

/-!
# Seeds

The first draws of a generator determine its state, and the constructors make different states of
different seeds, so that no two seeds give the same numbers.  Only the seed zero stands for one.
-/

namespace Fusion.Random

open XorLinear

/-- Two generators draw the same so many times. -/
def SameDraws {σ : Type} [RandomState σ] (kind : Draw) (count : Nat) (left right : σ) : Prop :=
  ∀ time < count, valueAt (fun _ => kind) left time = valueAt (fun _ => kind) right time

/-! ## Mixing -/

section Words

theorem xor_exchange (left right other another : UInt64) :
    (left ^^^ right) ^^^ (other ^^^ another) = (left ^^^ other) ^^^ (right ^^^ another) := by
  ac_rfl

theorem injective_of_xor {mix : UInt64 → UInt64}
    (linear : ∀ left right, mix (left ^^^ right) = mix left ^^^ mix right)
    (kernel : ∀ value, mix value = 0 → value = 0) : Function.Injective mix := by
  intro left right same
  have difference : left ^^^ right = 0 := by
    apply kernel
    rw [linear, same, UInt64.xor_self]
  exact UInt64.xor_eq_zero_iff.mp difference

variable {count : UInt64}

theorem xorShiftRight_injective (shifts : 0 < count.toNat % 64) :
    Function.Injective fun value : UInt64 => value ^^^ (value >>> count) := by
  refine injective_of_xor (fun left right => ?_) fun _ => eq_zero_of_xor_shiftRight shifts
  rw [UInt64.shiftRight_xor, xor_exchange]

theorem xorShiftLeft_injective (shifts : 0 < count.toNat % 64) :
    Function.Injective fun value : UInt64 => value ^^^ (value <<< count) := by
  refine injective_of_xor (fun left right => ?_) fun _ => eq_zero_of_xor_shiftLeft shifts
  rw [UInt64.shiftLeft_xor, xor_exchange]

theorem mul_injective {factor inverse : UInt64} (unit : factor * inverse = 1) :
    Function.Injective fun value : UInt64 => value * factor := by
  intro left right same
  have product := congrArg (· * inverse) same
  simpa only [UInt64.mul_assoc, unit, UInt64.mul_one] using product

theorem mix64_injective : Function.Injective mix64 := by
  have shifted := xorShiftRight_injective (by decide : 0 < (33 : UInt64).toNat % 64)
  have first := mul_injective (by decide : (0xff51afd7ed558ccd : UInt64) * 0x4f74430c22a54005 = 1)
  have second := mul_injective (by decide : (0xc4ceb9fe1a85ec53 : UInt64) * 0x9cb4b2f8129337db = 1)
  exact ((((shifted.comp second).comp shifted).comp first).comp shifted)

theorem seed_eq_iff (left right : UInt64) :
    (if left = 0 then 1 else left) = (if right = 0 then 1 else right) ↔
      left = right ∨ left ≤ 1 ∧ right ≤ 1 := by
  simp only [UInt64.le_iff_toNat_le, ← UInt64.toNat_inj, UInt64.toNat_zero, apply_ite UInt64.toNat,
    UInt64.toNat_one]
  split_ifs <;> omega

end Words

/-! ## States told apart by draws -/

namespace XorShift32

theorem stateAt_bits32 (self : XorShift32) (time : Nat) :
    (stateAt (fun _ => .bits32) self time).state = next^[time] self.state := by
  induction time with
  | zero => rfl
  | succ time ih =>
    rw [Function.iterate_succ_apply', ← ih]
    rfl

theorem eq_of_sameDraws {left right : XorShift32} (same : SameDraws .bits32 32 left right) :
    left = right := by
  have code_eq : left.state.toNat = right.state.toNat := by
    apply pullsBack.code_eq (by decide : drawMask < 2 ^ 32) drawMask_spans left.state.toNat_lt
      right.state.toNat_lt
    intro steps steps_lt
    have drawn_eq : next (next^[steps] left.state) + next^[steps] left.state =
        next (next^[steps] right.state) + next^[steps] right.state := by
      rw [← stateAt_bits32, ← stateAt_bits32]
      exact UInt32.toUInt64_inj.mp (same steps steps_lt)
    rw [dot_drawMask, dot_drawMask, drawn_eq]
  obtain ⟨left⟩ := left
  obtain ⟨right⟩ := right
  exact congrArg XorShift32.mk (UInt32.toNat_inj.mp code_eq)

theorem ofSeed_eq_iff (left right : UInt32) :
    ofSeed left = ofSeed right ↔ left = right ∨ left ≤ 1 ∧ right ≤ 1 := by
  rw [ofSeed, ofSeed, mk.injEq]
  simp only [UInt32.le_iff_toNat_le, ← UInt32.toNat_inj, UInt32.toNat_zero, ne_eq,
    apply_ite UInt32.toNat, UInt32.toNat_one]
  split_ifs <;> omega

end XorShift32

namespace XorShift128

theorem code_lt (self : XorShift128) : self.code < 2 ^ 128 :=
  xor_shiftLeft_lt_both self.state0.toNat_lt self.state1.toNat_lt

variable {left right : XorShift128}

theorem eq_of_code_eq (same : left.code = right.code) : left = right := by
  have low := congrArg (· % 2 ^ 64) same
  have high := congrArg (· >>> 64) same
  simp only [code, xor_shiftLeft_mod (UInt64.toNat_lt _)] at low
  simp only [code, xor_shiftLeft_shiftRight (UInt64.toNat_lt _)] at high
  obtain ⟨left0, left1⟩ := left
  obtain ⟨right0, right1⟩ := right
  exact congrArg₂ XorShift128.mk (UInt64.toNat_inj.mp low) (UInt64.toNat_inj.mp high)

theorem eq_of_sameDraws (same : SameDraws .bits64 128 left right) : left = right := by
  apply eq_of_code_eq
  apply pullsBack.code_eq (by decide : drawMask < 2 ^ 128) drawMask_spans (code_lt left)
    (code_lt right)
  intro steps steps_lt
  rw [dot_drawMask, dot_drawMask, ← stateAt_eq fun _ => .bits64, ← stateAt_eq fun _ => .bits64]
  exact congrArg (fun value : UInt64 => value.toNat.testBit 0) (same steps steps_lt)

theorem ofSeed_eq_iff (left right : UInt64) :
    ofSeed left = ofSeed right ↔ left = right ∨ left ≤ 1 ∧ right ≤ 1 := by
  rw [← seed_eq_iff]
  constructor
  · intro same
    exact mix64_injective (congrArg XorShift128.state0 same)
  · intro same
    rw [ofSeed, ofSeed, same]

end XorShift128

namespace XorShift1024

variable {left right : XorShift1024}

theorem eq_of_word_eq (index_eq : left.p = right.p)
    (word_eq : ∀ place < 16, left.word place = right.word place) : left = right := by
  have words_eq : left.words = right.words := by
    refine List.ext_getElem (left.length_words.trans right.length_words.symm) ?_
    intro place left_lt right_lt
    have same := word_eq place (left.length_words ▸ left_lt)
    rwa [word, word, List.getD_eq_getElem _ _ left_lt, List.getD_eq_getElem _ _ right_lt] at same
  obtain ⟨left_words, left_p, _⟩ := left
  obtain ⟨right_words, right_p, _⟩ := right
  simp only at words_eq index_eq
  simp only [words_eq, index_eq]

theorem p_stateAt (schedule : Nat → Draw) (self : XorShift1024) (inside : self.p < 16)
    (time : Nat) : (stateAt schedule self time).p = (self.p + time) % 16 := by
  induction time with
  | zero => exact (Nat.mod_eq_of_lt inside).symm
  | succ time ih =>
    rw [stateAt_succ, p_bits64, ih]
    omega

theorem mixed_right_injective (state0 : UInt64) : Function.Injective (mixed state0) := by
  have shifted := (xorShiftRight_injective (by decide : 0 < (11 : UInt64).toNat % 64)).comp
    (xorShiftLeft_injective (by decide : 0 < (31 : UInt64).toNat % 64))
  intro left right same
  apply shifted
  have parted : ∀ state1, mixed state0 state1 =
      (state1 ^^^ (state1 <<< 31) ^^^ ((state1 ^^^ (state1 <<< 31)) >>> 11)) ^^^
        (state0 ^^^ (state0 >>> 30)) := by
    intro state1
    rw [mixed, UInt64.xor_assoc (_ ^^^ state0), xor_exchange]
  rw [parted, parted] at same
  exact UInt64.xor_left_inj _ |>.mp same

/-- The words that sixteen draws write are known, and with them those that the draws replace: the
last word that is not known was mixed with a known one into another known one. -/
theorem oldest_eq_of_later {schedule : Nat → Draw} (left_inside : left.p < 16)
    (right_inside : right.p < 16)
    (later : ∀ time < 16, oldest schedule left (time + 16) = oldest schedule right (time + 16)) :
    ∀ back ≤ 16, ∀ time < 16 + back,
      oldest schedule left (time + (16 - back)) = oldest schedule right (time + (16 - back)) := by
  have inside : ∀ {self : XorShift1024} (time), self.p < 16 →
      (stateAt schedule self time).p < 16 := by
    intro self time inside
    rw [p_stateAt schedule self inside]
    exact Nat.mod_lt _ (by decide)
  intro back
  induction back with
  | zero => exact fun _ => later
  | succ back ih =>
    intro back_le time time_lt
    have known := ih (by omega)
    cases time with
    | succ time =>
      have same := known time (by omega)
      rwa [show time + (16 - back) = time + 1 + (16 - (back + 1)) by omega] at same
    | zero =>
      rw [Nat.zero_add]
      have newest := known 15 (by omega)
      have previous := known 14 (by omega)
      rw [show 15 + (16 - back) = 16 - (back + 1) + 16 by omega,
        oldest_add_sixteen schedule left (inside _ left_inside),
        oldest_add_sixteen schedule right (inside _ right_inside)] at newest
      rw [show 14 + (16 - back) = 16 - (back + 1) + 15 by omega] at previous
      rw [previous] at newest
      exact mixed_right_injective _ newest

/-- Sixteen draws tell the state apart from the others with its index. -/
theorem eq_of_sameDraws (left_inside : left.p < 16) (index_eq : left.p = right.p)
    (same : SameDraws .bits64 16 left right) : left = right := by
  have right_inside : right.p < 16 := index_eq ▸ left_inside
  have later : ∀ time < 16, oldest (fun _ => .bits64) left (time + 16) =
      oldest (fun _ => .bits64) right (time + 16) := by
    intro time time_lt
    have value_eq := same time time_lt
    simp only [valueAt, draw, RandomState.bits64] at value_eq
    have left_p := p_stateAt (fun _ => .bits64) left left_inside time
    have right_p := p_stateAt (fun _ => .bits64) right right_inside time
    rw [value_eq_oldest _ left (by omega), value_eq_oldest _ right (by omega)] at value_eq
    exact mul_injective
      (by decide : (0x9e3779b97f4a7c13 : UInt64) * 0x3fbd78d0fbf0ae1b = 1) value_eq
  have known := oldest_eq_of_later left_inside right_inside later 16 (Nat.le_refl 16)
  refine eq_of_word_eq index_eq ?_
  intro place place_lt
  -- The place is so many places behind the index.
  obtain ⟨behind, behind_lt, place_eq⟩ : ∃ behind < 16, (left.p + 1 + behind) % 16 = place :=
    ⟨(place + 31 - left.p) % 16, Nat.mod_lt _ (by decide), by omega⟩
  have left_word := word_eq_oldest (fun _ => .bits64) left behind_lt 0
  have right_word := word_eq_oldest (fun _ => .bits64) right behind_lt 0
  rw [Nat.zero_add] at left_word right_word
  have same_word := known behind (by omega)
  rw [Nat.sub_self, Nat.add_zero, ← left_word, ← right_word] at same_word
  simp only [stateAt] at same_word
  rwa [← index_eq, place_eq] at same_word

theorem ofSeed_eq_iff (left right : UInt64) :
    ofSeed left = ofSeed right ↔ left = right ∨ left ≤ 1 ∧ right ≤ 1 := by
  rw [← seed_eq_iff]
  constructor
  · intro same
    have words_eq := congrArg XorShift1024.words same
    exact mix64_injective (List.cons.inj words_eq).1
  · intro same
    simp only [ofSeed, same]

end XorShift1024

/-- The numbers that a generator draws first tell its seed, but for the seeds zero and one. -/
theorem sameDraws_ofSeed_iff :
    (∀ left right : UInt32,
      SameDraws .bits32 32 (XorShift32.ofSeed left) (XorShift32.ofSeed right) ↔
        left = right ∨ left ≤ 1 ∧ right ≤ 1) ∧
    (∀ left right : UInt64,
      SameDraws .bits64 128 (XorShift128.ofSeed left) (XorShift128.ofSeed right) ↔
        left = right ∨ left ≤ 1 ∧ right ≤ 1) ∧
    ∀ left right : UInt64,
      SameDraws .bits64 16 (XorShift1024.ofSeed left) (XorShift1024.ofSeed right) ↔
        left = right ∨ left ≤ 1 ∧ right ≤ 1 := by
  refine ⟨fun left right => ?_, fun left right => ?_, fun left right => ?_⟩
  · rw [← XorShift32.ofSeed_eq_iff]
    exact ⟨XorShift32.eq_of_sameDraws, fun same _ _ => by rw [same]⟩
  · rw [← XorShift128.ofSeed_eq_iff]
    exact ⟨XorShift128.eq_of_sameDraws, fun same _ _ => by rw [same]⟩
  · rw [← XorShift1024.ofSeed_eq_iff]
    exact ⟨XorShift1024.eq_of_sameDraws (XorShift1024.alive_ofSeed left).1 rfl,
      fun same _ _ => by rw [same]⟩

end Fusion.Random
