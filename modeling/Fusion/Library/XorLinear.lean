import Mathlib.Data.List.Iterate
import Mathlib.Logic.Function.Iterate

/-!
# Linear maps of words

Shifts and exclusive ors are linear over the field with two elements.  A word is zero if it equals
its own shift.  A mask asks for the parity of some of the bits of a word; to ask a mask of the image
of a word under a linear map is to ask another mask of the word.  If the masks that are asked along
an orbit span all masks, then a word that answers all of them with zero is zero.
-/

namespace XorLinear

/-! ## Words that equal their shifts -/

section Words

variable {width : Nat} {word : BitVec width} {count : Nat}

section

variable (positive : 0 < count)
include positive

theorem eq_zero_of_eq_shiftRight (same : word = word >>> count) : word = 0 := by
  have value_eq := congrArg BitVec.toNat same
  rw [BitVec.toNat_ushiftRight, Nat.shiftRight_eq_div_pow] at value_eq
  apply BitVec.eq_of_toNat_eq
  by_contra nonzero
  have smaller := Nat.div_lt_self (Nat.pos_of_ne_zero nonzero) (Nat.one_lt_two_pow positive.ne')
  omega

theorem eq_zero_of_eq_shiftLeft (same : word = word <<< count) : word = 0 := by
  have repeated : ∀ times, word = word <<< (times * count) := by
    intro times
    induction times with
    | zero => simp
    | succ times ih =>
      rw [Nat.succ_mul, BitVec.shiftLeft_add, ← ih]
      exact same
  rw [repeated width]
  exact BitVec.shiftLeft_eq_zero (Nat.le_mul_of_pos_right _ positive)

theorem xor_shiftRight_eq_zero (vanishes : word ^^^ (word >>> count) = 0) : word = 0 :=
  eq_zero_of_eq_shiftRight positive (BitVec.xor_eq_zero_iff.mp vanishes)

theorem xor_shiftLeft_eq_zero (vanishes : word ^^^ (word <<< count) = 0) : word = 0 :=
  eq_zero_of_eq_shiftLeft positive (BitVec.xor_eq_zero_iff.mp vanishes)

end

/-- A rotated word has as many bits as before. -/
theorem rotated_eq_zero (inside : count ≤ width)
    (vanishes : (word <<< count) ||| (word >>> (width - count)) = 0) : word = 0 := by
  obtain ⟨low_zero, high_zero⟩ := BitVec.or_eq_zero_iff.mp vanishes
  have high_value := (congrArg BitVec.toNat high_zero).trans BitVec.toNat_zero
  have low_value := (congrArg BitVec.toNat low_zero).trans BitVec.toNat_zero
  rw [BitVec.toNat_ushiftRight, Nat.shiftRight_eq_div_pow,
    Nat.div_eq_zero_iff_lt (Nat.two_pow_pos _)] at high_value
  have no_overflow : word.toNat * 2 ^ count < 2 ^ width := by
    calc word.toNat * 2 ^ count < 2 ^ (width - count) * 2 ^ count :=
          Nat.mul_lt_mul_of_pos_right high_value (Nat.two_pow_pos _)
      _ = 2 ^ width := by rw [← Nat.pow_add, Nat.sub_add_cancel inside]
  rw [BitVec.toNat_shiftLeft, Nat.shiftLeft_eq, Nat.mod_eq_of_lt no_overflow] at low_value
  apply BitVec.eq_of_toNat_eq
  exact (Nat.mul_eq_zero.mp low_value).resolve_right (Nat.two_pow_pos _).ne'

end Words

/-! ## Parity -/

/-- Whether a number has an odd number of bits. -/
def parity (number : Nat) : Bool :=
  if number = 0 then false else xor (number.testBit 0) (parity (number / 2))

@[simp] theorem parity_zero : parity 0 = false := by
  rw [parity, if_pos rfl]

theorem parity_eq (number : Nat) :
    parity number = xor (number.testBit 0) (parity (number / 2)) := by
  by_cases zero : number = 0
  · simp [zero]
  · rw [parity, if_neg zero]

theorem parity_xor (left right : Nat) :
    parity (left ^^^ right) = xor (parity left) (parity right) := by
  induction left using Nat.strongRecOn generalizing right with
  | ind left ih =>
    by_cases zero : left = 0
    · rw [zero, Nat.zero_xor, parity_zero, Bool.false_xor]
    · have smaller : left / 2 < left := Nat.div_lt_self (Nat.pos_of_ne_zero zero) (by decide)
      rw [parity_eq (left ^^^ right), Nat.testBit_xor, Nat.xor_div_two, ih _ smaller,
        parity_eq left, parity_eq right, Bool.xor_assoc, Bool.xor_assoc,
        Bool.xor_left_comm (right.testBit 0)]

theorem parity_shiftLeft (number count : Nat) : parity (number <<< count) = parity number := by
  induction count with
  | zero => rfl
  | succ count ih =>
    rw [Nat.shiftLeft_succ, parity_eq, Nat.mul_div_cancel_left _ (by decide), ih]
    simp

/-! ## Masks -/

/-- The parity of the bits of a word that a mask asks for. -/
def dot (mask word : Nat) : Bool := parity (mask &&& word)

section Masks

variable (mask other word : Nat)

theorem dot_comm : dot mask word = dot word mask := by
  rw [dot, Nat.and_comm, dot]

theorem dot_xor_left : dot (mask ^^^ other) word = xor (dot mask word) (dot other word) := by
  rw [dot, Nat.and_xor_distrib_right, parity_xor, dot, dot]

theorem dot_xor_right : dot mask (word ^^^ other) = xor (dot mask word) (dot mask other) := by
  rw [dot, Nat.and_xor_distrib_left, parity_xor, dot, dot]

/-- To ask a shifted word is to ask with the mask shifted back. -/
theorem dot_shiftLeft (count : Nat) : dot mask (word <<< count) = dot (mask >>> count) word := by
  have shifted : mask &&& (word <<< count) = ((mask >>> count) &&& word) <<< count := by
    apply Nat.eq_of_testBit_eq
    intro i
    simp only [Nat.testBit_and, Nat.testBit_shiftLeft, Nat.testBit_shiftRight]
    by_cases behind : count ≤ i
    · simp [behind]
    · simp [behind]
  rw [dot, shifted, parity_shiftLeft, dot]

theorem dot_shiftRight (count : Nat) : dot mask (word >>> count) = dot (mask <<< count) word := by
  rw [dot_comm, ← dot_shiftLeft, dot_comm]

variable {mask word} {width : Nat}

/-- A mask does not ask for bits that it does not have. -/
theorem dot_mod_right (small : mask < 2 ^ width) : dot mask (word % 2 ^ width) = dot mask word := by
  have kept : mask &&& (word % 2 ^ width) = mask &&& word := by
    apply Nat.eq_of_testBit_eq
    intro i
    rw [Nat.testBit_and, Nat.testBit_and, Nat.testBit_mod_two_pow]
    by_cases inside : i < width
    · simp [inside]
    · have absent : mask.testBit i = false :=
        Nat.testBit_lt_two_pow (small.trans_le (Nat.pow_le_pow_right (by decide) (by omega)))
      simp [absent]
  rw [dot, kept, dot]

theorem dot_mod_left (small : word < 2 ^ width) : dot (mask % 2 ^ width) word = dot mask word := by
  rw [dot_comm, dot_mod_right small, dot_comm]

theorem xor_shiftRight_lt (small : mask < 2 ^ width) (count : Nat) :
    mask ^^^ (mask >>> count) < 2 ^ width :=
  Nat.xor_lt_two_pow small ((Nat.shiftRight_le mask count).trans_lt small)

theorem xor_shiftLeft_lt (small : mask < 2 ^ width) (count : Nat) :
    mask ^^^ (mask <<< count) % 2 ^ width < 2 ^ width :=
  Nat.xor_lt_two_pow small (Nat.mod_lt _ (Nat.two_pow_pos width))

theorem dot_xor_shiftLeft (small : mask < 2 ^ width) (count : Nat) :
    dot mask (word ^^^ (word <<< count) % 2 ^ width) = dot (mask ^^^ (mask >>> count)) word := by
  rw [dot_xor_right, dot_mod_right small, dot_shiftLeft, dot_xor_left]

theorem dot_xor_shiftRight (small : word < 2 ^ width) (count : Nat) :
    dot mask (word ^^^ (word >>> count)) = dot (mask ^^^ (mask <<< count) % 2 ^ width) word := by
  rw [dot_xor_right, dot_shiftRight, dot_xor_left, dot_mod_left small]

/-- A mask turned back by so many of `width` places. -/
def turnedBack (width count mask : Nat) : Nat :=
  (mask >>> count) ^^^ (mask <<< (width - count)) % 2 ^ width

theorem turnedBack_lt (small : mask < 2 ^ width) (count : Nat) :
    turnedBack width count mask < 2 ^ width :=
  Nat.xor_lt_two_pow ((Nat.shiftRight_le mask count).trans_lt small)
    (Nat.mod_lt _ (Nat.two_pow_pos width))

/-- To ask a rotated word is to ask with the mask turned back. -/
theorem dot_rotated (mask_small : mask < 2 ^ width) (small : word < 2 ^ width) {count : Nat}
    (inside : count ≤ width) :
    dot mask ((word <<< count) % 2 ^ width ||| (word >>> (width - count))) =
      dot (turnedBack width count mask) word := by
  have parts_apart : (word <<< count) % 2 ^ width ||| (word >>> (width - count)) =
      (word <<< count) % 2 ^ width ^^^ (word >>> (width - count)) := by
    apply Nat.eq_of_testBit_eq
    intro i
    rw [Nat.testBit_or, Nat.testBit_xor, Nat.testBit_mod_two_pow, Nat.testBit_shiftLeft,
      Nat.testBit_shiftRight]
    by_cases before : i < count
    · simp [Nat.not_le.mpr before]
    · have absent : word.testBit (width - count + i) = false :=
        Nat.testBit_lt_two_pow (small.trans_le (Nat.pow_le_pow_right (by decide) (by omega)))
      simp [absent]
  rw [parts_apart, dot_xor_right, dot_mod_right mask_small, dot_shiftLeft, dot_shiftRight,
    turnedBack, dot_xor_left, dot_mod_left small]

end Masks

theorem parity_one : parity 1 = true := by
  rw [parity_eq]
  simp

/-- A word of one bit tells whether a mask asks for it. -/
theorem dot_two_pow (mask bit : Nat) : dot mask (2 ^ bit) = mask.testBit bit := by
  rw [← Nat.one_shiftLeft, dot_shiftLeft, dot, Nat.and_one_is_mod, Nat.testBit_eq_decide_div_mod_eq,
    ← Nat.shiftRight_eq_div_pow]
  rcases Nat.mod_two_eq_zero_or_one (mask >>> bit) with even | odd
  · rw [even, parity_zero]
    rfl
  · rw [odd, parity_one]
    rfl

theorem dot_one (word : Nat) : dot 1 word = word.testBit 0 := by
  rw [dot_comm]
  exact dot_two_pow word 0

/-- The last bit of a sum is linear in the words. -/
theorem testBit_zero_add (left right : Nat) {width : Nat} (positive : 0 < width) :
    ((left + right) % 2 ^ width).testBit 0 = xor (left.testBit 0) (right.testBit 0) := by
  rw [Nat.testBit_mod_two_pow, decide_eq_true positive, Bool.true_and, Nat.testBit_zero,
    Nat.testBit_zero, Nat.testBit_zero, Nat.add_mod]
  rcases Nat.mod_two_eq_zero_or_one left with left_eq | left_eq <;>
    rcases Nat.mod_two_eq_zero_or_one right with right_eq | right_eq <;>
      rw [left_eq, right_eq] <;> rfl

/-! ## Spanning masks -/

/-- A mask without a bit that the pivot has, too. -/
def reduced (bit pivot mask : Nat) : Nat := if mask.testBit bit then mask ^^^ pivot else mask

/-- Whether the masks span all masks of so many bits: for each bit, from the last one down, some
mask asks for it and is added to the others that do. -/
def spans : Nat → List Nat → Bool
  | 0, _ => true
  | bit + 1, masks =>
    match masks.find? (·.testBit bit) with
    | none => false
    | some pivot =>
      spans bit (masks.map (reduced bit pivot))

section Elimination

variable {bit pivot mask word : Nat}

theorem reduced_lt (pivot_bit : pivot.testBit bit = true) (pivot_lt : pivot < 2 ^ (bit + 1))
    (mask_lt : mask < 2 ^ (bit + 1)) : reduced bit pivot mask < 2 ^ bit := by
  have bounded : reduced bit pivot mask < 2 ^ (bit + 1) := by
    rw [reduced]
    split
    · exact Nat.xor_lt_two_pow mask_lt pivot_lt
    · exact mask_lt
  have cleared : (reduced bit pivot mask).testBit bit = false := by
    rw [reduced]
    cases asked : mask.testBit bit with
    | true => simp [asked, pivot_bit]
    | false => simpa using asked
  apply Nat.lt_pow_two_of_testBit
  intro i behind
  rcases Nat.lt_or_eq_of_le behind with beyond | rfl
  · exact Nat.testBit_lt_two_pow (bounded.trans_le (Nat.pow_le_pow_right (by decide) beyond))
  · exact cleared

theorem dot_reduced (pivot_vanishes : dot pivot word = false) :
    dot (reduced bit pivot mask) word = dot mask word := by
  rw [reduced]
  split
  · rw [dot_xor_left, pivot_vanishes, Bool.xor_false]
  · rfl

end Elimination

/-- A word of which spanning masks know nothing is zero. -/
theorem eq_zero_of_spans {width word : Nat} {masks : List Nat} (spanning : spans width masks = true)
    (small : ∀ mask ∈ masks, mask < 2 ^ width) (word_small : word < 2 ^ width)
    (vanishes : ∀ mask ∈ masks, dot mask word = false) : word = 0 := by
  induction width generalizing word masks with
  | zero => simpa using word_small
  | succ bit ih =>
    rw [spans] at spanning
    cases found : masks.find? (·.testBit bit) with
    | none =>
      rw [found] at spanning
      cases spanning
    | some pivot =>
      rw [found] at spanning
      have pivot_mem := List.mem_of_find?_eq_some found
      have pivot_bit : pivot.testBit bit = true := by simpa using List.find?_some found
      have reduced_small : ∀ mask ∈ masks, reduced bit pivot mask < 2 ^ bit :=
        fun mask member => reduced_lt pivot_bit (small pivot pivot_mem) (small mask member)
      -- The other masks know nothing of the lower bits, and the pivot nothing of the last one.
      have low_zero : word % 2 ^ bit = 0 := by
        refine ih spanning ?_ (Nat.mod_lt _ (Nat.two_pow_pos bit)) ?_
        · rintro _ member
          obtain ⟨mask, mask_mem, rfl⟩ := List.mem_map.mp member
          exact reduced_small mask mask_mem
        · rintro _ member
          obtain ⟨mask, mask_mem, rfl⟩ := List.mem_map.mp member
          rw [dot_mod_right (reduced_small mask mask_mem),
            dot_reduced (vanishes pivot pivot_mem), vanishes mask mask_mem]
      by_contra nonzero
      have word_eq : word = 2 ^ bit := by
        obtain ⟨quotient, rfl⟩ := Nat.dvd_of_mod_eq_zero low_zero
        rw [Nat.pow_succ, Nat.mul_lt_mul_left (Nat.two_pow_pos bit)] at word_small
        have quotient_ne : quotient ≠ 0 := by
          rintro rfl
          exact nonzero (Nat.mul_zero _)
        rw [show quotient = 1 by omega, Nat.mul_one]
      have last := vanishes pivot pivot_mem
      rw [word_eq, dot_two_pow, pivot_bit] at last
      cases last

/-! ## Observing an orbit -/

section Orbit

variable {σ : Type*} {step : σ → σ} {code : σ → Nat} {pull : Nat → Nat} {width : Nat}

/-- Masks are pulled back along a step: asking the pulled mask of a state is asking the mask of the
next state. -/
structure PullsBack (step : σ → σ) (code : σ → Nat) (pull : Nat → Nat) (width : Nat) : Prop where
  small : ∀ mask < 2 ^ width, pull mask < 2 ^ width
  dot_pull : ∀ mask < 2 ^ width, ∀ state,
    dot (pull mask) (code state) = dot mask (code (step state))

theorem PullsBack.iterate (pulls : PullsBack step code pull width) {mask : Nat}
    (mask_small : mask < 2 ^ width) (count : Nat) :
    pull^[count] mask < 2 ^ width ∧
      ∀ state, dot (pull^[count] mask) (code state) = dot mask (code (step^[count] state)) := by
  induction count with
  | zero => exact ⟨mask_small, fun state => rfl⟩
  | succ count ih =>
    rw [Function.iterate_succ_apply']
    refine ⟨pulls.small _ ih.1, fun state => ?_⟩
    rw [pulls.dot_pull _ ih.1, ih.2, Function.iterate_succ_apply]

/-- A state of which the masks of an orbit know nothing is zero if they span all masks. -/
theorem PullsBack.eq_zero (pulls : PullsBack step code pull width) {mask count : Nat}
    (mask_small : mask < 2 ^ width) (spanning : spans width (List.iterate pull mask count) = true)
    {state : σ} (state_small : code state < 2 ^ width)
    (quiet : ∀ steps < count, dot mask (code (step^[steps] state)) = false) : code state = 0 := by
  apply eq_zero_of_spans spanning _ state_small
  · intro other member
    obtain ⟨steps, steps_lt, rfl⟩ := List.mem_iterate.mp member
    rw [(pulls.iterate mask_small steps).2, quiet steps steps_lt]
  · intro other member
    obtain ⟨steps, steps_lt, rfl⟩ := List.mem_iterate.mp member
    exact (pulls.iterate mask_small steps).1

/-- The masks of an orbit tell two states apart if they span all masks. -/
theorem PullsBack.code_eq (pulls : PullsBack step code pull width) {mask count : Nat}
    (mask_small : mask < 2 ^ width) (spanning : spans width (List.iterate pull mask count) = true)
    {left right : σ} (left_small : code left < 2 ^ width) (right_small : code right < 2 ^ width)
    (agree : ∀ steps < count,
      dot mask (code (step^[steps] left)) = dot mask (code (step^[steps] right))) :
    code left = code right := by
  have difference : code left ^^^ code right = 0 := by
    apply eq_zero_of_spans spanning _ (Nat.xor_lt_two_pow left_small right_small)
    · intro other member
      obtain ⟨steps, steps_lt, rfl⟩ := List.mem_iterate.mp member
      rw [dot_xor_right, (pulls.iterate mask_small steps).2, (pulls.iterate mask_small steps).2,
        agree steps steps_lt, Bool.xor_self]
    · intro other member
      obtain ⟨steps, steps_lt, rfl⟩ := List.mem_iterate.mp member
      exact (pulls.iterate mask_small steps).1
  rw [← Nat.xor_zero (code left), ← Nat.xor_self (code right), ← Nat.xor_assoc, difference,
    Nat.zero_xor]

end Orbit

end XorLinear
