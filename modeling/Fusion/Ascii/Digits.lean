import Fusion.Ascii.Hex
import Fusion.Library.Numerals
import Mathlib.Data.List.Induction
import Mathlib.Data.Nat.Digits.Lemmas

/-!
# Numbers as text

`ToHexString` and `ToOctalString` of a number write its digits into a buffer, the last one first,
and reverse them in place.  The place of the terminator is kept free from digits, except from the
digit of zero.
-/

namespace Fusion
namespace Utils

variable {α : Type}

/-- `std::swap` of two places of an array; `none` is an access outside of it. -/
def swap (array : List α) (head tail : Nat) : Option (List α) := do
  let first ← array[head]?
  let last ← array[tail]?
  return (array.set head last).set tail first

/-- `Reverse` of the places from `head` up to `tail`. -/
def reverse : List α → Nat → Nat → Option (List α)
  | array, _, 0 => some array
  | array, head, tail + 1 =>
    if head < tail + 1 then do
      let array ← swap array head tail
      reverse array (head + 1) tail
    else some array

theorem swap_ends (front middle back : List α) (first last : α) :
    swap (front ++ first :: (middle ++ last :: back)) front.length
        (front.length + middle.length + 1) =
      some (front ++ last :: (middle ++ first :: back)) := by
  have last_place : front.length + middle.length + 1 = front.length + (middle.length + 1) := by
    omega
  rw [swap, last_place]
  simp [List.set_append_right]

theorem swap_self (front back : List α) (element : α) :
    swap (front ++ element :: back) front.length front.length =
      some (front ++ element :: back) := by
  simp [swap]

variable {head tail : Nat}

theorem reverse_of_le (array : List α) (met : tail ≤ head) :
    reverse array head tail = some array := by
  cases tail with
  | zero => rfl
  | succ tail => rw [reverse, if_neg (by omega)]

theorem reverse_of_swap {array swapped : List α} (apart : head < tail + 1)
    (ends : swap array head tail = some swapped) :
    reverse array head (tail + 1) = reverse swapped (head + 1) tail := by
  rw [reverse, if_pos apart, ends]
  rfl

/-- The places between the two pointers are reversed, the others are left alone. -/
theorem reverse_eq (front middle back : List α) :
    reverse (front ++ (middle ++ back)) front.length (front.length + middle.length) =
      some (front ++ (middle.reverse ++ back)) := by
  -- Each round moves the ends of the middle part to the parts around it.
  induction middle using List.bidirectionalRec generalizing front back with
  | nil => exact reverse_of_le _ (Nat.le_refl _)
  | singleton element =>
    exact (reverse_of_swap (Nat.lt_succ_self _) (swap_self front back element)).trans
      (reverse_of_le _ (Nat.le_succ _))
  | cons_append first middle last ih =>
    have ends := swap_ends front middle back first last
    have inner := ih (front ++ [last]) (first :: back)
    have tail_eq : (front ++ [last]).length + middle.length = front.length + middle.length + 1 := by
      rw [List.length_append, List.length_singleton]
      omega
    calc reverse (front ++ (first :: (middle ++ [last]) ++ back)) front.length
          (front.length + (first :: (middle ++ [last])).length)
        = reverse (front ++ first :: (middle ++ last :: back)) front.length
          (front.length + middle.length + 1 + 1) := by
          simp [Nat.add_assoc]
      _ = reverse (front ++ last :: (middle ++ first :: back)) (front.length + 1)
          (front.length + middle.length + 1) := reverse_of_swap (by omega) ends
      _ = reverse (front ++ [last] ++ (middle ++ first :: back)) (front ++ [last]).length
          ((front ++ [last]).length + middle.length) := by
          rw [tail_eq, List.length_append, List.append_assoc]
          rfl
      _ = some (front ++ [last] ++ (middle.reverse ++ first :: back)) := inner
      _ = some (front ++ ((first :: (middle ++ [last])).reverse ++ back)) := by simp

end Utils

namespace Ascii

/-- The loop that writes the digits of a number from the place `start` on; `room` is the distance to
the place of the terminator. -/
def digitLoop (base : UInt64) : Nat → UInt64 → Nat → List Char → Option (List Char × Nat)
  | 0, _, start, buffer => some (buffer, start)
  | room + 1, value, start, buffer =>
    if 0 < value then do
      let buffer ← Memory.store buffer start [hexCharacters.getD (value % base).toNat '0']
      digitLoop base room (value / base) (start + 1) buffer
    else some (buffer, start)

/-- The digits of a number at the beginning of a buffer, and how many there are. -/
def writeDigits (base value : UInt64) (buffer : List Char) : Option (List Char × Nat) :=
  if value = 0 then do
    let buffer ← Memory.store buffer 0 ['0']
    return (buffer, 1)
  else do
    let (buffer, start) ← digitLoop base (buffer.length - 1) value 0 buffer
    let buffer ← Utils.reverse buffer 0 start
    return (buffer, start)

/-- A number as text in a buffer: the buffer afterwards and the length of the returned view.
`none` is an access outside the buffer. -/
def numberToString (base value : UInt64) (null : Bool) (buffer : List Char) :
    Option (List Char × Nat) :=
  if null ∨ buffer.length = 0 then some (buffer, 0)
  else do
    let (buffer, length) ← writeDigits base value buffer
    let buffer ← Memory.store buffer length [Char.ofNat 0]
    return (buffer, length)

/-- `ToHexString` of a number. -/
def numberToHexString : UInt64 → Bool → List Char → Option (List Char × Nat) := numberToString 16

def toOctalString : UInt64 → Bool → List Char → Option (List Char × Nat) := numberToString 8

/-! ## The digits -/

variable {buffer : List Char}

section Digits

variable {base : UInt64} (large : 1 < base.toNat) (small : base.toNat ≤ 16)

/-- The characters of the digits of a number, the last one first. -/
def digitText (base value : Nat) : List Char := (Nat.digits base value).map Nat.digitChar

@[simp] theorem digitText_zero (base : Nat) : digitText base 0 = [] := by
  rw [digitText, Nat.digits_zero, List.map_nil]

theorem digitText_of_pos {base value : Nat} (large : 1 < base) (positive : 0 < value) :
    digitText base value = Nat.digitChar (value % base) :: digitText base (value / base) := by
  rw [digitText, Nat.digits_def' large positive, List.map_cons, digitText]

include large small in
/-- The loop writes as many digits as there is room for. -/
theorem digitLoop_eq {room start : Nat} {value : UInt64} {buffer : List Char}
    (fits : start + room ≤ buffer.length) :
    digitLoop base room value start buffer =
      some (Memory.copyAt buffer start ((digitText base.toNat value.toNat).take room),
        start + ((digitText base.toNat value.toNat).take room).length) := by
  induction room generalizing value start buffer with
  | zero => rw [digitLoop, List.take_zero, Memory.copyAt_nil, List.length_nil, Nat.add_zero]
  | succ room ih =>
    by_cases positive : 0 < value
    · have digits_eq := digitText_of_pos large (UInt64.lt_iff_toNat_lt.mp positive)
      have digit_small : (value % base).toNat < 16 := by
        rw [UInt64.toNat_mod]
        exact (Nat.mod_lt _ (by omega)).trans_le small
      have digit_fits : start + [Nat.digitChar (value % base).toNat].length ≤ buffer.length := by
        rw [List.length_singleton]
        omega
      have rest_fits : start + 1 + room ≤
          (Memory.copyAt buffer start [Nat.digitChar (value % base).toNat]).length := by
        rw [Memory.length_copyAt digit_fits]
        omega
      have copied : Memory.copyAt
          (Memory.copyAt buffer start [Nat.digitChar (value % base).toNat]) (start + 1)
            ((digitText base.toNat (value / base).toNat).take room) =
          Memory.copyAt buffer start ([Nat.digitChar (value % base).toNat] ++
            (digitText base.toNat (value / base).toNat).take room) :=
        Memory.copyAt_append (by omega)
      rw [digitLoop, if_pos positive, hexCharacters_getD _ digit_small,
        Memory.store_eq_some digit_fits]
      change digitLoop base room (value / base) (start + 1) _ = _
      rw [ih rest_fits, copied, digits_eq, ← UInt64.toNat_mod, ← UInt64.toNat_div,
        List.take_succ_cons, List.length_cons, Nat.add_right_comm, Nat.add_assoc]
      rfl
    · have zero : value = 0 := by simpa using positive
      rw [digitLoop, if_neg positive, zero, UInt64.toNat_zero, digitText_zero, List.take_nil,
        Memory.copyAt_nil, List.length_nil, Nat.add_zero]

/-- What is written of a number where there is room for so many digits. -/
def numberText (base value room : Nat) : List Char :=
  if value = 0 then ['0'] else ((digitText base value).take room).reverse

include large small in
theorem writeDigits_eq {value : UInt64} {buffer : List Char} (nonempty : 0 < buffer.length) :
    writeDigits base value buffer =
      some (Memory.copyAt buffer 0 (numberText base.toNat value.toNat (buffer.length - 1)),
        (numberText base.toNat value.toNat (buffer.length - 1)).length) := by
  by_cases zero : value = 0
  · have text_eq : numberText base.toNat value.toNat (buffer.length - 1) = ['0'] := by
      rw [zero, UInt64.toNat_zero, numberText, if_pos rfl]
    have fits : 0 + ['0'].length ≤ buffer.length := by
      rw [List.length_singleton]
      omega
    rw [writeDigits, if_pos zero, text_eq, Memory.store_eq_some fits]
    rfl
  · let digits := (digitText base.toNat value.toNat).take (buffer.length - 1)
    have text_eq : numberText base.toNat value.toNat (buffer.length - 1) = digits.reverse :=
      if_neg fun toNat_eq => zero (UInt64.toNat_inj.mp toNat_eq)
    have reversed := Utils.reverse_eq [] digits (buffer.drop digits.length)
    simp only [List.nil_append, List.length_nil, Nat.zero_add] at reversed
    rw [writeDigits, if_neg zero, digitLoop_eq large small (by omega), text_eq]
    change (Utils.reverse (Memory.copyAt buffer 0 digits) 0 (0 + digits.length)).bind _ = _
    rw [Memory.copyAt, List.take_zero, List.nil_append, Nat.zero_add, reversed, Option.bind_some,
      Memory.copyAt, List.length_reverse, List.take_zero, List.nil_append, Nat.zero_add]
    rfl

theorem length_numberText (base value room : Nat) :
    (numberText base value room).length =
      if value = 0 then 1 else min room (digitText base value).length := by
  by_cases zero : value = 0
  · rw [numberText, if_pos zero, if_pos zero, List.length_singleton]
  · rw [numberText, if_neg zero, if_neg zero, List.length_reverse, List.length_take]

theorem length_numberText_le {base value size : Nat} (nonempty : 0 < size) :
    (numberText base value (size - 1)).length ≤ size := by
  rw [length_numberText]
  split <;> omega

theorem length_numberText_lt_iff {base value size : Nat} (nonempty : 0 < size) :
    (numberText base value (size - 1)).length < size ↔ value ≠ 0 ∨ 2 ≤ size := by
  rw [length_numberText]
  split <;> omega

include large small in
theorem numberToString_eq {value : UInt64} {text : List Char} (nonempty : 0 < buffer.length)
    (text_eq : numberText base.toNat value.toNat (buffer.length - 1) = text) :
    numberToString base value false buffer =
      (Memory.store buffer 0 (text ++ [Char.ofNat 0])).map (·, text.length) := by
  have some_room : ¬(false = true ∨ buffer.length = 0) :=
    not_or.mpr ⟨Bool.false_ne_true, Nat.ne_of_gt nonempty⟩
  have text_fits : 0 + text.length ≤ buffer.length := by
    rw [Nat.zero_add, ← text_eq]
    exact length_numberText_le nonempty
  have written : Memory.store (Memory.copyAt buffer 0 text) text.length [Char.ofNat 0] =
      Memory.store buffer 0 (text ++ [Char.ofNat 0]) := by
    have terminated := @Memory.copyAt_append _ buffer text [Char.ofNat 0] 0 (Nat.zero_le _)
    rw [Nat.zero_add] at terminated
    rw [Memory.store, Memory.store, terminated, Memory.length_copyAt text_fits,
      List.length_append, Nat.zero_add]
  rw [numberToString, if_neg some_room, writeDigits_eq large small nonempty, text_eq]
  change (Memory.store (Memory.copyAt buffer 0 text) text.length [Char.ofNat 0]).bind _ = _
  rw [written, Option.map_eq_bind]
  rfl

end Digits

/-! ## What the text denotes -/

/-- The text of a number where there is room for so many digits. -/
structure IsNumberText (base : Nat) (value : UInt64) (room : Nat) (text : List Char) : Prop where
  digits : ∀ symbol ∈ text, ∃ digit < base, symbol = Nat.digitChar digit
  denotes : Numerals.value base (fun symbol => (toNibble symbol).toNat) text =
    value.toNat % base ^ room
  no_leading_zero : value ≠ 0 → value.toNat < base ^ room → ∀ tail, text ≠ '0' :: tail
  zero : value = 0 → 0 < room → text = ['0']

/-- Printing a number stays inside the buffer and leaves the text of the number there, with a
terminator behind it. -/
def Prints (base : Nat) (value : UInt64) (buffer : List Char)
    (outcome : Option (List Char × Nat)) : Prop :=
  ∃ after length, outcome = some (after, length) ∧ after.length = buffer.length ∧
    after[length]? = some (Char.ofNat 0) ∧
      IsNumberText base value (buffer.length - 1) (after.take length)

theorem toNat_toNibble_digitChar {digit : Nat} (small : digit < 16) :
    (toNibble (Nat.digitChar digit)).toNat = digit := by
  rw [toNibble_digitChar digit small, UInt8.toNat_ofNat']
  exact Nat.mod_eq_of_lt (small.trans (by decide))

theorem digitChar_ne_zero : ∀ digit < 16, digit ≠ 0 → Nat.digitChar digit ≠ '0' := by
  decide

theorem isNumberText_numberText {base : Nat} (large : 1 < base) (small : base ≤ 16)
    (value : UInt64) (room : Nat) :
    IsNumberText base value room (numberText base value.toNat room) := by
  by_cases zero : value = 0
  · rw [zero, UInt64.toNat_zero, numberText, if_pos rfl]
    refine ⟨?_, ?_, fun nonzero => absurd rfl nonzero, fun _ _ => rfl⟩
    · intro symbol symbol_mem
      exact ⟨0, by omega, List.mem_singleton.mp symbol_mem⟩
    · rw [UInt64.toNat_zero, Nat.zero_mod, Numerals.value_cons, Numerals.value_nil]
      exact Nat.zero_mul _
  · have positive : value.toNat ≠ 0 := fun toNat_eq => zero (UInt64.toNat_inj.mp toNat_eq)
    have digit_lt : ∀ digit ∈ (Nat.digits base value.toNat).take room, digit < base :=
      fun digit taken => Nat.digits_lt_base large (List.mem_of_mem_take taken)
    rw [numberText, if_neg positive, digitText, ← List.map_take]
    refine ⟨?_, ?_, ?_, fun value_eq => absurd value_eq zero⟩
    · intro symbol symbol_mem
      obtain ⟨digit, digit_mem, rfl⟩ := List.mem_map.mp (List.mem_reverse.mp symbol_mem)
      exact ⟨digit, digit_lt digit digit_mem, rfl⟩
    · have decode : ∀ digit ∈ (Nat.digits base value.toNat).take room,
          (toNibble (Nat.digitChar digit)).toNat = digit :=
        fun digit digit_mem =>
          toNat_toNibble_digitChar ((digit_lt digit digit_mem).trans_le small)
      rw [Nat.self_mod_pow_eq_ofDigits_take room value.toNat large]
      exact Numerals.value_reverse_map base _ decode
    · intro _ fits tail text_eq
      -- The first character is that of the last digit, which is not zero.
      have nonempty : Nat.digits base value.toNat ≠ [] :=
        Nat.digits_ne_nil_iff_ne_zero.mpr positive
      have all_fit := (Nat.digits_length_le_iff large value.toNat).mpr fits
      have first_eq := congrArg List.head? text_eq
      rw [List.take_of_length_le all_fit, List.head?_reverse, List.getLast?_map,
        List.getLast?_eq_getLast_of_ne_nil nonempty, Option.map_some, List.head?_cons,
        Option.some.injEq] at first_eq
      have last_small := (Nat.digits_lt_base large (List.getLast_mem nonempty)).trans_le small
      exact digitChar_ne_zero _ last_small (Nat.getLast_digit_ne_zero base positive) first_eq

/-- A number is printed inside the buffer, unless it is zero and the buffer has one place only. -/
theorem prints_iff {base : UInt64} (large : 1 < base.toNat) (small : base.toNat ≤ 16)
    (value : UInt64) (nonempty : 0 < buffer.length) :
    Prints base.toNat value buffer (numberToString base value false buffer) ↔
      value ≠ 0 ∨ 2 ≤ buffer.length := by
  obtain ⟨text, text_eq⟩ : ∃ text, numberText base.toNat value.toNat (buffer.length - 1) = text :=
    ⟨_, rfl⟩
  have nonzero_iff : value.toNat ≠ 0 ↔ value ≠ 0 := not_congr (@UInt64.toNat_inj value 0)
  have fits_iff := @length_numberText_lt_iff base.toNat value.toNat _ nonempty
  rw [text_eq, nonzero_iff] at fits_iff
  have terminated : (text ++ [Char.ofNat 0]).length = text.length + 1 := List.length_append
  rw [← fits_iff, numberToString_eq large small nonempty text_eq]
  constructor
  · rintro ⟨after, length, outcome_eq, -⟩
    obtain ⟨stored, stored_eq, -⟩ := Option.map_eq_some_iff.mp outcome_eq
    have inside := (Memory.store_eq_some_iff.mp stored_eq).1
    omega
  · intro fits
    have inside : 0 + (text ++ [Char.ofNat 0]).length ≤ buffer.length := by omega
    have copied : Memory.copyAt buffer 0 (text ++ [Char.ofNat 0]) =
        text ++ Char.ofNat 0 :: buffer.drop (text.length + 1) := by
      rw [Memory.copyAt, List.take_zero, List.nil_append, Nat.zero_add, terminated,
        List.append_assoc, List.singleton_append]
    rw [Memory.store_eq_some inside]
    refine ⟨_, _, rfl, Memory.length_copyAt inside, ?_, ?_⟩
    · rw [copied, List.getElem?_append_right (Nat.le_refl _), Nat.sub_self]
      rfl
    · rw [copied, List.take_left, ← text_eq]
      exact isNumberText_numberText large small value _

/-- Numbers of both bases are printed inside every buffer, except zero in a buffer of one place. -/
theorem numbers_print_iff (value : UInt64) (buffer : List Char) (nonempty : 1 ≤ buffer.length) :
    (Prints 16 value buffer (numberToHexString value false buffer) ↔
      value ≠ 0 ∨ 2 ≤ buffer.length) ∧
    (Prints 8 value buffer (toOctalString value false buffer) ↔ value ≠ 0 ∨ 2 ≤ buffer.length) :=
  ⟨prints_iff (by decide) (by decide) value nonempty,
    prints_iff (by decide) (by decide) value nonempty⟩

theorem numbers_print_two_places :
    (1 ≤ ['x', 'y'].length) ∧
    (Prints 16 0 ['x', 'y'] (numberToHexString 0 false ['x', 'y']) ↔
      (0 : UInt64) ≠ 0 ∨ 2 ≤ ['x', 'y'].length) ∧
    (Prints 8 0 ['x', 'y'] (toOctalString 0 false ['x', 'y']) ↔
      (0 : UInt64) ≠ 0 ∨ 2 ≤ ['x', 'y'].length) :=
  ⟨by decide, numbers_print_iff 0 ['x', 'y'] (by decide)⟩

/-- The terminator of zero is written behind a buffer of one place. -/
theorem zero_leaves_the_buffer :
    (numberToHexString 0 false ['x'] = none ∧
      ¬ Prints 16 0 ['x'] (numberToHexString 0 false ['x'])) ∧
    (toOctalString 0 false ['x'] = none ∧ ¬ Prints 8 0 ['x'] (toOctalString 0 false ['x'])) := by
  have hex_outside : numberToHexString 0 false ['x'] = none := by decide
  have octal_outside : toOctalString 0 false ['x'] = none := by decide
  refine ⟨⟨hex_outside, ?_⟩, octal_outside, ?_⟩
  · rintro ⟨after, length, printed, -⟩
    rw [hex_outside] at printed
    cases printed
  · rintro ⟨after, length, printed, -⟩
    rw [octal_outside] at printed
    cases printed

end Ascii
end Fusion
