import Fusion.Memory.MemoryUtil
import Mathlib.Algebra.Group.Nat.Defs

/-!
# Equality of arrays

For integral types, enumerations and pointers `MemoryUtil::Equal` compares the bytes of two arrays.
It hands the number of elements to `memcmp`, which takes a number of bytes.
-/

namespace Fusion.MemoryUtil

/-- `Equal` of elements, one by one. -/
def equalElements {α : Type} [DecidableEq α] : List α → List α → Nat → Bool
  | x :: a, y :: b, count + 1 => if ¬x = y then false else equalElements a b count
  | _, _, _ => true

section Bitwise

variable {width : Nat}

/-- The bytes of an element of `width` bytes, the least significant one first. -/
def objectBytes (element : BitVec (8 * width)) : List UInt8 :=
  (List.range width).map fun place => UInt8.ofBitVec (element.extractLsb' (8 * place) 8)

/-- The bytes of an array in memory. -/
def arrayBytes (array : List (BitVec (8 * width))) : List UInt8 := array.flatMap objectBytes

/-- `Equal` of elements that are bitwise comparable. -/
def equalBitwise (a b : List (BitVec (8 * width))) (count : Nat) : Bool :=
  equal (arrayBytes a) (arrayBytes b) count

/-! ## The bytes of an array -/

@[simp] theorem length_objectBytes (element : BitVec (8 * width)) :
    (objectBytes element).length = width := by
  simp [objectBytes]

theorem objectBytes_injective : Function.Injective (@objectBytes width) := by
  intro x y same
  refine BitVec.eq_of_getLsbD_eq fun i inside => ?_
  have place_lt : i / 8 < width := by omega
  have bytes_eq := congrArg (fun bytes => bytes[i / 8]?) same
  simp only [objectBytes, List.getElem?_map, List.getElem?_range place_lt, Option.map_some,
    Option.some.injEq] at bytes_eq
  have bit_eq := congrArg (fun byte : UInt8 => byte.toBitVec.getLsbD (i % 8)) bytes_eq
  simp only [BitVec.getLsbD_extractLsb', Nat.mod_lt i (by decide : 0 < 8), decide_true,
    Bool.true_and, Nat.div_add_mod] at bit_eq
  exact bit_eq

@[simp] theorem arrayBytes_nil : arrayBytes ([] : List (BitVec (8 * width))) = [] := rfl

@[simp] theorem arrayBytes_cons (element : BitVec (8 * width)) (array : List (BitVec (8 * width))) :
    arrayBytes (element :: array) = objectBytes element ++ arrayBytes array := rfl

theorem arrayBytes_append (a b : List (BitVec (8 * width))) :
    arrayBytes (a ++ b) = arrayBytes a ++ arrayBytes b :=
  List.flatMap_append

theorem length_arrayBytes (array : List (BitVec (8 * width))) :
    (arrayBytes array).length = array.length * width := by
  induction array with
  | nil => simp
  | cons element array ih =>
    rw [arrayBytes_cons, List.length_append, length_objectBytes, ih, List.length_cons,
      Nat.succ_mul array.length, Nat.add_comm]

theorem arrayBytes_take (array : List (BitVec (8 * width))) (count : Nat) :
    arrayBytes (array.take count) = (arrayBytes array).take (count * width) := by
  induction array generalizing count with
  | nil => simp
  | cons element array ih =>
    cases count with
    | zero => simp
    | succ count =>
      have split := @List.take_length_add_append _ (objectBytes element)
        (arrayBytes array) (count * width)
      rw [length_objectBytes] at split
      rw [List.take_succ_cons, arrayBytes_cons, arrayBytes_cons, ih, Nat.succ_mul count,
        Nat.add_comm, split]

theorem arrayBytes_inj {a b : List (BitVec (8 * width))} (length_eq : a.length = b.length) :
    arrayBytes a = arrayBytes b ↔ a = b := by
  induction a generalizing b with
  | nil => simp [List.length_eq_zero_iff.mp length_eq.symm]
  | cons x a ih =>
    cases b with
    | nil => cases length_eq
    | cons y b =>
      rw [arrayBytes_cons, arrayBytes_cons, List.cons.injEq, ← ih (Nat.succ.inj length_eq)]
      constructor
      · intro same
        obtain ⟨first, rest⟩ := List.append_inj same (by simp)
        exact ⟨objectBytes_injective first, rest⟩
      · rintro ⟨rfl, rest⟩
        rw [rest]

/-! ## Elements and bytes -/

variable {a b : List (BitVec (8 * width))} {count : Nat}

theorem equalElements_iff {α : Type} [DecidableEq α] {a b : List α} {count : Nat}
    (a_room : count ≤ a.length) (b_room : count ≤ b.length) :
    equalElements a b count = true ↔ a.take count = b.take count := by
  induction count generalizing a b with
  | zero => simp [equalElements]
  | succ count ih =>
    cases a with
    | nil => cases a_room
    | cons x a =>
      cases b with
      | nil => cases b_room
      | cons y b =>
        rw [equalElements, List.take_succ_cons, List.take_succ_cons, List.cons.injEq,
          ← ih (Nat.le_of_succ_le_succ a_room) (Nat.le_of_succ_le_succ b_room)]
        by_cases same : x = y
        · simp [same]
        · simp [same]

theorem equalBitwise_eq_true_iff (a_room : count ≤ a.length) (b_room : count ≤ b.length) :
    equalBitwise a b count = true ↔ (arrayBytes a).take count = (arrayBytes b).take count := by
  rw [equalBitwise, equal, decide_eq_true_eq]
  apply memcmp_eq_iff
  rw [List.length_take, List.length_take, length_arrayBytes, length_arrayBytes]
  cases width with
  | zero => simp
  | succ width =>
    have a_bytes : a.length ≤ a.length * (width + 1) := Nat.le_mul_of_pos_right _ (by omega)
    have b_bytes : b.length ≤ b.length * (width + 1) := Nat.le_mul_of_pos_right _ (by omega)
    omega

theorem take_eq_iff_bytes (a_room : count ≤ a.length) (b_room : count ≤ b.length) :
    a.take count = b.take count ↔
      (arrayBytes a).take (count * width) = (arrayBytes b).take (count * width) := by
  rw [← arrayBytes_take, ← arrayBytes_take, arrayBytes_inj]
  rw [List.length_take, List.length_take, Nat.min_eq_left a_room, Nat.min_eq_left b_room]

/-- The bitwise comparison says of the first elements what comparing them one by one says. -/
def ComparesElements (a b : List (BitVec (8 * width))) (count : Nat) : Prop :=
  (equalBitwise a b count = true ↔ ∀ i < count, a[i]? = b[i]?) ∧
    equalBitwise a b count = equalElements a b count

theorem forall_getElem?_iff {α : Type} {a b : List α} {count : Nat} :
    (∀ i < count, a[i]? = b[i]?) ↔ a.take count = b.take count := by
  rw [List.ext_getElem?_iff]
  refine forall_congr' fun i => ?_
  rw [List.getElem?_take, List.getElem?_take]
  by_cases inside : i < count
  · simp [inside]
  · simp [inside]

theorem take_eq_take_of_le {α : Type} {a b : List α} {fewer more : Nat} (fewer_le : fewer ≤ more)
    (same : a.take more = b.take more) : a.take fewer = b.take fewer := by
  rw [← Nat.min_eq_left fewer_le, ← List.take_take, ← List.take_take, same]

theorem comparesElements_iff_bytes (a_room : count ≤ a.length) (b_room : count ≤ b.length) :
    ComparesElements a b count ↔
      ((arrayBytes a).take count = (arrayBytes b).take count →
        (arrayBytes a).take (count * width) = (arrayBytes b).take (count * width)) := by
  have each := equalElements_iff a_room b_room
  rw [ComparesElements, forall_getElem?_iff,
    @Bool.eq_iff_iff (equalBitwise a b count) (equalElements a b count), each,
    equalBitwise_eq_true_iff a_room b_room, take_eq_iff_bytes a_room b_room, and_self]
  constructor
  · exact Iff.mp
  · intro enough
    refine ⟨enough, fun same => ?_⟩
    -- The bytes of the elements begin with the bytes that are compared, unless there are none.
    cases width with
    | zero => simp [List.eq_nil_of_length_eq_zero (length_arrayBytes a),
        List.eq_nil_of_length_eq_zero (length_arrayBytes b)]
    | succ width => exact take_eq_take_of_le (Nat.le_mul_of_pos_right _ (by omega)) same

theorem take_objectBytes_congr {x y : BitVec (8 * width)} {kept : Nat} (inside : kept ≤ width)
    (same : ∀ i < 8 * kept, x.getLsbD i = y.getLsbD i) :
    (objectBytes x).take kept = (objectBytes y).take kept := by
  rw [objectBytes, objectBytes, ← List.map_take, ← List.map_take, List.take_range,
    Nat.min_eq_left inside]
  refine List.map_congr_left fun place place_mem => ?_
  have place_lt : place < kept := List.mem_range.mp place_mem
  refine congrArg UInt8.ofBitVec (BitVec.eq_of_getLsbD_eq fun bit bit_lt => ?_)
  rw [BitVec.getLsbD_extractLsb', BitVec.getLsbD_extractLsb', same (8 * place + bit) (by omega)]

/-- Elements of more than one byte can differ behind the compared bytes: in the top bit of the last
one. -/
theorem exists_not_comparesElements (wide : 1 < width) (some_compared : 0 < count) :
    ∃ a b : List (BitVec (8 * width)),
      a.length = count ∧ b.length = count ∧ ¬ ComparesElements a b count := by
  obtain ⟨before, rfl⟩ : ∃ before, count = before + 1 := ⟨count - 1, by omega⟩
  let zeros : List (BitVec (8 * width)) := List.replicate before 0
  let top : BitVec (8 * width) := BitVec.twoPow (8 * width) (8 * width - 1)
  have zeros_length : zeros.length = before := List.length_replicate
  have a_length : (zeros ++ [0]).length = before + 1 := by
    rw [List.length_append, zeros_length, List.length_singleton]
  have b_length : (zeros ++ [top]).length = before + 1 := by
    rw [List.length_append, zeros_length, List.length_singleton]
  refine ⟨zeros ++ [0], zeros ++ [top], a_length, b_length, ?_⟩
  have a_room := Nat.le_of_eq a_length.symm
  have b_room := Nat.le_of_eq b_length.symm
  rw [comparesElements_iff_bytes a_room b_room, ← take_eq_iff_bytes a_room b_room]
  intro enough
  have low_bytes : (objectBytes (0 : BitVec (8 * width))).take (before + 1 - before * width) =
      (objectBytes top).take (before + 1 - before * width) := by
    -- At most one byte of the last element is among the compared ones.
    have few : before ≤ before * width := Nat.le_mul_of_pos_right _ (by omega)
    apply take_objectBytes_congr (by omega)
    intro i i_lt
    simp [top, BitVec.getLsbD_twoPow]
    omega
  have bytes_eq : (arrayBytes (zeros ++ [0])).take (before + 1) =
      (arrayBytes (zeros ++ [top])).take (before + 1) := by
    rw [arrayBytes_append, arrayBytes_append, List.take_append, List.take_append,
      length_arrayBytes, zeros_length, arrayBytes_cons, arrayBytes_cons, arrayBytes_nil,
      List.append_nil, List.append_nil, low_bytes]
  have elements_eq := enough bytes_eq
  rw [List.take_of_length_le (Nat.le_of_eq a_length),
    List.take_of_length_le (Nat.le_of_eq b_length)] at elements_eq
  have last_eq : (0 : BitVec (8 * width)) = top := by simpa using elements_eq
  have bit_eq := congrArg (fun element => element.getLsbD (8 * width - 1)) last_eq
  simp [top, BitVec.getLsbD_twoPow] at bit_eq
  omega

/-- Comparing trivially comparable elements is comparing their bytes, but only the first of them:
as many bytes as there are elements. -/
theorem equalBitwise_comparesElements_iff (width count : Nat) :
    (∀ a b : List (BitVec (8 * width)), count ≤ a.length → count ≤ b.length →
      (ComparesElements a b count ↔
        ((arrayBytes a).take count = (arrayBytes b).take count →
          (arrayBytes a).take (count * width) = (arrayBytes b).take (count * width)))) ∧
    ((∀ a b : List (BitVec (8 * width)), count ≤ a.length → count ≤ b.length →
      ComparesElements a b count) ↔ width ≤ 1 ∨ count = 0) := by
  refine ⟨fun a b => comparesElements_iff_bytes, ?_⟩
  constructor
  · intro always
    by_contra neither
    rw [not_or, Nat.not_le] at neither
    obtain ⟨a, b, a_length, b_length, wrong⟩ :=
      exists_not_comparesElements neither.1 (Nat.pos_of_ne_zero neither.2)
    exact wrong (always a b (Nat.le_of_eq a_length.symm) (Nat.le_of_eq b_length.symm))
  · intro narrow a b a_room b_room
    rw [comparesElements_iff_bytes a_room b_room]
    intro same
    rcases narrow with narrow | none_compared
    · have fewer : count * width ≤ count := by
        calc count * width ≤ count * 1 := Nat.mul_le_mul_left count narrow
          _ = count := Nat.mul_one count
      exact take_eq_take_of_le fewer same
    · simp [none_compared]

/-- Two pairs of sixteen bit numbers that differ in their second number only are taken to be
equal. -/
theorem equalBitwise_misses_second :
    @equalBitwise 2 [1, 2] [1, 3] 2 = true ∧
      equalElements [(1 : BitVec 16), 2] [1, 3] 2 = false := by
  decide

end Bitwise

end Fusion.MemoryUtil
