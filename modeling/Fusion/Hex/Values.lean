import Fusion.Ascii.Hex
import Fusion.Hex
import Fusion.Memory.Comparison
import Mathlib.Algebra.Group.Nat.Defs

/-!
# Hex strings as values

The constructors and assignments of `Hex<N>`, and its text.  The copy constructor copies nothing, a
`HexView` keeps 31 bits of the size, and a text of an odd number of bytes is empty.
-/

namespace Fusion

open Ascii

/-- A `HexView`: where the bytes are, and a size of 31 bits. -/
structure HexView where
  data : List UInt8
  size : Nat

def HexView.of (data : List UInt8) (size : Nat) : HexView := { data, size := size % 2 ^ 31 }

/-- `ToString` of a view. -/
def HexView.toString (view : HexView) : List Char := toHexString (view.data.take view.size)

namespace Hex

variable {capacity : Nat}

/-- `Assign`: as many of the bytes as there is room for. -/
def assign (self : Hex capacity) (data : List UInt8) (size : Nat) : Hex capacity :=
  let total := min size capacity
  { data := Memory.copyAt self.data 0 (data.take total),
    size := total,
    length_data := by
      rw [Memory.length_copyAt, self.length_data]
      rw [self.length_data, List.length_take]
      omega }

/-- The conversion to a view. -/
def view (hex : Hex capacity) : HexView := HexView.of hex.data hex.size

/-- Construction from a view. -/
def ofView (capacity : Nat) (view : HexView) : Hex capacity :=
  (empty capacity).assign view.data view.size

/-- The copy constructor. -/
def copyConstruct (_ : Hex capacity) : Hex capacity := empty capacity

/-- The move constructor. -/
def moveConstruct (hex : Hex capacity) : Hex capacity := (empty capacity).assign hex.data hex.size

/-- The copy assignment; `same` says that an object is assigned to itself. -/
def copyAssign (self hex : Hex capacity) (same : Bool) : Hex capacity :=
  if ¬same then self.assign hex.data hex.size else self

/-- The move assignment: the target and the source afterwards. -/
def moveAssign (self hex : Hex capacity) (same : Bool) : Hex capacity × Hex capacity :=
  if ¬same then
    ({ data := hex.data, size := hex.size, length_data := hex.length_data }, empty capacity)
  else (self, hex)

theorem length_foldl_set (writes : List (Nat × UInt8)) (data : List UInt8) :
    (writes.foldl (fun data write => data.set write.1 write.2) data).length = data.length := by
  induction writes generalizing data with
  | nil => rfl
  | cons write writes ih => rw [List.foldl_cons, ih, List.length_set]

/-- `FromString`; `none` is a write outside the bytes. -/
def fromString (capacity : Nat) (text : List Char) : Option (Hex capacity) :=
  if text = [] then some (empty capacity)
  else
    let result := fromHexString text false capacity
    if ∀ write ∈ result.writes, write.1 < capacity then
      if result.length = 0 then some (empty capacity)
      else
        some { data := result.writes.foldl (fun data write => data.set write.1 write.2)
                (empty capacity).data,
               size := result.length % 2 ^ 32,
               length_data := by rw [length_foldl_set, (empty capacity).length_data] }
    else none

/-- `operator==`. -/
def equal (left right : Hex capacity) : Bool :=
  MemoryUtil.equalRanges MemoryUtil.equal left.span right.span

/-! ## Handing a value on -/

/-- The operations that hand a value on; an assignment has a target with a value of its own, or the
object itself as its target. -/
inductive Transfer (capacity : Nat)
  | copyConstruct
  | moveConstruct
  | ofView
  | copyAssign (target : Option (Hex capacity))
  | moveAssign (target : Option (Hex capacity))

namespace Transfer

/-- The value that an operation makes of a value. -/
def apply (hex : Hex capacity) : Transfer capacity → Hex capacity
  | .copyConstruct => hex.copyConstruct
  | .moveConstruct => hex.moveConstruct
  | .ofView => Hex.ofView capacity hex.view
  | .copyAssign (some target) => target.copyAssign hex false
  | .copyAssign none => hex.copyAssign hex true
  | .moveAssign (some target) => (target.moveAssign hex false).1
  | .moveAssign none => (hex.moveAssign hex true).1

/-- How many of so many bytes an operation hands on. -/
def keeps (size : Nat) : Transfer capacity → Nat
  | .copyConstruct => 0
  | .ofView => size % 2 ^ 31
  | .moveConstruct | .copyAssign _ | .moveAssign _ => size

end Transfer

/-- The value after a sequence of operations. -/
def transferred (transfers : List (Transfer capacity)) (hex : Hex capacity) : Hex capacity :=
  transfers.foldl Transfer.apply hex

theorem span_assign (self hex : Hex capacity) {size : Nat} (kept : size ≤ hex.size)
    (inside : hex.size ≤ capacity) :
    (self.assign hex.data size).size = size ∧
      (self.assign hex.data size).span = hex.span.take size := by
  have total_eq : min size capacity = size := by omega
  have data_length : (hex.data.take size).length = size := by
    rw [List.length_take, hex.length_data, total_eq]
  refine ⟨total_eq, ?_⟩
  change (Memory.copyAt self.data 0 (hex.data.take (min size capacity))).take
    (min size capacity) = (hex.data.take hex.size).take size
  rw [total_eq, Memory.copyAt, List.take_zero, List.nil_append, List.take_take,
    Nat.min_eq_left kept]
  exact List.take_left' data_length

theorem span_take_size (hex : Hex capacity) : hex.span.take hex.size = hex.span := by
  rw [span, List.take_take, Nat.min_self]

variable {hex : Hex capacity}

theorem span_apply (transfer : Transfer capacity) (inside : hex.size ≤ capacity) :
    (transfer.apply hex).size = transfer.keeps hex.size ∧
      (transfer.apply hex).span = hex.span.take (transfer.keeps hex.size) := by
  have whole := hex.span_take_size
  cases transfer with
  | copyConstruct => exact ⟨rfl, rfl⟩
  | moveConstruct => exact span_assign _ hex (Nat.le_refl _) inside
  | ofView => exact span_assign _ hex (Nat.mod_le ..) inside
  | copyAssign target =>
    cases target with
    | none => exact ⟨rfl, whole.symm⟩
    | some target => exact span_assign target hex (Nat.le_refl _) inside
  | moveAssign target =>
    cases target with
    | none => exact ⟨rfl, whole.symm⟩
    | some target => exact ⟨rfl, whole.symm⟩

namespace Transfer

theorem keeps_le (transfer : Transfer capacity) (size : Nat) : transfer.keeps size ≤ size := by
  cases transfer with
  | copyConstruct => exact Nat.zero_le size
  | ofView => exact Nat.mod_le ..
  | moveConstruct => exact Nat.le_refl size
  | copyAssign _ => exact Nat.le_refl size
  | moveAssign _ => exact Nat.le_refl size

theorem foldl_keeps_le (transfers : List (Transfer capacity)) (size : Nat) :
    transfers.foldl keeps size ≤ size := by
  induction transfers generalizing size with
  | nil => exact Nat.le_refl size
  | cons transfer transfers ih => exact (ih _).trans (transfer.keeps_le size)

theorem foldl_keeps_eq_iff (transfers : List (Transfer capacity)) (size : Nat) :
    transfers.foldl keeps size = size ↔
      size = 0 ∨ copyConstruct ∉ transfers ∧ (ofView ∈ transfers → size < 2 ^ 31) := by
  induction transfers with
  | nil => simp
  | cons transfer transfers ih =>
    cases transfer with
    | copyConstruct =>
      have none_left := foldl_keeps_le transfers 0
      simp only [List.foldl_cons, keeps, List.mem_cons, true_or, not_true, false_and, or_false]
      omega
    | ofView =>
      have fewer := foldl_keeps_le transfers (size % 2 ^ 31)
      simp only [List.foldl_cons, keeps, List.mem_cons, reduceCtorEq, false_or, true_or,
        true_imp_iff]
      by_cases small : size < 2 ^ 31
      · rw [Nat.mod_eq_of_lt small, ih]
        simp only [small, implies_true, and_true]
      · have shrinks : size % 2 ^ 31 < size :=
          (Nat.mod_lt size (by decide)).trans_le (Nat.not_lt.mp small)
        simp only [small, and_false, or_false]
        omega
    | moveConstruct => simpa [keeps] using ih
    | copyAssign target => simpa [keeps] using ih
    | moveAssign target => simpa [keeps] using ih

end Transfer

theorem span_transferred (transfers : List (Transfer capacity)) (inside : hex.size ≤ capacity) :
    (transferred transfers hex).span = hex.span.take (transfers.foldl Transfer.keeps hex.size) := by
  induction transfers generalizing hex with
  | nil =>
    rw [transferred, List.foldl_nil, List.foldl_nil, span_take_size]
  | cons transfer transfers ih =>
    obtain ⟨size_eq, span_eq⟩ := span_apply transfer inside
    have kept := transfer.keeps_le hex.size
    have still_inside : (transfer.apply hex).size ≤ capacity := by
      rw [size_eq]
      exact kept.trans inside
    have rest := ih still_inside
    have fewer := Transfer.foldl_keeps_le transfers (transfer.keeps hex.size)
    rw [size_eq, span_eq, List.take_take, Nat.min_eq_left fewer] at rest
    exact rest

theorem equal_iff {left right : Hex capacity} :
    left.equal right = true ↔ left.span = right.span := by
  rw [equal, MemoryUtil.equalRanges]
  by_cases length_eq : left.span.length = right.span.length
  · rw [if_pos length_eq, MemoryUtil.equal_iff length_eq, List.take_length, length_eq,
      List.take_length]
  · rw [if_neg length_eq]
    exact iff_of_false Bool.false_ne_true fun same => length_eq (congrArg List.length same)

theorem length_span (inside : hex.size ≤ capacity) : hex.span.length = hex.size := by
  rw [span, List.length_take, hex.length_data, Nat.min_eq_left inside]

theorem span_take_eq_iff (inside : hex.size ≤ capacity) {kept : Nat} (fewer : kept ≤ hex.size) :
    hex.span.take kept = hex.span ↔ kept = hex.size := by
  constructor
  · intro same
    have length_eq := congrArg List.length same
    rw [List.length_take, length_span inside] at length_eq
    omega
  · rintro rfl
    exact hex.span_take_size

/-! ## The text -/

theorem fromString_encoded {bytes : List UInt8} (nonempty : bytes ≠ [])
    (inside : bytes.length ≤ capacity) (small : bytes.length < 2 ^ 32) :
    ∃ hex, fromString capacity (encoded bytes) = some hex ∧ hex.span = bytes := by
  have bytes_pos := List.length_pos_iff.mpr nonempty
  have text_nonempty : encoded bytes ≠ [] := by
    rw [← List.length_pos_iff, length_encoded]
    omega
  have decoded := fromHexString_of_encoded nonempty (bytes_pos.trans_le inside)
  have places : ∀ write ∈ (bytes.zipIdx 0).map Prod.swap, write.1 < capacity :=
    fun write member => (fst_lt_of_mem_writes member).trans_le inside
  rw [fromString, if_neg text_nonempty]
  simp only [decoded]
  rw [if_pos places, if_neg (Nat.ne_of_gt bytes_pos)]
  refine ⟨_, rfl, ?_⟩
  have fits : 0 + bytes.length ≤ (empty capacity).data.length := by
    rw [(empty capacity).length_data, Nat.zero_add]
    exact inside
  change List.take (bytes.length % 2 ^ 32) (List.foldl _ _ _) = bytes
  rw [foldl_set_zipIdx fits, Nat.mod_eq_of_lt small, Memory.copyAt, List.take_zero,
    List.nil_append, List.take_left]

theorem fromString_nil : fromString capacity [] = some (empty capacity) := rfl

/-- How many of so many bytes are read back from their text. -/
def readBack (size : Nat) : Nat := if size % 2 ^ 31 % 2 = 0 then size % 2 ^ 31 else 0

theorem readBack_le (size : Nat) : readBack size ≤ size := by
  rw [readBack]
  split <;> omega

theorem fromString_toString (inside : hex.size ≤ capacity) :
    ∃ read, fromString capacity hex.view.toString = some read ∧
      read.span = hex.span.take (readBack hex.size) := by
  obtain ⟨seen, seen_eq⟩ : ∃ seen, hex.size % 2 ^ 31 = seen := ⟨_, rfl⟩
  have fewer : seen ≤ hex.size := seen_eq ▸ Nat.mod_le ..
  have seen_length : (hex.span.take seen).length = seen := by
    rw [List.length_take, length_span inside, Nat.min_eq_left fewer]
  have text_eq : hex.view.toString = toHexString (hex.span.take seen) := by
    rw [span, List.take_take, Nat.min_eq_left fewer, ← seen_eq]
    rfl
  rw [text_eq, readBack, seen_eq]
  by_cases unread : seen = 0 ∨ seen % 2 ≠ 0
  · have none_read : (if seen % 2 = 0 then seen else 0) = 0 := by split <;> omega
    rw [toHexString, seen_length, if_pos unread, none_read]
    exact ⟨_, fromString_nil, rfl⟩
  · rw [not_or, not_not] at unread
    have nonempty : hex.span.take seen ≠ [] := by
      rw [← List.length_pos_iff, seen_length]
      omega
    rw [toHexString_of_even (by rw [seen_length]; exact unread.2), if_pos unread.2]
    exact fromString_encoded nonempty (by omega) (by omega)

theorem text_round_trip_iff (inside : hex.size ≤ capacity) :
    (∃ read, fromString capacity hex.view.toString = some read ∧ read.equal hex = true) ↔
      hex.size % 2 = 0 ∧ hex.size < 2 ^ 31 := by
  obtain ⟨read, read_eq, span_eq⟩ := fromString_toString inside
  have same_iff : read.equal hex = true ↔ readBack hex.size = hex.size := by
    rw [equal_iff, span_eq, span_take_eq_iff inside (readBack_le _)]
  have all_read_iff : readBack hex.size = hex.size ↔ hex.size % 2 = 0 ∧ hex.size < 2 ^ 31 := by
    rw [readBack]
    split <;> omega
  rw [read_eq, ← all_read_iff, ← same_iff]
  simp

/-- A hex string survives every sequence of operations in which it is not copy-constructed and no
view cuts its size, unless it is empty; it survives its text if its size is even. -/
theorem value_preserved_iff (hex : Hex capacity) (inside : hex.size ≤ capacity) :
    (∀ transfers, (transferred transfers hex).equal hex = true ↔
      hex.size = 0 ∨ Transfer.copyConstruct ∉ transfers ∧
        (Transfer.ofView ∈ transfers → hex.size < 2 ^ 31)) ∧
    ((∃ read, fromString capacity hex.view.toString = some read ∧ read.equal hex = true) ↔
      hex.size % 2 = 0 ∧ hex.size < 2 ^ 31) := by
  refine ⟨fun transfers => ?_, text_round_trip_iff inside⟩
  rw [equal_iff, span_transferred transfers inside,
    span_take_eq_iff inside (Transfer.foldl_keeps_le ..), Transfer.foldl_keeps_eq_iff]

/-- Two bytes. -/
def pair : Hex 2 := { data := [0xAB, 0xCD], size := 2, length_data := rfl }

theorem value_preserved_pair :
    pair.size ≤ 2 ∧
      (transferred [.moveConstruct, .copyAssign (some (empty 2)), .ofView] pair).equal pair =
        true := by
  refine ⟨by decide, ((value_preserved_iff pair (by decide)).1 _).mpr (.inr ⟨?_, ?_⟩)⟩
  · simp
  · exact fun _ => by decide

/-- A copy of two bytes is empty, and so is the text of one byte. -/
theorem copy_is_empty :
    pair.copyConstruct.equal pair = false ∧
      ({ pair with size := 1 } : Hex 2).view.toString = [] ∧
      ∃ read, fromString 2 ({ pair with size := 1 } : Hex 2).view.toString = some read ∧
        read.equal { pair with size := 1 } = false := by
  exact ⟨rfl, rfl, _, rfl, rfl⟩

end Hex
end Fusion
