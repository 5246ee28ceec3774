import Fusion.Library.Memory
import Mathlib.Data.List.Rotate

/-!
# Bounded queues in circular arrays

The specification is a first-in first-out queue of bounded length.  An array holds such a queue as
a window: the elements met when walking from a start, going on at the front of the array after its
end.
-/

namespace BoundedQueue

/-! ## The queue -/

/-- What a client asks of a queue. -/
inductive Call (α : Type*)
  | write (data : List α)
  | peek (count : Nat)
  | read (count : Nat)
  | skip (count : Nat)

/-- What a client gets: the elements copied out and the count returned. -/
structure Response (α : Type*) where
  elements : List α
  count : Nat
deriving DecidableEq

/-- The queue takes what there is room for and gives what there is. -/
def step {α : Type*} (capacity : Nat) (queue : List α) : Call α → Response α × List α
  | .write data =>
    let accepted := data.take (capacity - queue.length)
    (⟨[], accepted.length⟩, queue ++ accepted)
  | .peek count => (⟨queue.take count, min count queue.length⟩, queue)
  | .read count => (⟨queue.take count, min count queue.length⟩, queue.drop count)
  | .skip count => (⟨[], min count queue.length⟩, queue.drop count)

/-! ## Windows of a circular array -/

/-- The `count` elements met from `start` on. -/
def window {α : Type*} (array : List α) (start count : Nat) : List α :=
  (array.rotate start).take count

theorem length_window {α : Type*} {array : List α} {count : Nat} (start : Nat)
    (count_le : count ≤ array.length) : (window array start count).length = count := by
  rw [window, List.length_take, List.length_rotate, Nat.min_eq_left count_le]

variable {α : Type*}

theorem take_window (array : List α) (start count taken : Nat) :
    (window array start count).take taken = window array start (min taken count) := by
  rw [window, List.take_take, window]

variable {array : List α} {count start : Nat}

/-- A window that ends before the array does is one piece of it. -/
theorem window_of_straight (straight : start + count ≤ array.length) :
    window array start count = (array.drop start).take count := by
  rw [window, List.rotate_eq_drop_append_take (by omega), List.take_append_of_le_length]
  rw [List.length_drop]
  omega

/-- A window that reaches the end of the array is two pieces of it. -/
theorem window_of_wrapped (start_le : start ≤ array.length) (count_le : count ≤ array.length)
    (wrapped : array.length ≤ start + count) :
    window array start count = array.drop start ++ array.take (count - (array.length - start)) := by
  rw [window, List.rotate_eq_drop_append_take start_le, List.take_append, List.length_drop,
    List.take_of_length_le (by rw [List.length_drop]; omega), List.take_take,
    Nat.min_eq_left (by omega)]

/-- The rest of a window is a window that starts later. -/
theorem drop_window {skipped : Nat} (skipped_le : skipped ≤ count)
    (count_le : count ≤ array.length) :
    (window array start count).drop skipped =
      window array ((start + skipped) % array.length) (count - skipped) := by
  have rotated : (array.rotate (start + skipped)).take (count - skipped) =
      ((array.rotate start).drop skipped).take (count - skipped) := by
    rw [← List.rotate_rotate, List.rotate_eq_drop_append_take (by rw [List.length_rotate]; omega),
      List.take_append_of_le_length]
    rw [List.length_drop, List.length_rotate]
    omega
  rw [window, window, List.rotate_mod, rotated, List.drop_take]

/-- Copy data into a circular array: one piece, or two when it reaches the end. -/
def copyCircular {α : Type*} (array : List α) (position : Nat) (data : List α) : List α :=
  if position + data.length < array.length then Memory.copyAt array position data
  else
    Memory.copyAt
      (Memory.copyAt array position (data.take (array.length - position))) 0
      (data.drop (array.length - position))

variable {position : Nat}

theorem copyCircular_nil (position_lt : position < array.length) :
    copyCircular array position [] = array := by
  rw [copyCircular, List.length_nil, Nat.add_zero, if_pos position_lt, Memory.copyAt,
    List.append_nil, List.length_nil, Nat.add_zero, List.take_append_drop]

theorem length_copyCircular {α : Type*} {array data : List α} {position : Nat}
    (position_lt : position < array.length) (data_le : data.length ≤ array.length) :
    (copyCircular array position data).length = array.length := by
  unfold copyCircular
  split
  · exact Memory.length_copyAt (by omega)
  · have first : (Memory.copyAt array position (data.take (array.length - position))).length =
        array.length := Memory.length_copyAt (by rw [List.length_take]; omega)
    rw [Memory.length_copyAt (by rw [first, List.length_drop]; omega), first]

variable {index length : Nat}

/-- The distance from a position to an index, going on at the front after the end. -/
theorem distance_eq (position_lt : position < length) (index_lt : index < length) :
    (index + (length - position)) % length =
      if position ≤ index then index - position else index + (length - position) := by
  split
  · rw [show index + (length - position) = index - position + length by omega,
      Nat.add_mod_right, Nat.mod_eq_of_lt (by omega)]
  · exact Nat.mod_eq_of_lt (by omega)

variable {data : List α}

/-- What an element is after the copy depends on its distance from the position. -/
theorem getElem?_copyCircular (position_lt : position < array.length)
    (data_le : data.length ≤ array.length) (index_lt : index < array.length) :
    (copyCircular array position data)[index]? =
      if (index + (array.length - position)) % array.length < data.length then
        data[(index + (array.length - position)) % array.length]?
      else array[index]? := by
  rw [distance_eq position_lt index_lt, copyCircular]
  by_cases after : position ≤ index
  · rw [if_pos after]
    split_ifs with straight inside inside
    · rw [Memory.getElem?_copyAt (by omega), if_pos (by omega)]
    · rw [Memory.getElem?_copyAt (by omega), if_neg (by omega)]
    · rw [Memory.getElem?_copyAt (Nat.zero_le _), if_neg (by rw [List.length_drop]; omega),
        Memory.getElem?_copyAt (by omega), if_pos (by rw [List.length_take]; omega),
        List.getElem?_take, if_pos (by omega)]
    · omega
  · rw [if_neg after]
    split_ifs with straight inside inside
    · omega
    · rw [Memory.getElem?_copyAt (by omega), if_neg (by omega)]
    · rw [Memory.getElem?_copyAt (Nat.zero_le _), if_pos (by rw [List.length_drop]; omega),
        List.getElem?_drop]
      congr 1
      omega
    · rw [Memory.getElem?_copyAt (Nat.zero_le _), if_neg (by rw [List.length_drop]; omega),
        Memory.getElem?_copyAt (by omega), if_neg (by omega)]

variable {place : Nat}

theorem getElem?_window (count_le : count ≤ array.length) (place_lt : place < count) :
    (window array start count)[place]? = array[(start + place) % array.length]? := by
  rw [window, List.getElem?_take, if_pos place_lt, List.getElem?_rotate (by omega),
    Nat.add_comm place start]

/-- A place of a window lies as far from the window's end as it does in the walk. -/
theorem distance_of_walk (start : Nat) (nonempty : 0 < length) (count_le : count ≤ length)
    (place_lt : place < length) :
    ((start + place) % length + (length - (start + count) % length)) % length =
      if count ≤ place then place - count else place + (length - count) := by
  have remainder_lt := Nat.mod_lt (start + count) nonempty
  have division := Nat.div_add_mod (start + count) length
  have shifted : start + place + (length - (start + count) % length) =
      place + (length - count) + length * ((start + count) / length) := by
    generalize length * ((start + count) / length) = turns at division ⊢
    omega
  rw [Nat.mod_add_mod, shifted, Nat.add_mul_mod_self_left]
  split
  · rw [show place + (length - count) = place - count + length by omega, Nat.add_mod_right,
      Nat.mod_eq_of_lt (by omega)]
  · exact Nat.mod_eq_of_lt (by omega)

/-- Data copied behind a window extends the window. -/
theorem window_copyCircular (nonempty : 0 < array.length)
    (room : count + data.length ≤ array.length) :
    window (copyCircular array ((start + count) % array.length) data) start
        (count + data.length) =
      window array start count ++ data := by
  have position_lt := Nat.mod_lt (start + count) nonempty
  have length_eq := @length_copyCircular _ array data _ position_lt (by omega)
  apply List.ext_getElem?
  intro place
  by_cases place_lt : place < count + data.length
  · have index_lt := Nat.mod_lt (start + place) nonempty
    rw [getElem?_window (by omega) place_lt, length_eq,
      getElem?_copyCircular position_lt (by omega) index_lt,
      distance_of_walk start nonempty (by omega) (by omega)]
    have old_length := @length_window _ array count start (by omega)
    by_cases old : place < count
    · rw [if_neg (show ¬ count ≤ place by omega), if_neg (by omega),
        List.getElem?_append_left (by omega), getElem?_window (by omega) old]
    · rw [if_pos (show count ≤ place by omega), if_pos (by omega),
        List.getElem?_append_right (by omega), old_length]
  · rw [List.getElem?_eq_none (by rw [length_window _ (by omega)]; omega),
      List.getElem?_eq_none (by
        rw [List.length_append, length_window _ (by omega)]
        omega)]

end BoundedQueue
