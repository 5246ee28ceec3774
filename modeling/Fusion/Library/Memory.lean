import Mathlib.Data.List.Basic

/-!
# Bounded memory as lists

A fixed array is a list whose length never changes.  The primitives are the copy of a source
at an offset and the fill of a suffix, which preserve the length of the array, and the guarded
read and copy of a piece that lies inside it.
-/

namespace Memory

/-- Copy `source` over `target`, starting at `offset`. -/
def copyAt {α : Type*} (target : List α) (offset : Nat) (source : List α) : List α :=
  target.take offset ++ source ++ target.drop (offset + source.length)

/-- Overwrite every element from `offset` on with `value`. -/
def fillFrom {α : Type*} (target : List α) (offset : Nat) (value : α) : List α :=
  target.take offset ++ List.replicate (target.length - offset) value

/-- Read `count` elements from `offset` on, unless they reach outside the array. -/
def load {α : Type*} (array : List α) (offset count : Nat) : Option (List α) :=
  if offset + count ≤ array.length then some ((array.drop offset).take count) else none

/-- Copy `source` over `target` from `offset` on, unless it reaches outside the array. -/
def store {α : Type*} (target : List α) (offset : Nat) (source : List α) : Option (List α) :=
  if offset + source.length ≤ target.length then some (copyAt target offset source) else none

variable {count offset : Nat} {α : Type*}

theorem load_eq_some {array : List α} (fits : offset + count ≤ array.length) :
    load array offset count = some ((array.drop offset).take count) :=
  if_pos fits

variable {source target : List α}

theorem store_eq_some (fits : offset + source.length ≤ target.length) :
    store target offset source = some (copyAt target offset source) :=
  if_pos fits

theorem load_eq_some_iff {array values : List α} :
    load array offset count = some values ↔
      offset + count ≤ array.length ∧ (array.drop offset).take count = values := by
  rw [load, Option.ite_none_right_eq_some, Option.some.injEq]

theorem store_eq_some_iff {stored : List α} :
    store target offset source = some stored ↔
      offset + source.length ≤ target.length ∧ copyAt target offset source = stored := by
  rw [store, Option.ite_none_right_eq_some, Option.some.injEq]

@[simp] theorem copyAt_nil (target : List α) (offset : Nat) : copyAt target offset [] = target := by
  rw [copyAt, List.append_nil, List.length_nil, Nat.add_zero, List.take_append_drop]

theorem length_copyAt (fits : offset + source.length ≤ target.length) :
    (copyAt target offset source).length = target.length := by
  simp only [copyAt, List.length_append, List.length_take, List.length_drop]
  omega

theorem length_fillFrom (target : List α) (value : α) (fits : offset ≤ target.length) :
    (fillFrom target offset value).length = target.length := by
  simp only [fillFrom, List.length_append, List.length_take, List.length_replicate]
  omega

/-- The initialized prefix after a copy is the old prefix followed by the source. -/
theorem take_copyAt {α : Type*} {target source : List α} {offset : Nat}
    (fits : offset ≤ target.length) :
    (copyAt target offset source).take (offset + source.length) = target.take offset ++ source := by
  rw [copyAt]
  apply List.take_left'
  simp only [List.length_append, List.length_take]
  omega

/-- A copy changes the elements of its range and no others. -/
theorem getElem?_copyAt (fits : offset ≤ target.length) (index : Nat) :
    (copyAt target offset source)[index]? =
      if offset ≤ index ∧ index < offset + source.length then source[index - offset]?
      else target[index]? := by
  have take_length : (target.take offset).length = offset := by
    rw [List.length_take, Nat.min_eq_left fits]
  rw [copyAt, List.append_assoc, List.getElem?_append, take_length]
  split_ifs with before inside inside
  · omega
  · rw [List.getElem?_take, if_pos before]
  · rw [List.getElem?_append_left (by omega)]
  · rw [List.getElem?_append_right (by omega), List.getElem?_drop]
    congr 1
    omega

theorem copyAt_singleton (value : α) (inside : offset < target.length) :
    copyAt target offset [value] = target.set offset value := by
  rw [copyAt, List.set_eq_take_append_cons_drop, if_pos inside, List.append_assoc]
  rfl

/-- A single element is stored by setting it. -/
theorem store_singleton_eq_some_iff {stored : List α} {value : α} :
    store target offset [value] = some stored ↔
      offset < target.length ∧ target.set offset value = stored := by
  rw [store_eq_some_iff, List.length_singleton, Nat.add_one_le_iff]
  refine and_congr_right fun inside => ?_
  rw [copyAt_singleton value inside]

/-- A copy leaves what lies before it. -/
theorem take_copyAt_of_le (before : count ≤ offset) (fits : offset ≤ target.length) :
    (copyAt target offset source).take count = target.take count := by
  rw [copyAt, List.append_assoc, List.take_append_of_le_length
    (by rw [List.length_take]; omega), List.take_take, Nat.min_eq_left before]

theorem drop_copyAt (fits : offset ≤ target.length) :
    (copyAt target offset source).drop offset = source ++ target.drop (offset + source.length) := by
  rw [copyAt, List.append_assoc]
  exact List.drop_left' (by rw [List.length_take, Nat.min_eq_left fits])

/-- Two copies, one right behind the other, are one. -/
theorem copyAt_append {α : Type*} {target left right : List α} {offset : Nat}
    (fits : offset ≤ target.length) :
    copyAt (copyAt target offset left) (offset + left.length) right =
      copyAt target offset (left ++ right) := by
  have behind : (copyAt target offset left).drop (offset + left.length + right.length) =
      target.drop (offset + (left ++ right).length) := by
    rw [Nat.add_assoc, ← List.drop_drop, drop_copyAt fits, ← List.drop_drop, List.drop_left,
      List.drop_drop, List.length_append, Nat.add_assoc]
  rw [copyAt, take_copyAt fits, behind, copyAt, ← List.append_assoc]

/-- A piece is inserted by copying what follows out of its way first. -/
theorem take_copyAt_shifted {piece tail : List α}
    (fits : offset + piece.length + tail.length ≤ target.length) :
    (copyAt (copyAt target (offset + piece.length) tail) offset piece).take
        (offset + piece.length + tail.length) =
      target.take offset ++ piece ++ tail := by
  have shifted_length : (copyAt target (offset + piece.length) tail).length = target.length :=
    length_copyAt fits
  rw [copyAt, drop_copyAt (by omega), take_copyAt_of_le (by omega) (by omega), ← List.append_assoc]
  apply List.take_left'
  simp only [List.length_append, List.length_take]
  omega

/-- Read `count` elements from `offset` on; outside the array there is the fallback. -/
def peek {α : Type*} (fallback : α) (array : List α) (offset count : Nat) : List α :=
  (List.range count).map fun place => array.getD (offset + place) fallback

@[simp] theorem length_peek (fallback : α) (array : List α) (offset count : Nat) :
    (peek fallback array offset count).length = count := by
  simp [peek]

variable {fallback : α}

/-- A copy is read back. -/
theorem peek_copyAt (fits : offset ≤ target.length) :
    peek fallback (copyAt target offset source) offset source.length = source := by
  apply List.ext_getElem
  · simp
  · intro place _ place_lt
    simp [peek, List.getD_eq_getElem?_getD, getElem?_copyAt fits, place_lt]

/-- A copy does not change what is read before or after it. -/
theorem peek_copyAt_of_apart {start : Nat} (fits : offset ≤ target.length)
    (apart : start + count ≤ offset ∨ offset + source.length ≤ start) :
    peek fallback (copyAt target offset source) start count = peek fallback target start count := by
  apply List.map_congr_left
  intro place place_mem
  have place_lt := List.mem_range.mp place_mem
  rw [List.getD_eq_getElem?_getD, getElem?_copyAt fits, if_neg (by omega),
    List.getD_eq_getElem?_getD]

/-- Copy the pieces, each at its offset, one after another. -/
def copyAll {α : Type*} (target : List α) (pieces : List (Nat × List α)) : List α :=
  pieces.foldl (fun target piece => copyAt target piece.1 piece.2) target

/-- The pieces lie inside an array of this length. -/
def Fit {α : Type*} (pieces : List (Nat × List α)) (length : Nat) : Prop :=
  ∀ piece ∈ pieces, piece.1 + piece.2.length ≤ length

variable {pieces : List (Nat × List α)}

theorem Fit.tail {piece : Nat × List α} (fit : Fit (piece :: pieces) target.length) :
    Fit pieces (copyAt target piece.1 piece.2).length := by
  intro later member
  rw [length_copyAt (fit piece List.mem_cons_self)]
  exact fit later (List.mem_cons_of_mem _ member)

theorem length_copyAll (fit : Fit pieces target.length) :
    (copyAll target pieces).length = target.length := by
  induction pieces generalizing target with
  | nil => rfl
  | cons piece pieces ih =>
    rw [copyAll, List.foldl_cons, ← copyAll, ih fit.tail,
      length_copyAt (fit piece List.mem_cons_self)]

theorem peek_copyAll_of_apart {start : Nat} (fit : Fit pieces target.length)
    (apart : ∀ piece ∈ pieces, start + count ≤ piece.1 ∨ piece.1 + piece.2.length ≤ start) :
    peek fallback (copyAll target pieces) start count = peek fallback target start count := by
  induction pieces generalizing target with
  | nil => rfl
  | cons piece pieces ih =>
    have inside := fit piece List.mem_cons_self
    rw [copyAll, List.foldl_cons, ← copyAll,
      ih fit.tail fun later member => apart later (List.mem_cons_of_mem _ member)]
    exact peek_copyAt_of_apart (by omega) (apart piece List.mem_cons_self)

/-- A piece is read back if those copied after it lie apart from it. -/
theorem peek_copyAll {α : Type*} (fallback : α) {target source : List α}
    {pieces : List (Nat × List α)} {index offset count : Nat}
    (found : pieces[index]? = some (offset, source)) (length_eq : source.length = count)
    (fit : Fit pieces target.length)
    (apart : ∀ later ∈ pieces.drop (index + 1),
      offset + count ≤ later.1 ∨ later.1 + later.2.length ≤ offset) :
    peek fallback (copyAll target pieces) offset count = source := by
  obtain ⟨index_lt, piece_eq⟩ := List.getElem?_eq_some_iff.mp found
  have split : pieces = pieces.take index ++ (offset, source) :: pieces.drop (index + 1) := by
    rw [← piece_eq, ← List.drop_eq_getElem_cons index_lt, List.take_append_drop]
  have earlier : (copyAll target (pieces.take index)).length = target.length :=
    length_copyAll fun other member => fit other (List.mem_of_mem_take member)
  have inside : offset + source.length ≤ (copyAll target (pieces.take index)).length := by
    rw [earlier]
    exact fit (offset, source) (List.mem_of_getElem? found)
  have later_fit : Fit (pieces.drop (index + 1))
      (copyAt (copyAll target (pieces.take index)) offset source).length := by
    intro later member
    rw [length_copyAt inside, earlier]
    exact fit later (List.mem_of_mem_drop member)
  subst length_eq
  calc
    peek fallback (copyAll target pieces) offset source.length
        = peek fallback (copyAll (copyAt (copyAll target (pieces.take index)) offset source)
            (pieces.drop (index + 1))) offset source.length := by
      rw [split, copyAll, List.foldl_append, List.foldl_cons, ← split]
      rfl
    _ = peek fallback (copyAt (copyAll target (pieces.take index)) offset source) offset
          source.length := peek_copyAll_of_apart later_fit apart
    _ = source := peek_copyAt (by omega)

/-- A copy that reaches the end of the array replaces its whole suffix. -/
theorem copyAt_of_end (fills : offset + source.length = target.length) :
    copyAt target offset source = target.take offset ++ source := by
  rw [copyAt, fills, List.drop_length, List.append_nil]

end Memory
