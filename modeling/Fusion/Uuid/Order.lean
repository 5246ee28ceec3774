import Fusion.Ascii.Hex
import Fusion.Memory.Comparison
import Fusion.Uuid.Parsing
import Mathlib.Data.Char
import Mathlib.Data.List.SplitLengths

/-!
# The text of UUIDs

A UUID is read back from its text, and UUIDs are ordered as their texts are.
-/

namespace Fusion.UUID

open FirstDifference Ascii

/-- The text of bytes in groups: two lower-case hexadecimal digits for each byte, and a dash between
the groups. -/
def groupedText (groups : List (List UInt8)) : List Char :=
  ['-'].intercalate (groups.map encoded)

/-- The bytes as the format of UUIDs groups them. -/
def groups (uuid : UUID) : List (List UInt8) := [4, 2, 2, 2, 6].splitLengths uuid.bytes

/-- `ToString` as a `std::string`. -/
def toString (uuid : UUID) : List Char := groupedText uuid.groups

/-! ## Operators -/

/-- `operator==`. -/
def equal (left right : UUID) : Bool := MemoryUtil.equal left.bytes right.bytes size

/-- `operator<`. -/
def less (left right : UUID) : Bool := MemoryUtil.less left.bytes right.bytes size

/-- `operator<=`. -/
def lessEqual (left right : UUID) : Bool :=
  memcmp (left.bytes.take size) (right.bytes.take size) ≠ .gt

/-- `operator>`. -/
def greater (left right : UUID) : Bool :=
  memcmp (left.bytes.take size) (right.bytes.take size) = .gt

/-- `operator>=`. -/
def greaterEqual (left right : UUID) : Bool :=
  memcmp (left.bytes.take size) (right.bytes.take size) ≠ .lt

/-! ## Reading a text back -/

variable (uuid : UUID) (group : List UInt8)

theorem flatten_groups : uuid.groups.flatten = uuid.bytes :=
  List.flatten_splitLengths _ _ (Nat.le_of_eq uuid.length_bytes)

theorem map_length_groups : uuid.groups.map List.length = [4, 2, 2, 2, 6] :=
  List.map_splitLengths_length _ _ (Nat.le_of_eq uuid.length_bytes.symm)

theorem groupedText_cons_cons (next : List UInt8) (groups : List (List UInt8)) :
    groupedText (group :: next :: groups) =
      encoded group ++ '-' :: groupedText (next :: groups) := by
  simp [groupedText, List.intercalate]

theorem groupedText_singleton : groupedText [group] = encoded group := by
  simp [groupedText, List.intercalate]

theorem isHex_digitChar : ∀ nibble < 16, isHex (Nat.digitChar nibble) = true := by
  decide

theorem Spells.append {front rest : List Char} {bytes others : List UInt8}
    (spells : Spells front bytes) (behind : Spells rest others) :
    Spells (front ++ rest) (bytes ++ others) := by
  induction spells with
  | nil => exact behind
  | dash _ ih => exact .dash ih
  | pair high_hex low_hex _ ih => exact .pair high_hex low_hex ih

theorem Spells.unique {text : List Char} {bytes others : List UInt8} (spells : Spells text bytes)
    (other : Spells text others) : bytes = others :=
  spells.digits.2.symm.trans other.digits.2

theorem spells_encoded (bytes : List UInt8) : Spells (encoded bytes) bytes := by
  induction bytes with
  | nil => exact .nil
  | cons byte bytes ih =>
    have high_hex : isHex (highCharacter byte) = true := by
      rw [highCharacter_eq]
      exact isHex_digitChar _ (Nat.div_lt_of_lt_mul byte.toNat_lt)
    have low_hex : isHex (lowCharacter byte) = true := by
      rw [lowCharacter_eq]
      exact isHex_digitChar _ (Nat.mod_lt _ (by decide))
    have paired := Spells.pair high_hex low_hex ih
    rw [toHexByte_characters] at paired
    rw [encoded_cons]
    exact paired

theorem spells_groupedText (groups : List (List UInt8)) :
    Spells (groupedText groups) groups.flatten := by
  induction groups with
  | nil => exact .nil
  | cons group groups ih =>
    cases groups with
    | nil =>
      rw [groupedText_singleton, List.flatten_singleton]
      exact spells_encoded group
    | cons next groups =>
      rw [groupedText_cons_cons, List.flatten_cons]
      exact (spells_encoded group).append (.dash ih)

theorem spells_toString : Spells uuid.toString uuid.bytes := by
  have spells := spells_groupedText uuid.groups
  rwa [flatten_groups] at spells

theorem length_groupedText (groups : List (List UInt8)) :
    (groupedText (group :: groups)).length =
      2 * (group :: groups).flatten.length + groups.length := by
  induction groups generalizing group with
  | nil => rw [groupedText_singleton, length_encoded, List.flatten_singleton]; rfl
  | cons next groups ih =>
    rw [groupedText_cons_cons, List.length_append, length_encoded, List.length_cons, ih,
      @List.flatten_cons _ group, List.length_append, List.length_cons]
    omega

theorem length_toString : uuid.toString.length = 36 := by
  have groups_length := congrArg List.length uuid.map_length_groups
  rw [List.length_map] at groups_length
  have bytes_length := congrArg List.length uuid.flatten_groups
  rw [uuid.length_bytes] at bytes_length
  rw [toString]
  cases groups_eq : uuid.groups with
  | nil =>
    rw [groups_eq] at groups_length
    cases groups_length
  | cons group groups =>
    rw [groups_eq] at groups_length bytes_length
    rw [length_groupedText, bytes_length, Nat.succ.inj groups_length]
    rfl

example : toString zero = "00000000-0000-0000-0000-000000000000".toList := by
  decide

theorem bytes_inj {left right : UUID} : left.bytes = right.bytes ↔ left = right := by
  cases left
  cases right
  rw [UUID.mk.injEq]

theorem fromString_toString : fromString uuid.toString = some (.ok uuid) := by
  have even : (uuid.toString ++ []).length % 2 = 0 := by rw [List.append_nil, length_toString]
  have not_lone : ¬LoneDigit [] := fun lone => Nat.zero_ne_one lone.length_eq
  obtain ⟨parsed, bytes_eq, accepted⟩ :=
    fromString_of_full (spells_toString uuid) .nil even uuid.length_bytes not_lone
  rwa [List.append_nil, bytes_inj.mp bytes_eq] at accepted

/-! ## Order -/

theorem digitChar_lt_iff : ∀ left < 16, ∀ right < 16,
    Nat.digitChar left < Nat.digitChar right ↔ left < right := by
  decide

theorem digitChar_inj : ∀ left < 16, ∀ right < 16,
    Nat.digitChar left = Nat.digitChar right ↔ left = right := by
  decide

theorem before_encoded_singleton (left right : UInt8) :
    Before (encoded [left]) (encoded [right]) ↔ left.toNat < right.toNat := by
  have left_lt := left.toNat_lt
  have right_lt := right.toNat_lt
  change Before [Nat.digitChar (left.toNat / 16), Nat.digitChar (left.toNat % 16)]
    [Nat.digitChar (right.toNat / 16), Nat.digitChar (right.toNat % 16)] ↔ _
  rw [before_cons_iff, before_cons_iff,
    digitChar_lt_iff _ (by omega) _ (by omega), digitChar_lt_iff _ (by omega) _ (by omega),
    digitChar_inj _ (by omega) _ (by omega), digitChar_inj _ (by omega) _ (by omega)]
  simp only [not_before_nil_left, and_false, or_false]
  omega

theorem encoded_inj {left right : List UInt8} : encoded left = encoded right ↔ left = right := by
  constructor
  · intro same
    have spells := spells_encoded left
    rw [same] at spells
    exact spells.unique (spells_encoded right)
  · exact congrArg encoded

theorem before_encoded_iff {left right : List UInt8} (length_eq : left.length = right.length) :
    Before (encoded left) (encoded right) ↔
      Before (left.map UInt8.toNat) (right.map UInt8.toNat) := by
  induction left generalizing right with
  | nil => exact iff_of_false (not_before_nil_left _) (not_before_nil_left _)
  | cons byte left ih =>
    cases right with
    | nil => cases length_eq
    | cons other right =>
      have pair_length : (encoded [byte]).length = (encoded [other]).length := rfl
      change Before (encoded [byte] ++ encoded left)
        (encoded [other] ++ encoded right) ↔ _
      rw [before_append_iff pair_length, before_encoded_singleton, encoded_inj,
        ih (Nat.succ.inj length_eq), List.map_cons, List.map_cons, before_cons_iff,
        UInt8.toNat_inj, List.singleton_inj]

/-- Texts of groups of the same sizes are ordered as the bytes are. -/
theorem before_groupedText_iff {lefts rights : List (List UInt8)}
    (shapes : lefts.map List.length = rights.map List.length) :
    Before (groupedText lefts) (groupedText rights) ↔
      Before (lefts.flatten.map UInt8.toNat) (rights.flatten.map UInt8.toNat) := by
  induction lefts generalizing rights with
  | nil =>
    rw [List.map_eq_nil_iff.mp shapes.symm]
    exact iff_of_false (not_before_nil_left _) (not_before_nil_left _)
  | cons left lefts ih =>
    cases rights with
    | nil => cases shapes
    | cons right rights =>
      obtain ⟨length_eq, shapes⟩ := List.cons.inj shapes
      have texts_length : (encoded left).length = (encoded right).length := by
        rw [length_encoded, length_encoded, length_eq]
      have bytes_length : (left.map UInt8.toNat).length = (right.map UInt8.toNat).length := by
        rw [List.length_map, List.length_map, length_eq]
      have bytes_inj : left.map UInt8.toNat = right.map UInt8.toNat ↔ left = right :=
        (List.map_injective_iff.mpr fun _ _ => UInt8.toNat_inj.mp).eq_iff
      rw [List.flatten_cons, List.flatten_cons, List.map_append, List.map_append,
        before_append_iff bytes_length, bytes_inj, ← ih shapes, ← before_encoded_iff length_eq]
      cases lefts with
      | nil =>
        rw [List.map_eq_nil_iff.mp shapes.symm, groupedText_singleton, groupedText_singleton]
        exact (or_iff_left fun both => not_before_nil_left _ both.2).symm
      | cons next lefts =>
        cases rights with
        | nil => cases shapes
        | cons other rights =>
          rw [groupedText_cons_cons, groupedText_cons_cons, before_append_iff texts_length,
            encoded_inj, before_cons_iff, eq_self, true_and, or_iff_right (lt_irrefl '-')]

theorem before_toString_iff (left right : UUID) :
    Before left.toString right.toString ↔
      Before (left.bytes.map UInt8.toNat) (right.bytes.map UInt8.toNat) := by
  have shapes := left.map_length_groups.trans right.map_length_groups.symm
  rw [toString, toString, before_groupedText_iff shapes, flatten_groups, flatten_groups]

theorem toString_lt_iff (left right : UUID) :
    left.toString < right.toString ↔ memcmp left.bytes right.bytes = .lt := by
  rw [lt_iff_before (by rw [length_toString, length_toString]), before_toString_iff,
    (MemoryUtil.memcmp_iff _ _).1]

theorem toString_inj {left right : UUID} : left.toString = right.toString ↔ left = right := by
  constructor
  · intro same
    have parsed := fromString_toString left
    rw [same, fromString_toString] at parsed
    exact (Except.ok.inj (Option.some.inj parsed)).symm
  · exact congrArg toString

theorem take_bytes : uuid.bytes.take size = uuid.bytes :=
  List.take_of_length_le (Nat.le_of_eq uuid.length_bytes)

section Operators

variable (left right : UUID)

theorem less_iff : less left right = true ↔ left.toString < right.toString := by
  rw [less, MemoryUtil.less, take_bytes, take_bytes, decide_eq_true_eq, toString_lt_iff]

theorem greater_iff : greater left right = true ↔ right.toString < left.toString := by
  rw [greater, take_bytes, take_bytes, decide_eq_true_eq, toString_lt_iff,
    memcmp_swap left.bytes, Ordering.swap_eq_lt]

theorem lessEqual_iff : lessEqual left right = true ↔ left.toString ≤ right.toString := by
  have not_greater : lessEqual left right = true ↔ ¬greater left right = true := by
    rw [lessEqual, greater, decide_eq_true_eq, decide_eq_true_eq]
  rw [not_greater, greater_iff, not_lt]

theorem greaterEqual_iff : greaterEqual left right = true ↔ right.toString ≤ left.toString := by
  have not_less : greaterEqual left right = true ↔ ¬less left right = true := by
    rw [greaterEqual, less, MemoryUtil.less, decide_eq_true_eq, decide_eq_true_eq]
  rw [not_less, less_iff, not_lt]

theorem equal_iff_toString : equal left right = true ↔ left.toString = right.toString := by
  have length_eq := left.length_bytes.trans right.length_bytes.symm
  rw [equal, MemoryUtil.equal_iff length_eq, take_bytes, take_bytes, toString_inj, bytes_inj]

end Operators

/-- The text of a UUID stands for it: it is read back, it compares as the UUID does, and sorting
the texts sorts the UUIDs. -/
theorem toString_represents :
    (∀ uuid : UUID, fromString uuid.toString = some (.ok uuid)) ∧
    (∀ left right : UUID,
      (less left right = true ↔ left.toString < right.toString) ∧
      (lessEqual left right = true ↔ left.toString ≤ right.toString) ∧
      (equal left right = true ↔ left.toString = right.toString) ∧
      (greater left right = true ↔ left.toString > right.toString) ∧
      (greaterEqual left right = true ↔ left.toString ≥ right.toString)) ∧
    ∀ uuids : List UUID,
      (uuids.mergeSort lessEqual).map toString = (uuids.map toString).mergeSort := by
  refine ⟨fromString_toString, fun left right => ?_, fun uuids => ?_⟩
  · exact ⟨less_iff left right, lessEqual_iff left right, equal_iff_toString left right,
      greater_iff left right, greaterEqual_iff left right⟩
  · apply List.map_mergeSort
    intro left _ right _
    rw [Bool.eq_iff_iff, decide_eq_true_eq]
    exact lessEqual_iff left right

end Fusion.UUID
