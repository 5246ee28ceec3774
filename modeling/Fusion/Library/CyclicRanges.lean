import Mathlib.Algebra.Group.Int.Defs
import Mathlib.Algebra.Group.Nat.Defs
import Mathlib.Data.List.Basic

/-!
# Ranges of words

A range of words begins somewhere on the cycle of all words and ends as many places further on.  A
word lies in it if its distance from the beginning is not greater than that of the end.  Read as
numbers of one period, signed or not, the words of a range are those between its ends.
-/

namespace CyclicRanges

variable {width : Nat}

/-- The place of a draw in a range, by its remainder; the range of all words has no width. -/
def pick (draw first last : BitVec width) : BitVec width :=
  if last - first + 1 ≠ 0 then draw % (last - first + 1) + first else draw + first

theorem toNat_add_one (distance : BitVec width) :
    (distance + 1).toNat = (distance.toNat + 1) % 2 ^ width := by
  rw [BitVec.toNat_add, BitVec.ofNat_eq_ofNat, BitVec.toNat_ofNat, Nat.add_mod_mod]

/-- The width of a range that does not take in all words is one more than its longest distance. -/
theorem toNat_add_one_of_ne_zero {distance : BitVec width} (bounded : distance + 1 ≠ 0) :
    (distance + 1).toNat = distance.toNat + 1 := by
  have below : distance.toNat + 1 ≠ 2 ^ width := by
    intro overflow
    apply bounded
    apply BitVec.eq_of_toNat_eq
    rw [toNat_add_one, overflow, Nat.mod_self]
    exact BitVec.toNat_zero.symm
  rw [toNat_add_one]
  exact Nat.mod_eq_of_lt (Nat.lt_of_le_of_ne distance.isLt below)

/-- Every draw falls into the range. -/
theorem pick_sub_le (draw first last : BitVec width) :
    pick draw first last - first ≤ last - first := by
  rw [pick, BitVec.le_def]
  by_cases bounded : last - first + 1 ≠ 0
  · have width_eq := toNat_add_one_of_ne_zero bounded
    rw [if_pos bounded, BitVec.add_sub_cancel, BitVec.toNat_umod, width_eq]
    exact Nat.le_of_lt_succ (Nat.mod_lt _ (Nat.succ_pos _))
  · have all : (last - first).toNat + 1 = 2 ^ width := by
      rw [not_not] at bounded
      have overflow := (congrArg BitVec.toNat bounded).trans BitVec.toNat_zero
      rw [toNat_add_one] at overflow
      have bound : (last - first).toNat + 1 ≤ 2 ^ width := (last - first).isLt
      exact Nat.le_antisymm bound (Nat.le_of_dvd (Nat.succ_pos _) (Nat.dvd_of_mod_eq_zero overflow))
    have small := (draw + first - first).isLt
    rw [if_neg bounded]
    omega

/-- Every word of the range is picked by some draw: its distance from the beginning. -/
theorem pick_sub {word first last : BitVec width} (inside : word - first ≤ last - first) :
    pick (word - first) first last = word := by
  rw [BitVec.le_def] at inside
  rw [pick]
  by_cases bounded : last - first + 1 ≠ 0
  · have width_eq := toNat_add_one_of_ne_zero bounded
    have kept : (word - first) % (last - first + 1) = word - first := by
      apply BitVec.eq_of_toNat_eq
      rw [BitVec.toNat_umod, width_eq]
      exact Nat.mod_eq_of_lt (Nat.lt_succ_of_le inside)
    rw [if_pos bounded, kept, BitVec.sub_add_cancel]
  · rw [if_neg bounded, BitVec.sub_add_cancel]

/-! ## Readings -/

/-- A way to read words as numbers: distances are kept modulo the number of words, and no two
numbers are further apart than that. -/
structure Reading (read : BitVec width → Int) : Prop where
  sub : ∀ x y, ((x - y).toNat : Int) = (read x - read y) % (2 ^ width : Nat)
  close : ∀ x y, read x - read y < (2 ^ width : Nat)

/-- The words of a range are those that are read between its ends. -/
theorem Reading.sub_le_sub_iff {read : BitVec width → Int} {first last : BitVec width}
    (reading : Reading read) (ordered : read first ≤ read last) (word : BitVec width) :
    word - first ≤ last - first ↔ read first ≤ read word ∧ read word ≤ read last := by
  have whole : ((last - first).toNat : Int) = read last - read first := by
    rw [reading.sub]
    exact Int.emod_eq_of_lt (by omega) (reading.close last first)
  rw [BitVec.le_def, ← Int.ofNat_le, whole, reading.sub]
  by_cases behind : read first ≤ read word
  · rw [Int.emod_eq_of_lt (by omega) (reading.close word first)]
    omega
  · -- A word before the beginning is at the far end of the cycle.
    have period := reading.close last word
    have period' := reading.close first word
    have far : (read word - read first) % (2 ^ width : Nat) =
        read word - read first + (2 ^ width : Nat) := by
      rw [← Int.add_emod_right]
      exact Int.emod_eq_of_lt (by omega) (by omega)
    rw [far]
    omega

theorem reading_toNat : Reading fun x : BitVec width => (x.toNat : Int) := by
  refine ⟨fun x y => ?_, fun x y => ?_⟩
  · have bound := y.isLt
    rw [BitVec.toNat_sub, Int.natCast_emod]
    have shifted : ((2 ^ width - y.toNat + x.toNat : Nat) : Int) =
        (x.toNat : Int) - y.toNat + (2 ^ width : Nat) := by
      omega
    rw [shifted, Int.add_emod_right]
  · have bound := x.isLt
    omega

theorem reading_toInt : Reading (BitVec.toInt : BitVec width → Int) := by
  refine ⟨fun x y => ?_, fun x y => ?_⟩
  · rw [reading_toNat.sub, BitVec.toInt_eq_toNat_bmod, BitVec.toInt_eq_toNat_bmod, Int.sub_emod,
      ← @Int.bmod_emod x.toNat, ← @Int.bmod_emod y.toNat, ← Int.sub_emod]
  · cases width with
    | zero =>
      rw [Subsingleton.elim x y, Int.sub_self]
      exact Int.zero_lt_one
    | succ half =>
      have x_bound := @BitVec.toInt_lt _ x
      have y_bound := y.le_toInt
      have doubled : ((2 ^ (half + 1) : Nat) : Int) = 2 ^ half + 2 ^ half := by
        rw [Nat.pow_succ, Nat.mul_two, Int.natCast_add, Int.natCast_pow]
        rfl
      rw [doubled]
      rw [Nat.add_sub_cancel] at x_bound y_bound
      omega

end CyclicRanges
