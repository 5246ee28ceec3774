import Fusion.Ascii.Characters
import Fusion.Library.FirstDifference
import Mathlib.Data.Char

/-!
# Comparing strings

`Compare` and `CompareI` look at as many characters as the shorter string has and stop behind a NUL
of the first one.  So a string equals all of its beginnings, and `Equal` is not transitive.
-/

namespace Fusion.StringUtil

open FirstDifference

/-- The loop over `length` characters of both strings, with `convert` applied to each. -/
def compareLoop (convert : Char → Char) : Nat → List Char → List Char → Int
  | length + 1, first :: a, second :: b =>
    let x := (convert first).toNat
    let y := (convert second).toNat
    if x = 0 ∨ x ≠ y then (x : Int) - y else compareLoop convert length a b
  | _, _, _ => 0

def compare (a b : List Char) : Int := compareLoop id (min a.length b.length) a b

def compareI (a b : List Char) : Int := compareLoop Ascii.toLower (min a.length b.length) a b

def equal (a b : List Char) : Bool := compare a b = 0

def equalI (a b : List Char) : Bool := compareI a b = 0

def less (a b : List Char) : Bool := compare a b < 0

def lessI (a b : List Char) : Bool := compareI a b < 0

/-- A string up to its first NUL and with it. -/
def upToNul : List Char → List Char
  | [] => []
  | symbol :: text => if symbol.toNat = 0 then [symbol] else symbol :: upToNul text

/-- What a comparison sees of a string. -/
def seen (convert : Char → Char) (text : List Char) : List Char := upToNul (text.map convert)

theorem upToNul_cons (symbol : Char) (text : List Char) :
    upToNul (symbol :: text) = symbol :: if symbol.toNat = 0 then [] else upToNul text := by
  rw [upToNul]
  split <;> rfl

theorem toNat_lt_iff {x y : Char} : x.toNat < y.toNat ↔ x < y := Iff.rfl

/-- The sign of the result tells which string comes first. -/
theorem compareLoop_sign (convert : Char → Char) (a b : List Char) :
    (compareLoop convert (min a.length b.length) a b < 0 ↔
        Before (seen convert a) (seen convert b)) ∧
      (0 < compareLoop convert (min a.length b.length) a b ↔
        Before (seen convert b) (seen convert a)) := by
  induction a generalizing b with
  | nil =>
    have nothing : seen convert [] = [] := rfl
    rw [List.length_nil, Nat.zero_min, compareLoop, nothing]
    · simp [not_before_nil_left, not_before_nil_right]
    · simp
  | cons first a ih =>
    cases b with
    | nil =>
      have nothing : seen convert [] = [] := rfl
      rw [List.length_nil, Nat.min_zero, compareLoop, nothing]
      · simp [not_before_nil_left, not_before_nil_right]
      · simp
    | cons second b =>
      rw [List.length_cons, List.length_cons, Nat.succ_min_succ, compareLoop, seen, seen,
        List.map_cons, List.map_cons, upToNul_cons, upToNul_cons, before_cons_iff,
        before_cons_iff]
      generalize convert first = x
      generalize convert second = y
      by_cases same : x.toNat = y.toNat
      · obtain rfl : x = y := Char.toNat_inj.mp same
        by_cases nul : x.toNat = 0
        · simp [nul, not_before_nil_left]
        · simp only [nul, ne_eq, not_true_eq_false, or_self, if_false, lt_irrefl, true_and,
            false_or]
          exact ih b
      · have different : x ≠ y := fun equal => same (congrArg Char.toNat equal)
        rw [if_pos (.inr same)]
        simp only [different, different.symm, false_and, or_false, ← toNat_lt_iff]
        omega

theorem compareLoop_eq_zero_iff (convert : Char → Char) (a b : List Char) :
    compareLoop convert (min a.length b.length) a b = 0 ↔
      Aligned (seen convert a) (seen convert b) := by
  obtain ⟨negative_iff, positive_iff⟩ := compareLoop_sign convert a b
  rw [aligned_iff, ← negative_iff, ← positive_iff]
  omega

theorem seen_begins_of_length_le {convert : Char → Char} {a b : List Char}
    (shorter : a.length ≤ b.length) (begins : seen convert b <+: seen convert a) :
    seen convert a = seen convert b := by
  induction b generalizing a with
  | nil =>
    obtain rfl := List.length_eq_zero_iff.mp (Nat.le_zero.mp shorter)
    rfl
  | cons second b ih =>
    cases a with
    | nil => exact absurd (List.prefix_nil.mp begins) (by simp [seen, upToNul_cons])
    | cons first a =>
      rw [seen, seen, List.map_cons, List.map_cons, upToNul_cons, upToNul_cons,
        List.cons_prefix_cons] at begins
      obtain ⟨same, begins⟩ := begins
      rw [seen, seen, List.map_cons, List.map_cons, upToNul_cons, upToNul_cons, same]
      rw [same] at begins
      by_cases nul : (convert first).toNat = 0
      · rw [if_pos nul, if_pos nul]
      · rw [if_neg nul, if_neg nul] at begins ⊢
        exact congrArg _ (ih (Nat.le_of_succ_le_succ shorter) begins)

/-- A strict order whose incomparable strings are the equal ones; these are no classes, but equality
carries over a string that is not shorter than both of its neighbours. -/
structure OrdersStrings (less equal : List Char → List Char → Bool) : Prop where
  irrefl : ∀ a, less a a = false
  trans : ∀ a b c, less a b = true → less b c = true → less a c = true
  equal_iff : ∀ a b, equal a b = true ↔ less a b = false ∧ less b a = false
  equal_refl : ∀ a, equal a a = true
  equal_symm : ∀ a b, equal a b = true → equal b a = true
  equal_trans : ∀ a b c, a.length ≤ b.length ∨ c.length ≤ b.length →
    equal a b = true → equal b c = true → equal a c = true

theorem ordersStrings_compareLoop (convert : Char → Char) :
    OrdersStrings (fun a b => compareLoop convert (min a.length b.length) a b < 0)
      (fun a b => compareLoop convert (min a.length b.length) a b = 0) := by
  have less_iff := fun a b => (compareLoop_sign convert a b).1
  constructor <;> simp only [decide_eq_true_eq, decide_eq_false_iff_not, less_iff,
    compareLoop_eq_zero_iff]
  · exact fun a => Before.irrefl _
  · exact fun a b c first second => first.trans second
  · exact fun a b => aligned_iff
  · exact fun a => .inl (List.prefix_refl _)
  · exact fun a b aligned => aligned.symm
  · intro a b c longest first second
    -- What is seen of a neighbour that is not longer begins what is seen of the middle one.
    have begins_of : ∀ {d}, d.length ≤ b.length → Aligned (seen convert d) (seen convert b) →
        seen convert d <+: seen convert b := by
      intro d shorter aligned
      rcases aligned with begins | begins
      · exact begins
      · exact seen_begins_of_length_le shorter begins ▸ begins
    rcases longest with shorter | shorter
    · exact Aligned.of_begins (begins_of shorter first) second
    · exact (Aligned.of_begins (begins_of shorter second.symm) first.symm).symm

/-- `Less` and `LessI` are strict orders, with `Equal` and `EqualI` as incomparability. -/
theorem less_ordersStrings : OrdersStrings less equal ∧ OrdersStrings lessI equalI :=
  ⟨ordersStrings_compareLoop id, ordersStrings_compareLoop Ascii.toLower⟩

/-- The empty string equals two strings that are in order. -/
theorem equal_not_transitive :
    (equal "a".toList [] = true ∧ equal [] "b".toList = true ∧ less "a".toList "b".toList = true) ∧
      equalI "a".toList [] = true ∧ equalI [] "b".toList = true ∧
        lessI "a".toList "b".toList = true := by
  decide

end Fusion.StringUtil
