import Mathlib.Data.List.Basic
import Mathlib.Data.List.Lex
import Mathlib.Order.Lattice

/-!
# Words ordered by their first difference

Two words are compared where they first differ.  A word and a continuation of it do not differ, so
neither comes first, and this is not a transitive relation: a common beginning of two words does not
tell them apart.
-/

namespace FirstDifference

variable {α : Type*}

/-- One of the words is a beginning of the other. -/
def Aligned (left right : List α) : Prop := left <+: right ∨ right <+: left

variable {left right : List α}

theorem Aligned.symm (aligned : Aligned left right) : Aligned right left :=
  Or.symm aligned

/-- A beginning of a word is aligned with what the word is aligned with. -/
theorem Aligned.of_begins {middle : List α} (begins : left <+: middle)
    (aligned : Aligned middle right) : Aligned left right := by
  rcases aligned with shorter | longer
  · exact .inl (begins.trans shorter)
  · exact List.prefix_or_prefix_of_prefix begins longer

variable [LinearOrder α]

/-- The left word is smaller where the words first differ. -/
inductive Before : List α → List α → Prop
  | here {x y : α} {left right : List α} (smaller : x < y) : Before (x :: left) (y :: right)
  | later {x : α} {left right : List α} (before : Before left right) :
      Before (x :: left) (x :: right)

theorem not_before_nil_left (word : List α) : ¬Before [] word := by
  intro before
  cases before

theorem not_before_nil_right (word : List α) : ¬Before word [] := by
  intro before
  cases before

theorem before_cons_iff {x y : α} :
    Before (x :: left) (y :: right) ↔ x < y ∨ x = y ∧ Before left right := by
  constructor
  · intro before
    cases before with
    | here smaller => exact .inl smaller
    | later before => exact .inr ⟨rfl, before⟩
  · rintro (smaller | ⟨rfl, before⟩)
    · exact .here smaller
    · exact .later before

/-- Words that begin with as many letters are compared by these first. -/
theorem before_append_iff {front other : List α} (length_eq : front.length = other.length) :
    Before (front ++ left) (other ++ right) ↔
      Before front other ∨ front = other ∧ Before left right := by
  induction front generalizing other with
  | nil =>
    rw [List.eq_nil_of_length_eq_zero length_eq.symm]
    simp [not_before_nil_left]
  | cons x front ih =>
    cases other with
    | nil => cases length_eq
    | cons y other =>
      rw [List.cons_append, List.cons_append, before_cons_iff, before_cons_iff,
        ih (Nat.succ.inj length_eq), List.cons.injEq, and_or_left, or_assoc, and_assoc]

theorem Before.irrefl (word : List α) : ¬Before word word := by
  induction word with
  | nil => exact not_before_nil_left []
  | cons x word ih =>
    rw [before_cons_iff]
    rintro (smaller | ⟨-, before⟩)
    · exact lt_irrefl x smaller
    · exact ih before

theorem Before.trans {middle : List α} (first : Before left middle) (second : Before middle right) :
    Before left right := by
  induction first generalizing right with
  | here smaller =>
    cases second with
    | here next => exact .here (lt_trans smaller next)
    | later _ => exact .here smaller
  | later _ ih =>
    cases second with
    | here smaller => exact .here smaller
    | later second => exact .later (ih second)

/-- Neither word comes first exactly where one is a beginning of the other. -/
theorem aligned_iff : Aligned left right ↔ ¬Before left right ∧ ¬Before right left := by
  induction left generalizing right with
  | nil =>
    exact iff_of_true (.inl List.nil_prefix)
      ⟨not_before_nil_left right, not_before_nil_right right⟩
  | cons x left ih =>
    cases right with
    | nil =>
      exact iff_of_true (.inr List.nil_prefix)
        ⟨not_before_nil_right _, not_before_nil_left _⟩
    | cons y right =>
      rw [before_cons_iff, before_cons_iff, Aligned, List.cons_prefix_cons, List.cons_prefix_cons]
      rcases lt_trichotomy x y with smaller | rfl | greater
      · simp [smaller, ne_of_lt smaller, ne_of_gt smaller]
      · simp only [lt_irrefl, true_and, false_or]
        exact ih
      · simp [greater, ne_of_lt greater, ne_of_gt greater]

/-- In the lexicographic order a word comes before its continuations, too. -/
theorem lt_iff :
    left < right ↔ Before left right ∨ Aligned left right ∧ left.length < right.length := by
  induction left generalizing right with
  | nil =>
    cases right with
    | nil => simp [not_before_nil_left]
    | cons y right => simp [Aligned, List.nil_lt_cons]
  | cons x left ih =>
    cases right with
    | nil => simp [not_before_nil_right, List.not_lt_nil]
    | cons y right =>
      rw [List.cons_lt_cons_iff, ih, before_cons_iff, Aligned, Aligned, List.cons_prefix_cons,
        List.cons_prefix_cons, List.length_cons, List.length_cons, Nat.add_lt_add_iff_right]
      by_cases same : x = y
      · simp [same]
      · simp [same, Ne.symm same]

/-- Words of one length are in order where they first differ. -/
theorem lt_iff_before (length_eq : left.length = right.length) :
    left < right ↔ Before left right := by
  rw [lt_iff, length_eq]
  simp

end FirstDifference
