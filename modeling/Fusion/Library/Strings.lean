import Mathlib.Data.List.Basic

/-!
# Searching and cutting a string by position

Positions count from the start of the whole string, as the member functions of `std::string` take
them; a failed search gives no position.
-/

namespace Strings

/-- The first position at or after `offset` that holds `symbol`. -/
def find {α : Type*} [DecidableEq α] (text : List α) (symbol : α) (offset : Nat) : Option Nat :=
  ((text.drop offset).idxOf? symbol).map (offset + ·)

/-- The last position at or before `offset` that holds `symbol`. -/
def rfind {α : Type*} [DecidableEq α] (text : List α) (symbol : α) : Nat → Option Nat
  | 0 => if text[0]? = some symbol then some 0 else none
  | offset + 1 =>
    if text[offset + 1]? = some symbol then some (offset + 1) else rfind text symbol offset

/-- Cut out `count` symbols from `offset` on. -/
def erase {α : Type*} (text : List α) (offset count : Nat) : List α :=
  text.take offset ++ text.drop (offset + count)

variable {α : Type*}

/-- The part of a string between two positions of a decomposition. -/
theorem erase_append (front middle back : List α) :
    erase (front ++ (middle ++ back)) front.length middle.length = front ++ back := by
  simp [erase, List.drop_append]

variable {part : List α} {symbol : α}

/-- The first occurrence is behind a part that does not hold the symbol. -/
theorem idxOf?_append_cons [DecidableEq α] (absent : symbol ∉ part) (back : List α) :
    (part ++ symbol :: back).idxOf? symbol = some part.length := by
  induction part with
  | nil => simp [List.idxOf?_cons]
  | cons head part ih =>
    rw [List.mem_cons, not_or] at absent
    have head_ne : (head == symbol) = false := beq_false_of_ne (Ne.symm absent.1)
    rw [List.cons_append, List.idxOf?_cons, head_ne, ih absent.2]
    simp

/-- A text is divided at the first occurrence in one way. -/
theorem eq_of_append_cons_eq [DecidableEq α] {left right back rest : List α}
    (left_absent : symbol ∉ left) (right_absent : symbol ∉ right)
    (same : left ++ symbol :: back = right ++ symbol :: rest) : left = right := by
  have index_eq := congrArg (List.idxOf? symbol) same
  rw [idxOf?_append_cons left_absent, idxOf?_append_cons right_absent,
    Option.some.injEq] at index_eq
  exact List.append_inj_left same index_eq

/-- A search finds the end of a part that does not hold the symbol. -/
theorem find_append_cons {α : Type*} [DecidableEq α] {front part : List α} {symbol : α}
    (absent : symbol ∉ part) (back : List α) :
    find (front ++ (part ++ symbol :: back)) symbol front.length =
      some (front.length + part.length) := by
  have drop_eq : (front ++ (part ++ symbol :: back)).drop front.length =
      part ++ symbol :: back := by simp
  rw [find, drop_eq, idxOf?_append_cons absent, Option.map_some]

theorem find_append_of_notMem {α : Type*} [DecidableEq α] {front part : List α} {symbol : α}
    (absent : symbol ∉ part) : find (front ++ part) symbol front.length = none := by
  have drop_eq : (front ++ part).drop front.length = part := by simp
  rw [find, drop_eq, List.idxOf?_eq_none_iff.mpr absent, Option.map_none]

theorem rfind_eq_none [DecidableEq α] {text : List α} {offset : Nat}
    (absent : ∀ position ≤ offset, text[position]? ≠ some symbol) :
    rfind text symbol offset = none := by
  induction offset with
  | zero => exact if_neg (absent 0 (Nat.le_refl 0))
  | succ offset ih =>
    rw [rfind, if_neg (absent (offset + 1) (Nat.le_refl _))]
    exact ih fun position bound => absent position (Nat.le_succ_of_le bound)

theorem rfind_eq_some {α : Type*} [DecidableEq α] {text : List α} {symbol : α} {found : Nat}
    (found_eq : text[found]? = some symbol) (count : Nat)
    (absent : ∀ position, found < position → position ≤ found + count →
      text[position]? ≠ some symbol) : rfind text symbol (found + count) = some found := by
  induction count with
  | zero =>
    cases found with
    | zero => exact if_pos found_eq
    | succ found => exact if_pos found_eq
  | succ count ih =>
    have later := absent (found + count + 1) (by omega) (Nat.le_refl _)
    rw [← Nat.add_assoc, rfind, if_neg later]
    exact ih fun position after bound => absent position after (by omega)

/-- A search back from the end of a part that does not hold the symbol finds the one before it. -/
theorem rfind_append {α : Type*} [DecidableEq α] {front part : List α} {symbol : α}
    (absent : symbol ∉ part) (back : List α) :
    rfind (front ++ symbol :: (part ++ back)) symbol (front.length + part.length) =
      some front.length := by
  refine rfind_eq_some (by simp) part.length ?_
  intro position after bound holds
  obtain ⟨index, rfl⟩ : ∃ index, position = front.length + (index + 1) :=
    ⟨position - front.length - 1, by omega⟩
  rw [List.getElem?_append_right (by omega), Nat.add_sub_cancel_left, List.getElem?_cons_succ,
    List.getElem?_append_left (by omega)] at holds
  exact absent (List.mem_of_getElem? holds)

theorem rfind_append_of_notMem [DecidableEq α] (absent : symbol ∉ part) (back : List α)
    {offset : Nat} (inside : offset < part.length) : rfind (part ++ back) symbol offset = none := by
  refine rfind_eq_none ?_
  intro position bound holds
  rw [List.getElem?_append_left (by omega)] at holds
  exact absent (List.mem_of_getElem? holds)

/-- The parts one after the other, each ended by the symbol. -/
def terminated {α : Type*} (symbol : α) (parts : List (List α)) : List α :=
  parts.flatMap (· ++ [symbol])

theorem terminated_append (symbol : α) (left right : List (List α)) :
    terminated symbol (left ++ right) = terminated symbol left ++ terminated symbol right :=
  List.flatMap_append

theorem terminated_singleton (symbol : α) (part : List α) :
    terminated symbol [part] = part ++ [symbol] := by
  simp [terminated]

/-- Parts that are each ended by the symbol are parts separated by it, and one more symbol. -/
theorem terminated_eq_intercalate (symbol : α) {parts : List (List α)} (nonempty : parts ≠ []) :
    terminated symbol parts = [symbol].intercalate parts ++ [symbol] := by
  induction parts with
  | nil => exact absurd rfl nonempty
  | cons part parts ih =>
    cases parts with
    | nil => rw [terminated_singleton, List.intercalate_singleton]
    | cons next parts =>
      have rest := ih (List.cons_ne_nil next parts)
      rw [← List.singleton_append, terminated_append, terminated_singleton, rest,
        List.singleton_append, List.intercalate_cons_cons]
      simp only [List.append_assoc]

/-- The parts between the symbols do not hold it, and have no other symbols than the text. -/
theorem of_mem_splitOn [DecidableEq α] {text : List α} (member : part ∈ text.splitOn symbol) :
    symbol ∉ part ∧ part ⊆ text := by
  induction text generalizing part with
  | nil =>
    rw [List.splitOn_nil, List.mem_singleton] at member
    subst member
    exact ⟨List.not_mem_nil, List.Subset.refl _⟩
  | cons first text ih =>
    rw [List.splitOn_cons_eq_if_modifyHead] at member
    split at member
    · cases List.mem_cons.mp member with
      | inl empty =>
        subst empty
        exact ⟨List.not_mem_nil, List.nil_subset _⟩
      | inr later => exact (ih later).imp_right (List.subset_cons_of_subset first)
    · rename_i different
      cases parts : text.splitOn symbol with
      | nil => exact absurd parts (List.splitOn_ne_nil symbol text)
      | cons head tail =>
        rw [parts] at member ih
        cases List.mem_cons.mp member with
        | inl same =>
          obtain ⟨absent, within⟩ := ih List.mem_cons_self
          rw [same, List.mem_cons, not_or]
          exact ⟨⟨fun equal => different (equal ▸ beq_self_eq_true symbol), absent⟩,
            List.cons_subset_cons first within⟩
        | inr later =>
          exact (ih (List.mem_cons_of_mem head later)).imp_right
            (List.subset_cons_of_subset first)

/-- Symbols in front of a text that are not the one it is split at belong to its first part. -/
theorem splitOn_append_of_notMem [DecidableEq α] {front : List α} (absent : symbol ∉ front)
    (text : List α) :
    (front ++ text).splitOn symbol = (text.splitOn symbol).modifyHead (front ++ ·) := by
  induction front with
  | nil =>
    rw [List.nil_append]
    cases text.splitOn symbol with
    | nil => rfl
    | cons part parts => rfl
  | cons first front ih =>
    rw [List.mem_cons, not_or] at absent
    have first_ne : ¬ (first == symbol) = true := fun same => absent.1 (eq_of_beq same).symm
    rw [List.cons_append, List.splitOn_cons_eq_if_modifyHead, if_neg first_ne, ih absent.2]
    cases text.splitOn symbol with
    | nil => rfl
    | cons part parts => rfl

end Strings
