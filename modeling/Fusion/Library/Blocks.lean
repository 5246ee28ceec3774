import Mathlib.Data.List.Basic

/-!
# Block absorption

An iterated block function consumes a word in complete blocks of a fixed width and keeps the
incomplete remainder.  The central lemma says that absorbing a concatenation is absorbing its left
part and then the remainder followed by its right part, so every chunking of a word is absorbed
alike.
-/

namespace Blocks

/-- Fold `compress` over the complete blocks of `word` and keep what is left over. -/
def absorb {σ α : Type*} (width : Nat) (compress : σ → List α → σ) (state : σ) (word : List α) :
    σ × List α :=
  if 0 < width ∧ width ≤ word.length then
    absorb width compress (compress state (word.take width)) (word.drop width)
  else
    (state, word)
termination_by word.length
decreasing_by
  simp only [List.length_drop]
  omega

variable {width : Nat} {α σ : Type*} (compress : σ → List α → σ) (state : σ)

theorem absorb_of_lt {word : List α} (short : word.length < width) :
    absorb width compress state word = (state, word) := by
  rw [absorb, if_neg (by omega)]

theorem absorb_of_le {word : List α} (width_pos : 0 < width) (long : width ≤ word.length) :
    absorb width compress state word =
      absorb width compress (compress state (word.take width)) (word.drop width) := by
  rw [absorb, if_pos ⟨width_pos, long⟩]

/-- One complete block in front of a word is compressed first. -/
theorem absorb_block_append {block : List α} (word : List α) (width_pos : 0 < width)
    (complete : block.length = width) :
    absorb width compress state (block ++ word) =
      absorb width compress (compress state block) word := by
  rw [absorb_of_le compress state width_pos (by simp [complete])]
  rw [List.take_left' complete, List.drop_left' complete]

theorem absorb_block {block : List α} (width_pos : 0 < width) (complete : block.length = width) :
    absorb width compress state block = (compress state block, []) := by
  have single := absorb_block_append compress state [] width_pos complete
  rw [List.append_nil] at single
  rw [single, absorb_of_lt compress _ (by simpa using width_pos)]

/-- The remainder of an absorption is what complete blocks leave of the word's length. -/
theorem length_absorb (word : List α) (width_pos : 0 < width) :
    (absorb width compress state word).2.length = word.length % width := by
  induction length_eq : word.length using Nat.strongRecOn generalizing state word with
  | ind length ih =>
    by_cases long : width ≤ word.length
    · rw [absorb_of_le compress state width_pos long]
      have shorter : (word.drop width).length < length := by
        rw [List.length_drop]
        omega
      rw [ih _ shorter _ _ rfl, List.length_drop, length_eq]
      exact (Nat.mod_eq_sub_mod (length_eq ▸ long)).symm
    · have short : word.length < width := by omega
      rw [absorb_of_lt compress state short]
      exact (Nat.mod_eq_of_lt (length_eq ▸ short)).symm ▸ length_eq

/-- Absorption does not depend on where a word is cut into chunks. -/
theorem absorb_append (left right : List α) (width_pos : 0 < width) :
    absorb width compress state (left ++ right) =
      absorb width compress (absorb width compress state left).1
        ((absorb width compress state left).2 ++ right) := by
  induction length_eq : left.length using Nat.strongRecOn generalizing state left with
  | ind length ih =>
    by_cases long : width ≤ left.length
    · have shorter : (left.drop width).length < length := by
        rw [List.length_drop]
        omega
      have front_length : (left.take width).length = width := by
        simp [Nat.min_eq_left long]
      rw [absorb_of_le compress state width_pos long]
      rw [← ih _ shorter _ _ rfl]
      rw [← absorb_block_append compress state _ width_pos front_length]
      rw [← List.append_assoc, List.take_append_drop]
    · have short : left.length < width := by omega
      rw [absorb_of_lt compress state short]

/-- A property of the state and the rest of the word that every block keeps holds at the end. -/
theorem absorb_invariant {σ α : Type*} {width : Nat} {compress : σ → List α → σ}
    {property : σ → List α → Prop}
    (keep : ∀ state word, width ≤ word.length → property state word →
      property (compress state (word.take width)) (word.drop width))
    {state : σ} {word : List α} (start : property state word) :
    property (absorb width compress state word).1 (absorb width compress state word).2 := by
  fun_induction absorb width compress state word with
  | case1 state word long ih => exact ih (keep state word long.2 start)
  | case2 state word short => exact start

/-- A part of the state that is compressed by itself is absorbed by itself. -/
theorem absorb_map {σ τ α : Type*} {width : Nat} {compress : σ → List α → σ}
    {inner : τ → List α → τ} (part : σ → τ)
    (agree : ∀ state block, part (compress state block) = inner (part state) block)
    (state : σ) (word : List α) :
    absorb width inner (part state) word =
      (part (absorb width compress state word).1, (absorb width compress state word).2) := by
  fun_induction absorb width compress state word with
  | case1 state word long ih =>
    rw [absorb_of_le inner _ long.1 long.2, ← agree]
    exact ih
  | case2 state word short => rw [absorb, if_neg short]

end Blocks
