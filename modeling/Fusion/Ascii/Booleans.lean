import Fusion.StringUtil.Compare

/-!
# Boolean words

`IsTrueString` and `IsFalseString` compare with `EqualI`, to which a word equals its beginnings and
its continuations.
-/

namespace Fusion.Ascii

open FirstDifference StringUtil

def falseStrings : List (List Char) :=
  ["disabled".toList, "false".toList, "no".toList, "n".toList, "0".toList]

def trueStrings : List (List Char) :=
  ["enabled".toList, "true".toList, "yes".toList, "y".toList, "1".toList]

def isFalseString (text : List Char) : Bool := falseStrings.any fun word => equalI text word

def isTrueString (text : List Char) : Bool := trueStrings.any fun word => equalI text word

/-- A text in lower case. -/
def lowered (text : List Char) : List Char := text.map toLower

theorem toLower_toLower (symbol : Char) : toLower (toLower symbol) = toLower symbol := by
  cases upper : isUpper symbol with
  | false => simp [toLower, upper]
  | true =>
    have bounds : 65 ≤ symbol.toNat ∧ symbol.toNat ≤ 90 := of_decide_eq_true upper
    have code : (Char.ofNat (symbol.toNat + 32)).toNat = symbol.toNat + 32 := by
      have valid : (symbol.toNat + 32).isValidChar := .inl (by omega)
      rw [Char.ofNat, dif_pos valid]
      rfl
    have lower : toLower symbol = Char.ofNat (symbol.toNat + 32) := by simp [toLower, upper]
    have not_upper : isUpper (Char.ofNat (symbol.toNat + 32)) = false := by
      rw [isUpper, code]
      simp only [decide_eq_false_iff_not]
      omega
    rw [lower, toLower, not_upper]
    rfl

theorem lowered_lowered (text : List Char) : lowered (lowered text) = lowered text := by
  rw [lowered, lowered, List.map_map]
  exact List.map_congr_left fun symbol _ => toLower_toLower symbol

theorem aligned_upToNul_iff {text word : List Char} (plain : ∀ symbol ∈ word, symbol.toNat ≠ 0) :
    Aligned (upToNul text) word ↔ Aligned text word := by
  induction text generalizing word with
  | nil => rfl
  | cons symbol text ih =>
    cases word with
    | nil => exact iff_of_true (.inr List.nil_prefix) (.inr List.nil_prefix)
    | cons first word =>
      rw [upToNul_cons, Aligned, Aligned, List.cons_prefix_cons, List.cons_prefix_cons,
        List.cons_prefix_cons, List.cons_prefix_cons]
      by_cases same : symbol = first
      · have visible : symbol.toNat ≠ 0 := same ▸ plain first List.mem_cons_self
        rw [if_neg visible]
        simp only [same, true_and]
        exact ih fun other member => plain other (List.mem_cons_of_mem _ member)
      · simp [same, Ne.symm same]

theorem seen_of_mem_words : ∀ word ∈ trueStrings ++ falseStrings,
    seen toLower word = word ∧ ∀ symbol ∈ word, symbol.toNat ≠ 0 := by
  have checked : ∀ word ∈ trueStrings ++ falseStrings,
      seen toLower word = word ∧ (word.all fun symbol => symbol.toNat != 0) = true := by
    decide +kernel
  intro word listed
  obtain ⟨lower, visible⟩ := checked word listed
  exact ⟨lower, fun symbol member => bne_iff_ne.mp (List.all_eq_true.mp visible symbol member)⟩

theorem equalI_iff_aligned {text word : List Char} (listed : word ∈ trueStrings ++ falseStrings) :
    equalI text word = true ↔ Aligned (lowered text) word := by
  obtain ⟨seen_eq, plain⟩ := seen_of_mem_words word listed
  rw [equalI, decide_eq_true_eq, compareI, compareLoop_eq_zero_iff, seen_eq, seen]
  exact aligned_upToNul_iff plain

theorem isTrueString_iff (text : List Char) :
    isTrueString text = true ↔ ∃ word ∈ trueStrings, Aligned (lowered text) word := by
  rw [isTrueString, List.any_eq_true]
  exact exists_congr fun word => and_congr_right fun listed =>
    equalI_iff_aligned (List.mem_append_left _ listed)

theorem isFalseString_iff (text : List Char) :
    isFalseString text = true ↔ ∃ word ∈ falseStrings, Aligned (lowered text) word := by
  rw [isFalseString, List.any_eq_true]
  exact exists_congr fun word => and_congr_right fun listed =>
    equalI_iff_aligned (List.mem_append_right _ listed)

theorem not_aligned_of_mem : ∀ yes ∈ trueStrings, ∀ no ∈ falseStrings, ¬Aligned yes no := by
  unfold Aligned
  decide +kernel

end Fusion.Ascii
