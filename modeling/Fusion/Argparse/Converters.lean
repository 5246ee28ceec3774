import Fusion.Argparse.Parser
import Fusion.Ascii.Booleans
import Fusion.StringUtil.Trim

/-!
# Converters

`ConvertArgument<bool>` and `ConvertArgument<std::string>`.
-/

namespace Fusion.Argparse

open Ascii FirstDifference

/-- `ConvertArgument<bool>::Convert`, with what it stores. -/
def convertBool (text : Token) : Result Bool :=
  if isTrueString (lowered text) then .ok true
  else if isFalseString (lowered text) then .ok false
  else .error { message := s!"unknown boolean string: {String.ofList text}" }

/-- `ConvertArgument<std::string>::Convert`, with what it stores. -/
def convertString (text : Token) : Except Halt Token :=
  match StringUtil.trimView text StringUtil.whitespaceTokens with
  | some value => .ok value
  | none => .error .outOfRange

/-! ## Booleans -/

/-- The words, in any case, and no other text are true or false, and converted so. -/
structure KnowsBooleans (text : Token) : Prop where
  isTrue : isTrueString text = true ↔ lowered text ∈ trueStrings
  isFalse : isFalseString text = true ↔ lowered text ∈ falseStrings
  notBoth : ¬(isTrueString text = true ∧ isFalseString text = true)
  convertsTrue : convertBool text = .ok true ↔ lowered text ∈ trueStrings
  convertsFalse : convertBool text = .ok false ↔ lowered text ∈ falseStrings

theorem convertBool_eq (text : Token) :
    convertBool text =
      if isTrueString text then .ok true
      else if isFalseString text then .ok false
      else .error { message := s!"unknown boolean string: {String.ofList text}" } := by
  have same_true : isTrueString (lowered text) = isTrueString text := by
    rw [Bool.eq_iff_iff, isTrueString_iff, isTrueString_iff, lowered_lowered]
  have same_false : isFalseString (lowered text) = isFalseString text := by
    rw [Bool.eq_iff_iff, isFalseString_iff, isFalseString_iff, lowered_lowered]
  rw [convertBool, same_true, same_false]

theorem knowsBooleans_of {text : Token}
    (isTrue : isTrueString text = true ↔ lowered text ∈ trueStrings)
    (isFalse : isFalseString text = true ↔ lowered text ∈ falseStrings) : KnowsBooleans text := by
  have notBoth : ¬(isTrueString text = true ∧ isFalseString text = true) := by
    rintro ⟨yes, no⟩
    exact not_aligned_of_mem _ (isTrue.mp yes) _ (isFalse.mp no) (.inl (List.prefix_refl _))
  refine ⟨isTrue, isFalse, notBoth, ?_, ?_⟩
  · rw [convertBool_eq, ← isTrue]
    cases isTrueString text <;> cases isFalseString text <;> simp
  · rw [convertBool_eq, ← isFalse]
    cases yes : isTrueString text with
    | false => cases isFalseString text <;> simp
    | true =>
      cases no : isFalseString text with
      | false => simp
      | true => exact absurd ⟨yes, no⟩ notBoth

/-- Booleans are known exactly if the text is a word, or neither begins a word nor goes on from
one. -/
theorem knowsBooleans_iff (text : Token) :
    KnowsBooleans text ↔
      lowered text ∈ trueStrings ++ falseStrings ∨
        ∀ word ∈ trueStrings ++ falseStrings, ¬lowered text <+: word ∧ ¬word <+: lowered text := by
  constructor
  · rintro ⟨isTrue, isFalse, -, -, -⟩
    by_contra wrong
    rw [not_or, List.mem_append, not_or] at wrong
    obtain ⟨⟨not_true, not_false⟩, related⟩ := wrong
    refine related fun word listed => not_or.mp fun aligned => ?_
    rcases List.mem_append.mp listed with yes | no
    · exact not_true (isTrue.mp ((isTrueString_iff text).mpr ⟨word, yes, aligned⟩))
    · exact not_false (isFalse.mp ((isFalseString_iff text).mpr ⟨word, no, aligned⟩))
  · intro clear
    have word_of : ∀ word ∈ trueStrings ++ falseStrings, Aligned (lowered text) word →
        lowered text ∈ trueStrings ++ falseStrings := by
      intro word listed aligned
      rcases clear with known | unrelated
      · exact known
      · exact absurd aligned (not_or.mpr (unrelated word listed))
    refine knowsBooleans_of ⟨fun yes => ?_, fun known => ?_⟩ ⟨fun no => ?_, fun known => ?_⟩
    · obtain ⟨word, listed, aligned⟩ := (isTrueString_iff text).mp yes
      rcases List.mem_append.mp (word_of word (List.mem_append_left _ listed) aligned) with
        known | other
      · exact known
      · exact absurd aligned.symm (not_aligned_of_mem word listed _ other)
    · exact (isTrueString_iff text).mpr ⟨_, known, .inl (List.prefix_refl _)⟩
    · obtain ⟨word, listed, aligned⟩ := (isFalseString_iff text).mp no
      rcases List.mem_append.mp (word_of word (List.mem_append_right _ listed) aligned) with
        other | known
      · exact absurd aligned (not_aligned_of_mem _ other word listed)
      · exact known
    · exact (isFalseString_iff text).mpr ⟨_, known, .inl (List.prefix_refl _)⟩

/-- The empty text is both true and false, and is converted to true like a beginning of `yes`. -/
theorem empty_is_true_and_false :
    isTrueString [] = true ∧ isFalseString [] = true ∧ convertBool [] = .ok true ∧
      convertBool "ye".toList = .ok true ∧ ¬KnowsBooleans [] := by
  refine ⟨by decide, by decide, by decide, by decide, ?_⟩
  rintro ⟨-, -, notBoth, -, -⟩
  exact notBoth (by decide)

end Fusion.Argparse
