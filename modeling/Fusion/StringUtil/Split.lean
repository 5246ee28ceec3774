import Mathlib.Algebra.GroupWithZero.Nat
import Mathlib.Data.List.Infix

/-!
# Splitting and joining strings

`SplitViews` goes on one character behind the beginning of a delimiter, which is behind the
delimiter only if it has one character.
-/

namespace Fusion.StringUtil

/-- The position of the first occurrence of a text. -/
def find (text delim : List Char) : Option Nat :=
  (List.range (text.length + 1)).find? fun position => delim.isPrefixOf (text.drop position)

/-- The loop of `SplitViews`, with how many more fields it may give. -/
def splitParts (delim : List Char) : Nat → List Char → List (List Char)
  | 0, _ => []
  | count + 1, part =>
    match find part delim with
    | none => if part = [] then [] else [part]
    | some position => part.take position :: splitParts delim count (part.drop (position + 1))

def splitViews (text delim : List Char) (count : Nat) : List (List Char) :=
  if text = [] ∨ count = 0 then []
  else if delim = [] then [text]
  else splitParts delim count text

/-- `StringUtil::Split`, which copies the views. -/
def split (text delim : List Char) (count : Nat) : List (List Char) :=
  if text = [] ∨ count = 0 then []
  else if delim = [] then [text]
  else splitViews text delim count

/-- The loop of `StringUtil::Join`. -/
def joinLoop (delim : List Char) : List (List Char) → List Char
  | [] => []
  | [value] => value
  | value :: next :: values => value ++ delim ++ joinLoop delim (next :: values)

def join (values : List (List Char)) (delim : List Char) : List Char :=
  if values = [] then [] else joinLoop delim values

/-! ## Fields -/

/-- Cut the text at leftmost occurrences of the delimiter, one behind the other, `steps` times at
most. -/
def cutFields (delim : List Char) : Nat → List Char → List (List Char)
  | 0, text => [text]
  | steps + 1, text =>
    match find text delim with
    | none => [text]
    | some position =>
      text.take position :: cutFields delim steps (text.drop (position + delim.length))

/-- The fields of a text; each delimiter takes at least one character. -/
def fields (text delim : List Char) : List (List Char) := cutFields delim text.length text

/-- Leave out a final empty field. -/
def withoutFinalEmpty (values : List (List Char)) : List (List Char) :=
  if values.getLast? = some [] then values.dropLast else values

variable {delim text : List Char} {position : Nat}

theorem find_eq_some (found : find text delim = some position) :
    delim <+: text.drop position ∧ position + delim.length ≤ text.length := by
  have begins : delim <+: text.drop position := by
    have holds := List.find?_some found
    exact List.isPrefixOf_iff_prefix.mp holds
  have inside : position < text.length + 1 :=
    List.mem_range.mp (List.mem_of_find?_eq_some found)
  have length_le := begins.length_le
  rw [List.length_drop] at length_le
  exact ⟨begins, by omega⟩

theorem find_eq_none_iff : find text delim = none ↔ ¬delim <:+: text := by
  rw [find, List.find?_eq_none]
  constructor
  · rintro nowhere ⟨front, back, rfl⟩
    have inside : front.length < (front ++ delim ++ back).length + 1 := by
      simp only [List.length_append]
      omega
    refine nowhere front.length (List.mem_range.mpr inside)
      (List.isPrefixOf_iff_prefix.mpr ⟨back, ?_⟩)
    rw [List.append_assoc, List.drop_left]
  · rintro absent position - begins
    exact absent ((List.isPrefixOf_iff_prefix.mp begins).isInfix.trans
      (List.drop_suffix position text).isInfix)

theorem take_append_drop_of_find (found : find text delim = some position) :
    text.take position ++ delim ++ text.drop (position + delim.length) = text := by
  obtain ⟨back, drop_eq⟩ := (find_eq_some found).1
  have rest_eq : text.drop (position + delim.length) = back := by
    rw [← List.drop_drop, ← drop_eq, List.drop_left]
  rw [rest_eq, List.append_assoc, drop_eq, List.take_append_drop]

theorem cutFields_ne_nil (delim : List Char) (steps : Nat) (text : List Char) :
    cutFields delim steps text ≠ [] := by
  cases steps with
  | zero => exact List.cons_ne_nil _ _
  | succ steps =>
    rw [cutFields]
    split <;> exact List.cons_ne_nil _ _

theorem length_cutFields_le (delim : List Char) (steps : Nat) (text : List Char) :
    (cutFields delim steps text).length ≤ steps + 1 := by
  induction steps generalizing text with
  | zero => exact Nat.le_refl 1
  | succ steps ih =>
    rw [cutFields]
    split
    · exact Nat.le_add_left ..
    · exact Nat.succ_le_succ (ih _)

theorem withoutFinalEmpty_cons {value : List Char} {values : List (List Char)}
    (nonempty : values ≠ []) :
    withoutFinalEmpty (value :: values) = value :: withoutFinalEmpty values := by
  obtain ⟨next, others, rfl⟩ := List.exists_cons_of_ne_nil nonempty
  rw [withoutFinalEmpty, withoutFinalEmpty, List.getLast?_cons_cons, List.dropLast_cons_cons]
  split <;> rfl

theorem withoutFinalEmpty_singleton (value : List Char) :
    withoutFinalEmpty [value] = if value = [] then [] else [value] := by
  simp [withoutFinalEmpty]

theorem joinLoop_cutFields (delim : List Char) (steps : Nat) (text : List Char) :
    joinLoop delim (cutFields delim steps text) = text := by
  induction steps generalizing text with
  | zero => rfl
  | succ steps ih =>
    rw [cutFields]
    split
    · rfl
    · rename_i position found
      obtain ⟨next, others, rest_eq⟩ := List.exists_cons_of_ne_nil
        (cutFields_ne_nil delim steps (text.drop (position + delim.length)))
      have joined := ih (text.drop (position + delim.length))
      rw [rest_eq] at joined ⊢
      rw [joinLoop, joined, take_append_drop_of_find found]

theorem suffix_of_getLast?_cutFields {steps : Nat} (nonempty : text ≠ [])
    (final : (cutFields delim steps text).getLast? = some []) : delim <:+ text := by
  induction steps generalizing text with
  | zero =>
    rw [cutFields, List.getLast?_singleton, Option.some.injEq] at final
    exact absurd final nonempty
  | succ steps ih =>
    rw [cutFields] at final
    split at final
    · rw [List.getLast?_singleton, Option.some.injEq] at final
      exact absurd final nonempty
    · rename_i position found
      have text_eq := take_append_drop_of_find found
      obtain ⟨next, others, rest_eq⟩ := List.exists_cons_of_ne_nil
        (cutFields_ne_nil delim steps (text.drop (position + delim.length)))
      by_cases empty : text.drop (position + delim.length) = []
      · rw [empty, List.append_nil] at text_eq
        exact ⟨text.take position, text_eq⟩
      · rw [rest_eq, List.getLast?_cons_cons, ← rest_eq] at final
        exact (ih empty final).trans (List.drop_suffix _ text)

/-! ## One character and more -/

theorem splitParts_eq {steps : Nat} (single : delim.length = 1 ∨ ¬delim <:+: text)
    (enough : text.length ≤ steps) (count : Nat) :
    splitParts delim count text = (withoutFinalEmpty (cutFields delim steps text)).take count := by
  induction count generalizing text steps with
  | zero => rfl
  | succ count ih =>
    cases found : find text delim with
    | none =>
      have whole : cutFields delim steps text = [text] := by
        cases steps with
        | zero => rfl
        | succ steps => rw [cutFields, found]
      rw [splitParts, found, whole, withoutFinalEmpty_singleton]
      dsimp only
      split <;> simp
    | some position =>
      have occurs : delim <:+: text := by
        by_contra absent
        rw [find_eq_none_iff.mpr absent] at found
        cases found
      have length_eq : delim.length = 1 := single.resolve_right (not_not.mpr occurs)
      have fits := (find_eq_some found).2
      obtain ⟨fewer, rfl⟩ : ∃ fewer, steps = fewer + 1 := ⟨steps - 1, by omega⟩
      have shorter : (text.drop (position + 1)).length ≤ fewer := by
        rw [List.length_drop]
        omega
      rw [splitParts, found, cutFields, found]
      dsimp only
      rw [length_eq, withoutFinalEmpty_cons (cutFields_ne_nil _ _ _), List.take_succ_cons,
        ih (.inl length_eq) shorter]

theorem drop_ne_nil_of_find (long : 2 ≤ delim.length) (found : find text delim = some position) :
    text.drop (position + 1) ≠ [] := by
  have fits := (find_eq_some found).2
  rw [ne_eq, List.drop_eq_nil_iff]
  omega

theorem sum_splitParts {count : Nat} (long : 2 ≤ delim.length) (nonempty : text ≠ [])
    (enough : text.length ≤ count) :
    ((splitParts delim count text).map (·.length + 1)).sum = text.length + 1 := by
  induction count generalizing text with
  | zero => exact absurd (List.length_eq_zero_iff.mp (Nat.le_zero.mp enough)) nonempty
  | succ count ih =>
    cases found : find text delim with
    | none =>
      rw [splitParts, found]
      simp [nonempty]
    | some position =>
      have fits := (find_eq_some found).2
      have shorter : (text.drop (position + 1)).length ≤ count := by
        rw [List.length_drop]
        omega
      have rest_sum := ih (drop_ne_nil_of_find long found) shorter
      rw [List.length_drop] at rest_sum
      rw [splitParts, found]
      simp only [List.map_cons, List.sum_cons, List.length_take, rest_sum]
      omega

theorem sum_cutFields (delim : List Char) (steps : Nat) (text : List Char) :
    ((cutFields delim steps text).map (·.length + delim.length)).sum =
      text.length + delim.length := by
  induction steps generalizing text with
  | zero => simp [cutFields]
  | succ steps ih =>
    rw [cutFields]
    split
    · simp
    · rename_i position found
      have fits := (find_eq_some found).2
      rw [List.map_cons, List.sum_cons, ih, List.length_take, List.length_drop]
      omega

theorem sum_withoutFinalEmpty_le (weight : List Char → Nat) (values : List (List Char)) :
    ((withoutFinalEmpty values).map weight).sum ≤ (values.map weight).sum := by
  unfold withoutFinalEmpty
  split
  · rename_i final
    have values_eq : values.dropLast ++ [[]] = values := List.dropLast_append_getLast? [] final
    have sum_eq := congrArg (fun values => (values.map weight).sum) values_eq
    simp only [List.map_append, List.sum_append] at sum_eq
    omega
  · exact Nat.le_refl _

theorem sum_map_length_add (values : List (List Char)) (extra : Nat) :
    (values.map (·.length + extra)).sum = (values.map List.length).sum + values.length * extra := by
  induction values with
  | nil => simp
  | cons value values ih =>
    rw [List.map_cons, List.sum_cons, ih, List.map_cons, List.sum_cons, List.length_cons,
      Nat.succ_mul]
    omega

theorem two_le_length_splitParts {delim text : List Char} {count : Nat} (long : 2 ≤ delim.length)
    (occurs : delim <:+: text) : 2 ≤ (splitParts delim (count + 2) text).length := by
  cases found : find text delim with
  | none => exact absurd occurs (find_eq_none_iff.mp found)
  | some position =>
    rw [splitParts, found]
    dsimp only
    rw [List.length_cons, splitParts]
    split
    · rw [if_neg (drop_ne_nil_of_find long found)]
      exact Nat.le_refl 2
    · exact Nat.le_add_left ..

/-- `SplitViews` and `Split` give the first fields of the text, as many as asked for, without a
final empty one; and joining all of them gives back a text that does not end in the delimiter. -/
structure FollowsDelimiter (text delim : List Char) : Prop where
  views : ∀ count, splitViews text delim count = (withoutFinalEmpty (fields text delim)).take count
  strings : ∀ count, split text delim count = (withoutFinalEmpty (fields text delim)).take count
  joins : ∀ count, text.length < count → ¬delim <:+ text →
    join (splitViews text delim count) delim = text

theorem splitViews_eq (nonempty : delim ≠ []) (single : delim.length = 1 ∨ ¬delim <:+: text)
    (count : Nat) :
    splitViews text delim count = (withoutFinalEmpty (fields text delim)).take count := by
  by_cases nothing : text = [] ∨ count = 0
  · rw [splitViews, if_pos nothing]
    rcases nothing with rfl | rfl
    · rw [fields, List.length_nil, cutFields, withoutFinalEmpty_singleton, if_pos rfl,
        List.take_nil]
    · rfl
  · rw [splitViews, if_neg nothing, if_neg nonempty, splitParts_eq single (Nat.le_refl _), fields]

theorem split_eq_splitViews (text delim : List Char) (count : Nat) :
    split text delim count = splitViews text delim count := by
  unfold split
  split
  · rw [splitViews, if_pos ‹_›]
  · split
    · rw [splitViews, if_neg ‹_›, if_pos ‹_›]
    · rfl

theorem join_withoutFinalEmpty (unended : ¬delim <:+ text) :
    join (withoutFinalEmpty (fields text delim)) delim = text := by
  by_cases empty : text = []
  · subst empty
    rw [fields, List.length_nil, cutFields, withoutFinalEmpty_singleton, if_pos rfl, join,
      if_pos rfl]
  · have final : (fields text delim).getLast? ≠ some [] := fun final =>
      unended (suffix_of_getLast?_cutFields empty final)
    have fields_ne : fields text delim ≠ [] := cutFields_ne_nil _ _ _
    rw [withoutFinalEmpty, if_neg final, join, if_neg fields_ne, fields, joinLoop_cutFields]

theorem length_withoutFinalEmpty_le (text delim : List Char) :
    (withoutFinalEmpty (fields text delim)).length ≤ text.length + 1 := by
  have all := length_cutFields_le delim text.length text
  unfold withoutFinalEmpty
  split
  · rw [List.length_dropLast]
    exact (Nat.sub_le _ 1).trans all
  · exact all

/-- Splitting follows the delimiter exactly if it has one character or does not occur. -/
theorem followsDelimiter_iff {text delim : List Char} (nonempty : delim ≠ []) :
    FollowsDelimiter text delim ↔ delim.length = 1 ∨ ¬delim <:+: text := by
  constructor
  · rintro ⟨views, -, -⟩
    by_contra wrong
    rw [not_or, not_not] at wrong
    obtain ⟨not_single, occurs⟩ := wrong
    have long : 2 ≤ delim.length := by
      have positive := List.length_pos_iff.mpr nonempty
      omega
    have text_ne : text ≠ [] := by
      rintro rfl
      exact nonempty (List.infix_nil.mp occurs)
    -- The loop accounts for one character of a delimiter, a cut for all of them.
    have same : splitParts delim (text.length + 2) text =
        withoutFinalEmpty (fields text delim) := by
      have viewed := views (text.length + 2)
      rw [splitViews, if_neg (by simp [text_ne]), if_neg nonempty] at viewed
      rw [viewed]
      exact List.take_of_length_le ((length_withoutFinalEmpty_le text delim).trans (by omega))
    have loop_sum := sum_splitParts long text_ne (Nat.le_add_right text.length 2)
    have cut_sum := (sum_withoutFinalEmpty_le (·.length + delim.length) _).trans_eq
      (sum_cutFields delim text.length text)
    have several := @two_le_length_splitParts delim text text.length long occurs
    rw [fields] at same
    rw [← same, sum_map_length_add] at cut_sum
    rw [sum_map_length_add, Nat.mul_one] at loop_sum
    obtain ⟨extra, extra_eq⟩ : ∃ extra, delim.length = extra + 2 := ⟨delim.length - 2, by omega⟩
    have weights := Nat.mul_le_mul_right extra several
    rw [extra_eq, Nat.mul_add] at cut_sum
    omega
  · intro single
    refine ⟨splitViews_eq nonempty single, ?_, ?_⟩
    · intro count
      rw [split_eq_splitViews]
      exact splitViews_eq nonempty single count
    · intro count unlimited unended
      rw [splitViews_eq nonempty single, List.take_of_length_le, join_withoutFinalEmpty unended]
      exact (length_withoutFinalEmpty_le text delim).trans unlimited

theorem followsDelimiter_comma : FollowsDelimiter "a,b".toList ",".toList :=
  (followsDelimiter_iff (by decide)).mpr (.inl rfl)

/-- The second half of a delimiter of two characters ends up in the next field. -/
theorem split_keeps_half :
    splitViews "a::b".toList "::".toList 5 = ["a".toList, ":b".toList] ∧
      ¬FollowsDelimiter "a::b".toList "::".toList := by
  refine ⟨by decide, ?_⟩
  rintro ⟨views, -, -⟩
  exact absurd (views 5) (by decide)

end Fusion.StringUtil
