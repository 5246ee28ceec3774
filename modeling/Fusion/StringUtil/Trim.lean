import Mathlib.Data.List.DropRight

/-!
# Trimming strings

Each trim searches for the first or the last character that is to be kept.  Where there is none, a
string in place is emptied, and the view of `TrimLeft` is cut at a position outside of the string.
-/

namespace Fusion.StringUtil

def whitespaceTokens : List Char := [' ', '\r', '\n', '\t']

/-! ## Strings in place -/

/-- `TrimLeft` of a string in place, where a failed search erases everything. -/
def trimLeft (text : List Char) (tokens : List Char) : List Char :=
  match text.findIdx? fun c => !tokens.contains c with
  | some position => text.drop position
  | none => []

/-- `TrimRight` of a string in place. -/
def trimRight (text : List Char) (tokens : List Char) : List Char :=
  match text.reverse.findIdx? fun c => !tokens.contains c with
  | some fromEnd => text.take (text.length - 1 - fromEnd + 1)
  | none => []

/-- `Trim` of a string in place. -/
def trim (text : List Char) (tokens : List Char) : List Char :=
  trimRight (trimLeft text tokens) tokens

def trimLeftCopy (text tokens : List Char) : List Char := trimLeft text tokens

def trimRightCopy (text tokens : List Char) : List Char := trimRight text tokens

def trimCopy (text tokens : List Char) : List Char := trim text tokens

/-! ## Views -/

/-- `TrimLeft` of a view; after a failed search `substr` throws `std::out_of_range`. -/
def trimLeftView (text tokens : List Char) : Option (List Char) :=
  match text.findIdx? fun c => !tokens.contains c with
  | some position => some (text.drop position)
  | none => none

def trimRightView (text tokens : List Char) : List Char :=
  match text.reverse.findIdx? fun c => !tokens.contains c with
  | some fromEnd => text.take (text.length - 1 - fromEnd + 1)
  | none => []

/-- `Trim` of a view, which throws where `TrimLeft` does. -/
def trimView (text tokens : List Char) : Option (List Char) :=
  (trimLeftView text tokens).map (trimRightView · tokens)

/-! ## What is left -/

/-- A search for what does not satisfy a predicate ends where `dropWhile` does. -/
theorem findIdx?_not_cases {α : Type} (drops : α → Bool) (text : List α) :
    (text.findIdx? (fun symbol => !drops symbol) = none ∧ text.dropWhile drops = [] ∧
        ∀ symbol ∈ text, drops symbol = true) ∨
      ∃ position, text.findIdx? (fun symbol => !drops symbol) = some position ∧
        position < text.length ∧ text.dropWhile drops = text.drop position ∧
        ∃ symbol ∈ text, drops symbol = false := by
  induction text with
  | nil => exact .inl ⟨rfl, rfl, by simp⟩
  | cons symbol text ih =>
    cases dropped : drops symbol with
    | false =>
      refine .inr ⟨0, ?_, Nat.succ_pos _, ?_, symbol, List.mem_cons_self, dropped⟩
      · simp [List.findIdx?_cons, dropped]
      · exact List.dropWhile_cons_of_neg (by rw [dropped]; decide)
    | true =>
      have search : (symbol :: text).findIdx? (fun symbol => !drops symbol) =
          (text.findIdx? fun symbol => !drops symbol).map (· + 1) := by
        simp [List.findIdx?_cons, dropped]
      rw [search, List.dropWhile_cons_of_pos dropped]
      rcases ih with ⟨none_eq, nothing, all⟩ |
        ⟨position, some_eq, inside, rest, other, member, kept⟩
      · rw [none_eq]
        refine .inl ⟨rfl, nothing, ?_⟩
        intro other member
        cases List.mem_cons.mp member with
        | inl same => rw [same, dropped]
        | inr later => exact all other later
      · rw [some_eq]
        exact .inr ⟨position + 1, rfl, Nat.succ_lt_succ inside, rest, other,
          List.mem_cons_of_mem _ member, kept⟩

variable (text tokens : List Char)

theorem trimLeft_eq : trimLeft text tokens = text.dropWhile tokens.contains := by
  rcases findIdx?_not_cases tokens.contains text with
    ⟨search, nothing, -⟩ | ⟨position, search, -, rest, -⟩
  · rw [trimLeft, search, nothing]
  · rw [trimLeft, search, rest]

theorem trimRight_eq : trimRight text tokens = text.rdropWhile tokens.contains := by
  rw [List.rdropWhile]
  rcases findIdx?_not_cases tokens.contains text.reverse with
    ⟨search, nothing, -⟩ | ⟨position, search, inside, rest, -⟩
  · rw [trimRight, search, nothing, List.reverse_nil]
  · rw [List.length_reverse] at inside
    have kept : text.length - 1 - position + 1 = text.length - position := by omega
    rw [trimRight, search]
    dsimp only
    rw [kept, rest, List.drop_reverse, List.reverse_reverse]

/-- A text without the longest beginning and the longest end that only have trim characters. -/
def withoutEnds (text tokens : List Char) : List Char :=
  (text.dropWhile tokens.contains).rdropWhile tokens.contains

theorem trim_eq : trim text tokens = withoutEnds text tokens := by
  rw [trim, trimRight_eq, trimLeft_eq, withoutEnds]

/-- The view of `TrimLeft` is the text of the string in place, or there is nothing to keep. -/
theorem trimLeftView_cases :
    (trimLeftView text tokens = none ∧ ∀ symbol ∈ text, symbol ∈ tokens) ∨
      trimLeftView text tokens = some (trimLeft text tokens) ∧
        ∃ symbol ∈ text, symbol ∉ tokens := by
  rcases findIdx?_not_cases tokens.contains text with
    ⟨search, -, all⟩ | ⟨position, search, -, -, symbol, member, kept⟩
  · refine .inl ⟨by rw [trimLeftView, search], fun symbol member => ?_⟩
    exact List.contains_iff_mem.mp (all symbol member)
  · refine .inr ⟨by rw [trimLeftView, trimLeft, search], symbol, member, fun dropped => ?_⟩
    rw [List.contains_iff_mem.mpr dropped] at kept
    cases kept

/-- `Trim` of a view throws exactly where there is nothing to keep. -/
theorem trimView_cases :
    (trimView text tokens = none ∧ ∀ symbol ∈ text, symbol ∈ tokens) ∨
      trimView text tokens = some (withoutEnds text tokens) ∧ ∃ symbol ∈ text, symbol ∉ tokens := by
  rcases trimLeftView_cases text tokens with ⟨thrown, all⟩ | ⟨viewed, kept⟩
  · exact .inl ⟨by rw [trimView, thrown, Option.map_none], all⟩
  · refine .inr ⟨?_, kept⟩
    rw [trimView, viewed, Option.map_some, ← trim_eq]
    rfl

/-- All variants of each trim give the text without what is to be trimmed, and none throws. -/
structure TrimsAgree (text tokens : List Char) : Prop where
  both : trimView text tokens = some (withoutEnds text tokens) ∧
    trim text tokens = withoutEnds text tokens ∧ trimCopy text tokens = withoutEnds text tokens
  left : trimLeftView text tokens = some (text.dropWhile tokens.contains) ∧
    trimLeft text tokens = text.dropWhile tokens.contains ∧
    trimLeftCopy text tokens = text.dropWhile tokens.contains
  right : trimRightView text tokens = text.rdropWhile tokens.contains ∧
    trimRight text tokens = text.rdropWhile tokens.contains ∧
    trimRightCopy text tokens = text.rdropWhile tokens.contains

/-- The trims agree exactly on the strings that have something to keep. -/
theorem trimsAgree_iff (text tokens : List Char) :
    TrimsAgree text tokens ↔ ∃ symbol ∈ text, symbol ∉ tokens := by
  constructor
  · rintro ⟨-, ⟨viewed, -⟩, -⟩
    rcases trimLeftView_cases text tokens with ⟨thrown, -⟩ | ⟨-, kept⟩
    · rw [thrown] at viewed
      cases viewed
    · exact kept
  · rintro ⟨symbol, member, kept⟩
    have left : trimLeftView text tokens = some (text.dropWhile tokens.contains) := by
      rcases trimLeftView_cases text tokens with ⟨-, all⟩ | ⟨viewed, -⟩
      · exact absurd (all symbol member) kept
      · exact viewed.trans (congrArg some (trimLeft_eq text tokens))
    have both : trimView text tokens = some (withoutEnds text tokens) := by
      rcases trimView_cases text tokens with ⟨-, all⟩ | ⟨viewed, -⟩
      · exact absurd (all symbol member) kept
      · exact viewed
    exact {
      both := ⟨both, trim_eq text tokens, trim_eq text tokens⟩
      left := ⟨left, trimLeft_eq text tokens, trimLeft_eq text tokens⟩
      right := ⟨trimRight_eq text tokens, trimRight_eq text tokens, trimRight_eq text tokens⟩ }

/-- The view of a blank string is cut outside of it. -/
theorem trimView_blank_throws :
    trimView " ".toList whitespaceTokens = none ∧ trimCopy " ".toList whitespaceTokens = [] ∧
      ¬TrimsAgree " ".toList whitespaceTokens := by
  refine ⟨by decide, by decide, ?_⟩
  rintro ⟨⟨viewed, -⟩, -, -⟩
  exact absurd viewed (by decide)

end Fusion.StringUtil
