import Fusion.Argparse.Parser
import Fusion.StringUtil.Trim

/-!
# Parsing the arguments of a program

`Parse(char**, size_t, size_t)` copies and trims the strings from the offset on, and hands the copy
to the overload for vectors together with the offset, which is therefore applied twice.
-/

namespace Fusion.Argparse

/-- A string of the program's arguments as the parser gets it. -/
def trimmed (text : Token) : Token := StringUtil.trim text StringUtil.whitespaceTokens

variable {offset : Nat}

section Arguments

variable {ω : Type} (objects : Nat → Leaf ω) (beyond : Char)

/-- `ArgumentParser::Parse` on the strings of `argv`, as many as `count` says. -/
def parseArguments (args : List (Entry ω)) (argv : List Token) (offset : Nat) (state : State ω) :
    State ω × Except Halt Unit :=
  if argv.length < offset then (state, fail "invalid offset")
  else parse objects beyond args ((argv.drop offset).map trimmed) offset state

variable {argv : List Token}

theorem map_trimmed_ne_nil (inside : offset < argv.length) : argv.map trimmed ≠ [] := by
  intro empty
  rw [List.map_eq_nil_iff.mp empty] at inside
  exact absurd inside (Nat.not_lt_zero _)

theorem parseArguments_eq_parse (inside : offset < argv.length) (args : List (Entry ω))
    (state : State ω) :
    parseArguments objects beyond args argv offset state =
      parse objects beyond args (argv.map trimmed) (offset + offset) state := by
  have rest_ne : (argv.drop offset).map trimmed ≠ [] := by
    intro empty
    have length_eq := congrArg List.length empty
    rw [List.length_map, List.length_drop, List.length_nil] at length_eq
    omega
  rw [parseArguments, if_neg (by omega), parse, if_neg rest_ne, parse,
    if_neg (map_trimmed_ne_nil inside), List.map_drop, List.drop_drop]

end Arguments

/-! ## The three overloads -/

/-- The overloads of `ArgumentParser::Parse`. -/
inductive Overload
  | vector
  | span
  | argv
deriving DecidableEq

variable {tokens : List Token}

section Overloads

variable {ω : Type} (objects : Nat → Leaf ω) (beyond : Char)

def Overload.parse (overload : Overload) (args : List (Entry ω)) (tokens : List Token)
    (offset : Nat) (state : State ω) : State ω × Except Halt Unit :=
  match overload with
  | .vector => Argparse.parse objects beyond args tokens offset state
  | .span => parseSpan objects beyond args tokens offset state
  | .argv => parseArguments objects beyond args tokens offset state

/-- The tokens that `Process` gets, unless the overload fails before. -/
def Overload.processed (overload : Overload) (tokens : List Token) (offset : Nat) :
    Option (List Token) :=
  match overload with
  | .vector => if tokens = [] then none else some (tokens.drop offset)
  | .span => if tokens.length < offset then none else some (tokens.drop offset)
  | .argv =>
    if tokens.length ≤ offset then none
    else some (((tokens.drop offset).map trimmed).drop offset)

/-- The parser before its first parse, in a program with these variables. -/
def State.fresh (world : ω) : State ω := { world }

variable {objects : Nat → Leaf ω} {beyond : Char}

/-- Each overload hands its tokens to `Process` or fails and does nothing. -/
theorem Overload.parse_cases (overload : Overload) (args : List (Entry ω)) (tokens : List Token)
    (offset : Nat) :
    (overload.processed tokens offset = none ∧ ∃ message, ∀ state,
        overload.parse objects beyond args tokens offset state = (state, fail message)) ∨
      ∃ processed, overload.processed tokens offset = some processed ∧ ∀ state,
        overload.parse objects beyond args tokens offset state =
          processOrReset objects beyond args processed state := by
  cases overload with
  | vector =>
    by_cases empty : tokens = []
    · exact .inl ⟨if_pos empty, _, fun state => if_pos empty⟩
    · exact .inr ⟨_, if_neg empty, fun state => if_neg empty⟩
  | span =>
    by_cases outside : tokens.length < offset
    · exact .inl ⟨if_pos outside, _, fun state => if_pos outside⟩
    · exact .inr ⟨_, if_neg outside, fun state => if_neg outside⟩
  | argv =>
    rcases Nat.lt_trichotomy tokens.length offset with outside | last | inside
    · exact .inl ⟨if_pos (Nat.le_of_lt outside), _, fun state => if_pos outside⟩
    · have empty : (tokens.drop offset).map trimmed = [] := by
        rw [← last, List.drop_length, List.map_nil]
      refine .inl ⟨if_pos (Nat.le_of_eq last), "empty argument list", fun state => ?_⟩
      exact (if_neg (Nat.not_lt.mpr (Nat.le_of_eq last.symm))).trans (if_pos empty)
    · have rest_ne : (tokens.drop offset).map trimmed ≠ [] := by
        intro empty
        have past := List.drop_eq_nil_iff.mp (List.map_eq_nil_iff.mp empty)
        omega
      refine .inr ⟨_, if_neg (Nat.not_le.mpr inside), fun state => ?_⟩
      exact (if_neg (Nat.not_lt.mpr (Nat.le_of_lt inside))).trans (if_neg rest_ne)

variable {overload : Overload}

theorem Overload.parse_of_unprocessed (unprocessed : overload.processed tokens offset = none)
    (objects : Nat → Leaf ω) (beyond : Char) (args : List (Entry ω)) :
    ∃ message, ∀ state,
      overload.parse objects beyond args tokens offset state = (state, fail message) := by
  rcases overload.parse_cases args tokens offset with ⟨-, failed⟩ | ⟨processed, processed_eq, -⟩
  · exact failed
  · cases unprocessed.symm.trans processed_eq

theorem Overload.parse_of_processed {processed : List Token}
    (processed_eq : overload.processed tokens offset = some processed) (args : List (Entry ω))
    (state : State ω) :
    overload.parse objects beyond args tokens offset state =
      processOrReset objects beyond args processed state := by
  rcases overload.parse_cases args tokens offset with ⟨none_eq, -⟩ | ⟨others, others_eq, parse_eq⟩
  · cases processed_eq.symm.trans none_eq
  · cases processed_eq.symm.trans others_eq
    exact parse_eq state

end Overloads

/-! ## A parser that keeps what it is given -/

/-- A positional that takes every token and appends it to a list. -/
def recorder (_ : Nat) : Leaf (List Token) where
  type := .positional
  name := "tokens".toList
  required := true
  isSequence := true
  convert := fun text world => (world ++ [text], .ok ())

theorem world_processLoop_recorder (beyond : Char) (path tokens : List Token)
    (state : State (List Token)) :
    (processLoop recorder beyond path [.leaf 0] tokens state).1.world = state.world ++ tokens := by
  induction tokens generalizing state with
  | nil => simp [processLoop]
  | cons token tokens ih =>
    have matched : Entry.firstMatch recorder beyond state.found token [.leaf 0] =
        .ok (some (.leaf 0)) := rfl
    have sequence : ¬ ((Entry.leaf 0 : Entry (List Token)).name recorder ∈ state.found ∧
        (Entry.leaf 0 : Entry (List Token)).isSequence recorder = false) := by
      simp [Entry.isSequence, recorder]
    have parsed : (recorder 0).parse beyond token tokens state.world =
        (state.world ++ [token], .ok 0) := rfl
    rw [processLoop_leaf matched sequence parsed, List.drop_zero, ih]
    simp [State.markArgumentFound]

theorem world_parse_recorder (beyond : Char) (nonempty : tokens ≠ []) (offset : Nat)
    (state : State (List Token)) :
    (parse recorder beyond [.leaf 0] tokens offset state).1.world =
      state.world ++ tokens.drop offset := by
  rw [parse, if_neg nonempty, world_processOrReset, world_processLoop_recorder]

/-- With a string after the offset, the two overloads agree for every parser exactly when the offset
is zero. -/
theorem parseArguments_eq_iff {argv : List Token} {offset : Nat} (inside : offset < argv.length) :
    (∀ (ω : Type) (objects : Nat → Leaf ω) (beyond : Char) (args : List (Entry ω))
        (state : State ω), parseArguments objects beyond args argv offset state =
          parse objects beyond args (argv.map trimmed) offset state) ↔ offset = 0 := by
  constructor
  · intro agree
    have nonempty := map_trimmed_ne_nil inside
    have same := agree (List Token) recorder '-' [.leaf 0] { world := [] }
    rw [parseArguments_eq_parse recorder '-' inside] at same
    have world_eq := congrArg (fun outcome => outcome.1.world.length) same
    simp only [world_parse_recorder '-' nonempty, List.nil_append, List.length_drop,
      List.length_map] at world_eq
    omega
  · rintro rfl ω objects beyond args state
    exact parseArguments_eq_parse objects beyond inside args state

theorem parseArguments_eq_iff_app :
    parseArguments recorder '-' [.leaf 0] ["app".toList] 0 { world := [] } =
      parse recorder '-' [.leaf 0] (["app".toList].map trimmed) 0 { world := [] } :=
  (parseArguments_eq_iff (by decide)).mpr rfl (List Token) recorder '-' [.leaf 0] { world := [] }

/-- With the default offset of one, the argument after the name of the program is lost. -/
theorem parseArguments_drops_first :
    (parseArguments recorder '-' [.leaf 0] ["app".toList, "file".toList] 1
        { world := [] }).1.world = [] ∧
      (parse recorder '-' [.leaf 0] (["app".toList, "file".toList].map trimmed) 1
        { world := [] }).1.world = ["file".toList] := by
  decide +kernel

end Fusion.Argparse
