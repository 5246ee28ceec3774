import Fusion.Argparse.Retry
import Fusion.Library.Fuel

/-!
# The work of a parse

The loop of `Process` goes on until no token is left or nothing matches, and each object decides in
its `Parse` how many tokens it takes off the span.  The loop is repeated here with a bound on its
steps, and with a record of the matches and of the subspans.  A read past the end of a token gives
some character, which need not be the same for every token.
-/

namespace Fusion.Argparse

open Fuel (Yields)

/-- What was done so far. -/
structure Work where
  /-- Calls of `Match` that succeeded. -/
  matched : Nat := 0
  /-- How much each `subspan` leaves out, and of how many tokens. -/
  subspans : List (Nat × Nat) := []

def Work.countMatch (work : Work) : Work := { work with matched := work.matched + 1 }

def Work.takeSubspan (work : Work) (count size : Nat) : Work :=
  { work with subspans := work.subspans ++ [(count, size)] }

section Work

variable {ω : Type} (objects : Nat → Leaf ω) (beyond : Nat → Char)

/-- The loop of `ArgumentParser::Process`.  What a read past the end of a token gives is told by the
number of tokens after it. -/
def workLoop : Nat → List Token → List (Entry ω) → List Token → State ω → Work →
    Option ((State ω × Except Halt (List Token)) × Work)
  | 0, _, _, _, _, _ => none
  | _ + 1, _, _, [], state, work => some ((state, .ok []), work)
  | steps + 1, path, args, token :: tokens, state, work =>
    let beyond := beyond tokens.length
    match Entry.firstMatch objects beyond state.found token args with
    | .error halt => some ((state, .error halt), work)
    | .ok none => some ((state, .ok (token :: tokens)), work)
    | .ok (some entry) =>
      let work := work.countMatch
      if entry.name objects ∈ state.found ∧ entry.isSequence objects = false then
        some ((state, fail s!"duplicate argument: {String.ofList (entry.name objects)}"), work)
      else
        match entry with
        | .leaf id =>
          match (objects id).parse beyond token tokens state.world with
          | (world, .error halt) => some (({ state with world }, .error halt), work)
          | (world, .ok more) =>
            let nargs := more + 1
            workLoop steps path args ((token :: tokens).drop nargs)
              ({ state with world }.markArgumentFound (objects id).name)
              (work.takeSubspan nargs (token :: tokens).length)
        | .command info inner =>
          let entered :=
            { state with command := Function.update state.command path info.name }
          match workLoop steps (path ++ [info.name]) inner ((token :: tokens).drop 1) entered
              (work.takeSubspan 1 (token :: tokens).length) with
          | none => none
          | some ((state, .error halt), work) => some ((state, .error halt), work)
          | some ((state, .ok remaining), work) =>
            match finish objects inner state.found remaining with
            | .error halt => some ((state, .error halt), work)
            | .ok () =>
              match info.action state.world with
              | (world, .error failure) =>
                some (({ state with world }, .error (.failure failure)), work)
              | (world, .ok ()) =>
                workLoop steps path args remaining
                  ({ state with world }.markArgumentFound info.name) work

/-- How many tokens a loop leaves. -/
def tokensLeft : Except Halt (List Token) → Nat
  | .ok remaining => remaining.length
  | .error _ => 0

/-- The work between two records, on a span of some size. -/
structure Work.Within (before after : Work) (size : Nat) (result : Except Halt (List Token)) :
    Prop where
  matched : after.matched + tokensLeft result ≤ before.matched + size
  subspans : ∀ taken ∈ after.subspans, taken ∈ before.subspans ∨ taken.1 ≤ taken.2

namespace Work.Within

variable {before middle after : Work} {size left : Nat} {result : Except Halt (List Token)}

theorem refl_of_le (bound : tokensLeft result ≤ size) : before.Within before size result :=
  ⟨Nat.add_le_add_left bound _, fun _ => .inl⟩

theorem of_match (positive : 0 < size) (halt : Halt) :
    before.Within before.countMatch size (.error halt) := by
  refine ⟨?_, fun _ => .inl⟩
  simp only [tokensLeft, Work.countMatch]
  omega

theorem of_le {other : Except Halt (List Token)} (within : before.Within after size result)
    (fewer : tokensLeft other ≤ tokensLeft result) : before.Within after size other :=
  ⟨(Nat.add_le_add_left fewer _).trans within.matched, within.subspans⟩

theorem cons {count : Nat} (positive : 0 < count) (inside : count ≤ size)
    (rest : (before.countMatch.takeSubspan count size).Within after (size - count) result) :
    before.Within after size result := by
  refine ⟨?_, fun taken member => ?_⟩
  · have bound := rest.matched
    simp only [Work.countMatch, Work.takeSubspan] at bound
    omega
  · rcases rest.subspans taken member with earlier | fits
    · cases List.mem_append.mp earlier with
      | inl old => exact .inl old
      | inr new =>
        obtain rfl := List.mem_singleton.mp new
        exact .inr inside
    · exact .inr fits

end Work.Within

/-- As many steps as there are tokens, and one more, end the loop within the tokens.  Where every
read past the end of a token gives the same character, it ends as the loop of the parser does. -/
def Worked (path : List Token) (args : List (Entry ω)) (tokens : List Token) (state : State ω)
    (before : Work) : Prop :=
  ∃ outcome after,
    (∀ steps, tokens.length < steps →
      workLoop objects beyond steps path args tokens state before = some (outcome, after)) ∧
    before.Within after tokens.length outcome.2 ∧
    ∀ character, (∀ left, beyond left = character) →
      processLoop objects character path args tokens state = outcome

section Step

variable {objects : Nat → Leaf ω} {beyond : Nat → Char} {path : List Token}
  {args : List (Entry ω)} {token : Token} {tokens : List Token} {state : State ω}

theorem worked_of_step {before after : Work} (ended : State ω)
    {result : Except Halt (List Token)}
    (within : before.Within after (token :: tokens).length result)
    (ran : ∀ steps, tokens.length < steps →
      workLoop objects beyond (steps + 1) path args (token :: tokens) state before =
        some ((ended, result), after))
    (agrees : ∀ character, (∀ left, beyond left = character) →
      processLoop objects character path args (token :: tokens) state = (ended, result)) :
    Worked objects beyond path args (token :: tokens) state before := by
  refine ⟨(ended, result), after, fun steps enough => ?_, within, agrees⟩
  obtain ⟨steps, rfl⟩ := Nat.exists_eq_add_one_of_ne_zero (Nat.ne_zero_of_lt enough)
  exact ran steps (Nat.lt_of_succ_lt_succ enough)

variable (shorter : ∀ path args rest state before, rest.length ≤ tokens.length →
  Worked objects beyond path args rest state before)
include shorter

theorem worked_leaf (before : Work) {id : Nat}
    (matched : Entry.firstMatch objects (beyond tokens.length) state.found token args =
      .ok (some (.leaf id)))
    (unduplicated : ¬((Entry.leaf id : Entry ω).name objects ∈ state.found ∧
      (Entry.leaf id : Entry ω).isSequence objects = false)) :
    Worked objects beyond path args (token :: tokens) state before := by
  rcases parsed : (objects id).parse (beyond tokens.length) token tokens state.world with
    ⟨world, halt | more⟩
  · refine worked_of_step { state with world } (.of_match (Nat.succ_pos _) halt)
      (fun steps _ => ?_) fun character same => ?_
    · simp only [workLoop, matched, if_neg unduplicated, parsed]
    · exact processLoop_leaf_halted (same _ ▸ matched) unduplicated (same _ ▸ parsed)
  · have length_le := (List.drop_sublist more tokens).length_le
    obtain ⟨outcome, after, ran, within, agrees⟩ := shorter path args (tokens.drop more)
      ({ state with world }.markArgumentFound (objects id).name)
      (before.countMatch.takeSubspan (more + 1) (token :: tokens).length) length_le
    rw [List.length_drop, ← Nat.add_sub_add_right _ 1] at within
    refine worked_of_step outcome.1
      (.cons (Nat.succ_pos more) (Nat.succ_le_succ (Leaf.more_le_length parsed)) within)
      (fun steps enough => ?_) fun character same => ?_
    · simp only [workLoop, matched, if_neg unduplicated, parsed, List.drop_succ_cons]
      exact ran steps (Nat.lt_of_le_of_lt length_le enough)
    · rw [processLoop_leaf (same _ ▸ matched) unduplicated (same _ ▸ parsed)]
      exact agrees character same

omit shorter in
/-- After a command there is nothing left to do but to leave it. -/
theorem workLoop_command {before after : Work} {steps : Nat} {info : Command ω}
    {inner : List (Entry ω)} {looped : State ω × Except Halt (List Token)}
    (matched : Entry.firstMatch objects (beyond tokens.length) state.found token args =
      .ok (some (.command info inner)))
    (unduplicated : ¬((Entry.command info inner).name objects ∈ state.found ∧
      (Entry.command info inner).isSequence objects = false))
    (enough : 0 < steps)
    (ran : workLoop objects beyond steps (path ++ [info.name]) inner tokens
      { state with command := Function.update state.command path info.name }
      (before.countMatch.takeSubspan 1 (token :: tokens).length) = some (looped, after)) :
    workLoop objects beyond (steps + 1) path args (token :: tokens) state before =
      some ((Frame.leave objects { info, args := inner, path := path ++ [info.name] }
        looped).1, after) := by
  obtain ⟨steps, rfl⟩ := Nat.exists_eq_add_one_of_ne_zero enough.ne'
  rw [workLoop]
  simp only [matched, if_neg unduplicated, List.drop_succ_cons, List.drop_zero, ran]
  rcases looped with ⟨ended, halt | remaining⟩
  · rfl
  · cases finished : finish objects inner ended.found remaining with
    | error halt => simp only [Frame.leave, finished]
    | ok _ =>
      obtain rfl := remaining_eq_nil_of_finish objects finished
      rcases acted : info.action ended.world with ⟨world, failure | _⟩
      · simp only [Frame.leave, finished, acted]
      -- No token is left, so one more step ends the loop.
      · simp only [Frame.leave, finished, acted, workLoop]

omit shorter in
theorem tokensLeft_leave_le (frame : Frame ω) (looped : State ω × Except Halt (List Token)) :
    tokensLeft (frame.leave objects looped).1.2 ≤ tokensLeft looped.2 := by
  rcases looped with ⟨ended, halt | remaining⟩
  · exact Nat.le_refl _
  · simp only [Frame.leave]
    cases finish objects frame.args ended.found remaining with
    | error halt => exact Nat.zero_le _
    | ok _ =>
      rcases frame.info.action ended.world with ⟨world, failure | _⟩ <;> exact Nat.zero_le _

theorem worked_command (before : Work) {info : Command ω} {inner : List (Entry ω)}
    (matched : Entry.firstMatch objects (beyond tokens.length) state.found token args =
      .ok (some (.command info inner)))
    (unduplicated : ¬((Entry.command info inner).name objects ∈ state.found ∧
      (Entry.command info inner).isSequence objects = false)) :
    Worked objects beyond path args (token :: tokens) state before := by
  obtain ⟨looped, after, ran, within, agrees⟩ := shorter (path ++ [info.name]) inner tokens
    { state with command := Function.update state.command path info.name }
    (before.countMatch.takeSubspan 1 (token :: tokens).length) (Nat.le_refl _)
  have within_all : before.Within after (token :: tokens).length looped.2 :=
    .cons Nat.one_pos (Nat.succ_le_succ (Nat.zero_le _)) within
  let frame : Frame ω := { info, args := inner, path := path ++ [info.name] }
  have fewer : tokensLeft (frame.leave objects looped).1.2 ≤ tokensLeft looped.2 :=
    tokensLeft_leave_le frame looped
  refine worked_of_step (frame.leave objects looped).1.1 (within_all.of_le fewer)
    (fun steps enough => ?_) fun character same => ?_
  · exact workLoop_command matched unduplicated (Nat.zero_lt_of_lt enough) (ran steps enough)
  · rw [processLoop_command_eq (same _ ▸ matched) unduplicated, agrees character same]

theorem worked_cons (before : Work) :
    Worked objects beyond path args (token :: tokens) state before := by
  cases matched : Entry.firstMatch objects (beyond tokens.length) state.found token args with
  | error halt =>
    refine worked_of_step state (.refl_of_le (Nat.zero_le _)) (fun steps _ => ?_)
      fun character same => processLoop_halted (same _ ▸ matched)
    simp only [workLoop, matched]
  | ok first =>
    cases first with
    | none =>
      refine worked_of_step state (.refl_of_le (Nat.le_refl _)) (fun steps _ => ?_)
        fun character same => processLoop_unmatched (same _ ▸ matched)
      simp only [workLoop, matched]
    | some entry =>
      by_cases duplicated : entry.name objects ∈ state.found ∧ entry.isSequence objects = false
      · refine worked_of_step state (.of_match (Nat.succ_pos _) _) (fun steps _ => ?_)
          fun character same => processLoop_duplicate (same _ ▸ matched) duplicated
        simp only [workLoop, matched, if_pos duplicated]
        rfl
      · cases entry with
        | leaf id => exact worked_leaf shorter before matched duplicated
        | command info inner => exact worked_command shorter before matched duplicated

end Step

theorem worked (path : List Token) (args : List (Entry ω)) (tokens : List Token) (state : State ω)
    (before : Work) : Worked objects beyond path args tokens state before := by
  -- A command goes on with other entries, so the induction is on the number of tokens alone.
  induction length_eq : tokens.length using Nat.strong_induction_on
    generalizing path args tokens state before with
  | _ length ih =>
    cases tokens with
    | nil =>
      refine ⟨(state, .ok []), before, fun steps enough => ?_, .refl_of_le (Nat.le_refl _),
        fun character _ => by rw [processLoop]⟩
      obtain ⟨steps, rfl⟩ := Nat.exists_eq_add_one_of_ne_zero (Nat.ne_zero_of_lt enough)
      rw [workLoop]
    | cons token tokens =>
      refine worked_cons (fun path args rest state before length_le => ?_) before
      refine ih rest.length ?_ path args rest state before rfl
      rw [← length_eq]
      exact Nat.lt_succ_of_le length_le

/-- The end of `Process` at the root parser, which is reset where a `Failure` is returned. -/
def endOrReset (args : List (Entry ω)) (looped : State ω × Except Halt (List Token)) :
    State ω × Except Halt Unit :=
  let result : Except Halt Unit := match looped.2 with
    | .error halt => .error halt
    | .ok remaining => finish objects args looped.1.found remaining
  match result with
  | .error (.failure failure) => (looped.1.reset, .error (.failure failure))
  | result => (looped.1, result)

theorem processOrReset_eq (character : Char) (args : List (Entry ω)) (tokens : List Token)
    (state : State ω) :
    processOrReset objects character args tokens state =
      endOrReset objects args (processLoop objects character [] args tokens state) := by
  unfold processOrReset process endOrReset
  rcases processLoop objects character [] args tokens state with ⟨ended, halt | remaining⟩
  · cases halt <;> rfl
  · dsimp only
    cases finish objects args ended.found remaining with
    | error halt => cases halt <;> rfl
    | ok _ => rfl

def workOrReset (steps : Nat) (args : List (Entry ω)) (tokens : List Token) (state : State ω)
    (work : Work) : Option ((State ω × Except Halt Unit) × Work) :=
  (workLoop objects beyond steps [] args tokens state work).map fun (looped, work) =>
    (endOrReset objects args looped, work)

/-- `ArgumentParser::Parse` on a vector of strings. -/
def parseWork (steps : Nat) (args : List (Entry ω)) (tokens : List Token) (offset : Nat)
    (state : State ω) : Option ((State ω × Except Halt Unit) × Work) :=
  if tokens = [] then some ((state, fail "empty argument list"), {})
  else workOrReset objects beyond steps args (tokens.drop offset) state {}

/-- `ArgumentParser::Parse` on a span of string views. -/
def parseSpanWork (steps : Nat) (args : List (Entry ω)) (tokens : List Token) (offset : Nat)
    (state : State ω) : Option ((State ω × Except Halt Unit) × Work) :=
  if tokens.length < offset then some ((state, fail "invalid offset"), {})
  else workOrReset objects beyond steps args (tokens.drop offset) state
    (({} : Work).takeSubspan offset tokens.length)

/-- `ArgumentParser::Parse` on the strings of `argv`. -/
def parseArgumentsWork (steps : Nat) (args : List (Entry ω)) (argv : List Token) (offset : Nat)
    (state : State ω) : Option ((State ω × Except Halt Unit) × Work) :=
  if argv.length < offset then some ((state, fail "invalid offset"), {})
  else parseWork objects beyond steps args ((argv.drop offset).map trimmed) offset state

def Overload.parseWork (overload : Overload) (steps : Nat) (args : List (Entry ω))
    (tokens : List Token) (offset : Nat) (state : State ω) :
    Option ((State ω × Except Halt Unit) × Work) :=
  match overload with
  | .vector => Argparse.parseWork objects beyond steps args tokens offset state
  | .span => parseSpanWork objects beyond steps args tokens offset state
  | .argv => parseArgumentsWork objects beyond steps args tokens offset state

/-- The parse returns with this outcome, with no more matches than tokens and no subspan past the
end of its tokens. -/
def EndsWithin (run : Nat → Option ((State ω × Except Halt Unit) × Work)) (size : Nat)
    (outcome : State ω × Except Halt Unit) : Prop :=
  ∃ work, Yields run (outcome, work) ∧ work.matched ≤ size ∧
    ∀ taken ∈ work.subspans, taken.1 ≤ taken.2

/-- A parse within its tokens that ends as `processed` does, where every read past the end of a
token gives the same character. -/
def EndsAs (run : Nat → Option ((State ω × Except Halt Unit) × Work)) (size : Nat)
    (processed : Char → State ω × Except Halt Unit) : Prop :=
  ∃ outcome, EndsWithin run size outcome ∧
    ∀ character, (∀ left, beyond left = character) → processed character = outcome

theorem endsAs_of_eq (run : Nat → Option ((State ω × Except Halt Unit) × Work)) (size : Nat)
    (outcome : State ω × Except Halt Unit) (ran : ∀ steps, run steps = some (outcome, {})) :
    EndsAs beyond run size fun _ => outcome :=
  ⟨outcome, ⟨{}, ⟨0, fun steps _ => ran steps⟩, Nat.zero_le _, List.forall_mem_nil _⟩,
    fun _ _ => rfl⟩

variable (args : List (Entry ω)) (tokens : List Token)

theorem endsAs_workOrReset (state : State ω) {work : Work} (unmatched : work.matched = 0)
    (inside : ∀ taken ∈ work.subspans, taken.1 ≤ taken.2) {size : Nat}
    (shorter : tokens.length ≤ size) :
    EndsAs beyond (fun steps => workOrReset objects beyond steps args tokens state work) size
      fun character => processOrReset objects character args tokens state := by
  obtain ⟨looped, after, ran, within, agrees⟩ := worked objects beyond [] args tokens state work
  have yields : Yields (fun steps => workLoop objects beyond steps [] args tokens state work)
      (looped, after) := ⟨tokens.length + 1, ran⟩
  refine ⟨endOrReset objects args looped, ⟨after, yields.map _, ?_, fun taken member => ?_⟩,
    fun character same => ?_⟩
  · have bound := within.matched
    omega
  · exact (within.subspans taken member).elim (inside taken) id
  · dsimp only
    rw [processOrReset_eq, agrees character same]

theorem endsAs_parseWork (offset : Nat) (state : State ω) {size : Nat}
    (shorter : tokens.length ≤ size) :
    EndsAs beyond (fun steps => parseWork objects beyond steps args tokens offset state) size
      fun character => parse objects character args tokens offset state := by
  unfold parseWork parse
  split
  · exact endsAs_of_eq beyond _ _ _ fun _ => rfl
  · exact endsAs_workOrReset objects beyond args _ state rfl (List.forall_mem_nil _)
      ((List.drop_sublist ..).length_le.trans shorter)

theorem endsAs_parseSpanWork (offset : Nat) (state : State ω) :
    EndsAs beyond (fun steps => parseSpanWork objects beyond steps args tokens offset state)
      tokens.length fun character => parseSpan objects character args tokens offset state := by
  unfold parseSpanWork parseSpan
  split
  · exact endsAs_of_eq beyond _ _ _ fun _ => rfl
  · rename_i inside
    refine endsAs_workOrReset objects beyond args _ state rfl (fun taken member => ?_)
      (List.drop_sublist ..).length_le
    obtain rfl := List.mem_singleton.mp member
    exact Nat.le_of_not_lt inside

theorem Overload.endsAs (overload : Overload) (args : List (Entry ω)) (tokens : List Token)
    (offset : Nat) (state : State ω) :
    EndsAs beyond
      (fun steps => overload.parseWork objects beyond steps args tokens offset state)
      tokens.length fun character => overload.parse objects character args tokens offset state := by
  cases overload with
  | vector => exact endsAs_parseWork objects beyond args tokens offset state (Nat.le_refl _)
  | span => exact endsAs_parseSpanWork objects beyond args tokens offset state
  | argv =>
    simp only [Overload.parseWork, parseArgumentsWork, Overload.parse, parseArguments]
    split
    · exact endsAs_of_eq beyond _ _ _ fun _ => rfl
    · refine endsAs_parseWork objects beyond args _ offset state ?_
      rw [List.length_map]
      exact (List.drop_sublist ..).length_le

/-- Every parse ends, with no more matches in all of its parsers than it has tokens, and with no
subspan past the end of the tokens that are left. -/
theorem parse_endsWithin (overload : Overload) (args : List (Entry ω)) (tokens : List Token)
    (offset : Nat) (state : State ω) :
    ∃ outcome, EndsWithin
      (fun steps => overload.parseWork objects beyond steps args tokens offset state)
      tokens.length outcome := by
  obtain ⟨outcome, ends, -⟩ := overload.endsAs objects beyond args tokens offset state
  exact ⟨outcome, ends⟩

/-- Where every read past the end of a token gives the same character, this is the parser of the
other modules. -/
theorem Overload.parseWork_eq_parse (overload : Overload) (character : Char)
    (args : List (Entry ω)) (tokens : List Token) (offset : Nat) (state : State ω) :
    EndsWithin
      (fun steps =>
        overload.parseWork objects (fun _ => character) steps args tokens offset state)
      tokens.length (overload.parse objects character args tokens offset state) := by
  obtain ⟨_, ends, outcome_eq⟩ :=
    overload.endsAs objects (fun _ => character) args tokens offset state
  obtain rfl := outcome_eq character fun _ => rfl
  exact ends

end Work

end Fusion.Argparse
