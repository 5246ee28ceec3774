import Mathlib.Data.Finset.Basic
import Mathlib.Logic.Function.Basic
import Fusion.Result

/-!
# The argument parser

Arguments, options and positionals are objects that several parsers share, so a parser refers to
them by identity; a command owns its parser.  Converters and actions are arbitrary functions on the
variables of the program, and a converter may throw.  Which names were found is recorded once, at
the root parser.
-/

namespace Fusion.Argparse

/-- A word of the command line. -/
abbrev Token := List Char

/-- Ways for the parser not to succeed. -/
inductive Halt
  | failure (failure : Failure)
  /-- `std::out_of_range` is thrown. -/
  | outOfRange
deriving DecidableEq

def fail {α : Type*} (message : String) : Except Halt α := .error (.failure { message })

/-- `std::string_view::substr` from a position to the end. -/
def substr (text : Token) (position : Nat) : Except Halt Token :=
  if position ≤ text.length then .ok (text.drop position) else .error .outOfRange

/-- The entries that are no commands. -/
inductive LeafType
  | argument
  | option
  | positional
deriving DecidableEq

/-- An `ArgumentImpl`, `ArgumentOption` or `ArgumentPositional` over program variables `ω`. -/
structure Leaf (ω : Type) where
  type : LeafType
  name : Token
  /-- Empty where there is none. -/
  aliasName : Token := []
  flag : Option Char := none
  required : Bool := false
  isSequence : Bool := false
  /-- Convert a text into the bound variable; an option converts no text.  The converters trim a
  view of the text, so that they may throw. -/
  convert : Token → ω → ω × Except Halt Unit
  /-- The test against the choices of an `ArgumentImpl`. -/
  checkChoices : ω → Result Unit := fun _ => .ok ()
  action : ω → ω × Result Unit := fun world => (world, .ok ())

namespace Leaf

/-- The local `Matcher` of `ArgumentBase::Match`; `beyond` is what a read past the end gives. -/
def matcher (beyond : Char) (input param : Token) : Except Halt Bool :=
  if param = [] ∨ input.getD 1 beyond ≠ '-' then .ok false
  else
    match substr input 2 with
    | .error halt => .error halt
    | .ok input =>
      if param = input then .ok true
      else
        match input.idxOf? '=' with
        | some equal => .ok (param == input.take equal)
        | none => .ok false

/-- `ArgumentBase::Match`. -/
def matchBase {ω : Type} (beyond : Char) (leaf : Leaf ω) (arg : Token) : Except Halt Bool :=
  if arg.head? ≠ some '-' then .ok false
  else if leaf.flag.isSome ∧ arg.length = 2 ∧ arg[1]? = leaf.flag then .ok true
  else
    match matcher beyond arg leaf.name with
    | .ok false => matcher beyond arg leaf.aliasName
    | decided => decided

/-- The `Match` of the object, given the names that were found. -/
def matchToken {ω : Type} (beyond : Char) (leaf : Leaf ω) (found : Finset Token) (arg : Token) :
    Except Halt Bool :=
  match leaf.type with
  | .positional => .ok (leaf.isSequence || decide (leaf.name ∉ found))
  | _ => leaf.matchBase beyond arg

/-- The local `Handler` of `Parse`. -/
def handler {ω : Type} (leaf : Leaf ω) (text : Token) (world : ω) : ω × Except Halt Unit :=
  match leaf.convert text world with
  | (world, .error halt) => (world, .error halt)
  | (world, .ok ()) =>
    match leaf.type, leaf.checkChoices world with
    | .argument, .error failure => (world, .error (.failure failure))
    | _, _ => ((leaf.action world).1, (leaf.action world).2.mapError .failure)

/-- The text that `ArgumentImpl::Parse` converts, and how many tokens after the first it takes. -/
def valueOf (beyond : Char) (arg : Token) (args : List Token) : Except Halt (Token × Nat) :=
  if arg.getD 1 beyond = '-' then
    match arg.idxOf? '=' with
    | some equal => (substr arg (equal + 1)).map (·, 0)
    | none =>
      match args with
      | [] => fail "no remaining arguments to parse"
      | next :: _ => .ok (next, 1)
  else if arg.length ≠ 2 then (substr arg 2).map (·, 0)
  else
    match args with
    | [] => fail "no remaining arguments to parse"
    | next :: _ => .ok (next, 1)

/-- The `Parse` of the object on a first token and the tokens after it: how many of the latter it
takes. -/
def parse {ω : Type} (beyond : Char) (leaf : Leaf ω) (arg : Token) (args : List Token)
    (world : ω) : ω × Except Halt Nat :=
  let value :=
    match leaf.type with
    | .argument => valueOf beyond arg args
    | .option => .ok ([], 0)
    | .positional => .ok (arg, 0)
  match value with
  | .error halt => (world, .error halt)
  | .ok (text, more) =>
    match leaf.handler text world with
    | (world, .error halt) => (world, .error halt)
    | (world, .ok ()) => (world, .ok more)

end Leaf

/-- What an `ArgumentCommand` holds beside its parser. -/
structure Command (ω : Type) where
  name : Token
  required : Bool := false
  action : ω → ω × Result Unit := fun world => (world, .ok ())

/-- An element of `m_args`: a shared object, or a command with the `m_args` of its parser. -/
inductive Entry (ω : Type)
  | leaf (id : Nat)
  | command (info : Command ω) (args : List (Entry ω))

namespace Entry

variable {ω : Type} (objects : Nat → Leaf ω)

def name : Entry ω → Token
  | .leaf id => (objects id).name
  | .command info _ => info.name

def required : Entry ω → Bool
  | .leaf id => (objects id).required
  | .command info _ => info.required

def isSequence : Entry ω → Bool
  | .leaf id => (objects id).isSequence
  | .command _ _ => false

/-- `ArgumentBase::GetParameterStr` without the metavariable. -/
def parameterStr : Entry ω → Token
  | .leaf id =>
    let leaf := objects id
    let dashes := match leaf.type with
      | .positional => []
      | _ => ['-', '-']
    let flag := match leaf.flag with
      | some flag => ['/', '-', flag]
      | none => []
    dashes ++ leaf.name ++ flag
  | .command info _ => info.name

def matchToken (beyond : Char) (found : Finset Token) (arg : Token) : Entry ω → Except Halt Bool
  | .leaf id => (objects id).matchToken beyond found arg
  | .command info _ => .ok (info.name == arg)

/-- The first entry that takes the token. -/
def firstMatch (beyond : Char) (found : Finset Token) (arg : Token) :
    List (Entry ω) → Except Halt (Option (Entry ω))
  | [] => .ok none
  | entry :: entries =>
    match entry.matchToken objects beyond found arg with
    | .error halt => .error halt
    | .ok true => .ok (some entry)
    | .ok false => firstMatch beyond found arg entries

end Entry

/-- What one parse changes: the variables of the program, the found names of the root parser, and
the `m_command` of the parser behind each chain of command names. -/
structure State (ω : Type) where
  world : ω
  found : Finset Token := ∅
  command : List Token → Token := fun _ => []

def State.markArgumentFound {ω : Type} (state : State ω) (name : Token) : State ω :=
  { state with found := insert name state.found }

/-- `ArgumentParser::Reset` at the root parser. -/
def State.reset {ω : Type} (state : State ω) : State ω :=
  { state with found := ∅, command := fun _ => [] }

section Process

variable {ω : Type} (objects : Nat → Leaf ω) (beyond : Char)

/-- The end of `ArgumentParser::Process`, after its loop. -/
def finish (args : List (Entry ω)) (found : Finset Token) (remaining : List Token) :
    Except Halt Unit :=
  match args.find? fun entry => entry.required objects && decide (entry.name objects ∉ found) with
  | some entry =>
    fail s!"missing required option: {String.ofList (entry.parameterStr objects)}"
  | none =>
    match remaining with
    | [] => .ok ()
    | token :: _ => fail s!"unrecognized argument: {String.ofList token}"

/-- The loop of `ArgumentParser::Process` in the parser behind `path`, with the tokens it leaves. -/
def processLoop (path : List Token) (args : List (Entry ω)) (tokens : List Token)
    (state : State ω) : State ω × Except Halt (List Token) :=
  match tokens with
  | [] => (state, .ok [])
  | token :: tokens =>
    match Entry.firstMatch objects beyond state.found token args with
    | .error halt => (state, .error halt)
    | .ok none => (state, .ok (token :: tokens))
    | .ok (some entry) =>
      if entry.name objects ∈ state.found ∧ entry.isSequence objects = false then
        (state, fail s!"duplicate argument: {String.ofList (entry.name objects)}")
      else
        match entry with
        | .leaf id =>
          match (objects id).parse beyond token tokens state.world with
          | (world, .error halt) => ({ state with world }, .error halt)
          | (world, .ok more) =>
            processLoop path args (tokens.drop more)
              ({ state with world }.markArgumentFound (objects id).name)
        | .command info inner =>
          let entered :=
            { state with command := Function.update state.command path info.name }
          match processLoop (path ++ [info.name]) inner tokens entered with
          | (state, .error halt) => (state, .error halt)
          | (state, .ok remaining) =>
            match finish objects inner state.found remaining with
            | .error halt => (state, .error halt)
            | .ok () =>
              match info.action state.world with
              | (world, .error failure) =>
                ({ state with world }, .error (.failure failure))
              -- The parser of the command has left no token.
              | (world, .ok ()) =>
                ({ state with world }.markArgumentFound info.name, .ok [])
termination_by tokens.length
decreasing_by
  · simp only [List.length_drop, List.length_cons]
    omega
  · simp

section Branches

variable {objects : Nat → Leaf ω} {beyond : Char} {path : List Token} {args inner : List (Entry ω)}
  {token : Token} {tokens remaining : List Token} {state ended : State ω} {halt : Halt}
  {entry : Entry ω} {id more : Nat} {info : Command ω} {world : ω} {failure : Failure}

theorem processLoop_halted
    (matched : Entry.firstMatch objects beyond state.found token args = .error halt) :
    processLoop objects beyond path args (token :: tokens) state = (state, .error halt) := by
  rw [processLoop]
  simp only [matched]

theorem processLoop_unmatched
    (matched : Entry.firstMatch objects beyond state.found token args = .ok none) :
    processLoop objects beyond path args (token :: tokens) state =
      (state, .ok (token :: tokens)) := by
  rw [processLoop]
  simp only [matched]

theorem processLoop_duplicate
    (matched : Entry.firstMatch objects beyond state.found token args = .ok (some entry))
    (duplicated : entry.name objects ∈ state.found ∧ entry.isSequence objects = false) :
    processLoop objects beyond path args (token :: tokens) state =
      (state, fail s!"duplicate argument: {String.ofList (entry.name objects)}") := by
  rw [processLoop]
  simp only [matched, if_pos duplicated]

section Leaf

variable
  (matched : Entry.firstMatch objects beyond state.found token args = .ok (some (.leaf id)))
  (unduplicated : ¬((Entry.leaf id : Entry ω).name objects ∈ state.found ∧
    (Entry.leaf id : Entry ω).isSequence objects = false))

include matched unduplicated

theorem processLoop_leaf_halted
    (parsed : (objects id).parse beyond token tokens state.world = (world, .error halt)) :
    processLoop objects beyond path args (token :: tokens) state =
      ({ state with world }, .error halt) := by
  rw [processLoop]
  simp only [matched, if_neg unduplicated, parsed]

theorem processLoop_leaf
    (parsed : (objects id).parse beyond token tokens state.world = (world, .ok more)) :
    processLoop objects beyond path args (token :: tokens) state =
      processLoop objects beyond path args (tokens.drop more)
        ({ state with world }.markArgumentFound (objects id).name) := by
  rw [processLoop]
  simp only [matched, if_neg unduplicated, parsed]

end Leaf

end Branches

/-- `ArgumentParser::Process`. -/
def process (path : List Token) (args : List (Entry ω)) (tokens : List Token) (state : State ω) :
    State ω × Except Halt Unit :=
  match processLoop objects beyond path args tokens state with
  | (state, .error halt) => (state, .error halt)
  | (state, .ok remaining) => (state, finish objects args state.found remaining)

/-- Process the tokens at the root parser and reset it where a `Failure` is returned. -/
def processOrReset (args : List (Entry ω)) (tokens : List Token) (state : State ω) :
    State ω × Except Halt Unit :=
  match process objects beyond [] args tokens state with
  | (state, .error (.failure failure)) => (state.reset, .error (.failure failure))
  | outcome => outcome

theorem world_processOrReset (args : List (Entry ω)) (tokens : List Token) (state : State ω) :
    (processOrReset objects beyond args tokens state).1.world =
      (processLoop objects beyond [] args tokens state).1.world := by
  unfold processOrReset process
  cases processLoop objects beyond [] args tokens state with
  | mk ended result =>
    cases result with
    | error halt => cases halt <;> rfl
    | ok remaining =>
      dsimp only
      cases finish objects args ended.found remaining with
      | error halt => cases halt <;> rfl
      | ok _ => rfl

/-- `ArgumentParser::Parse` on a vector of strings. -/
def parse (args : List (Entry ω)) (tokens : List Token) (offset : Nat) (state : State ω) :
    State ω × Except Halt Unit :=
  if tokens = [] then (state, fail "empty argument list")
  else processOrReset objects beyond args (tokens.drop offset) state

/-- `ArgumentParser::Parse` on a span of string views. -/
def parseSpan (args : List (Entry ω)) (tokens : List Token) (offset : Nat) (state : State ω) :
    State ω × Except Halt Unit :=
  if tokens.length < offset then (state, fail "invalid offset")
  else processOrReset objects beyond args (tokens.drop offset) state

end Process

end Fusion.Argparse
