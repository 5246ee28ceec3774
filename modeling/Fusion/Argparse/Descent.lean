import Fusion.Argparse.Arguments

/-!
# The way down and the way back

A parser hands all its tokens to the first command that it meets, and a command is executed by the
parser around it.  So the loop of `Process` first descends through commands, with the conversions on
its way, and then executes the commands that it entered from the inside to the outside.
-/

namespace Fusion.Argparse

/-- A command that was entered. -/
structure Frame (ω : Type) where
  info : Command ω
  /-- The `m_args` of its parser. -/
  args : List (Entry ω)
  /-- The chain of names that leads to the command, with its own name last. -/
  path : List Token

/-- How far the tokens lead until some parser stops, before any command is executed. -/
structure Descent (ω : Type) where
  /-- The objects whose `Handler` is called, in this order. -/
  handled : List Nat := []
  /-- The commands that are entered, each in the parser of the one before. -/
  frames : List (Frame ω) := []
  /-- Where and how the loop of the innermost parser ends. -/
  ended : State ω × Except Halt (List Token)

/-- A call of the action of a command, with what its parser had done before. -/
structure Execution (ω : Type) where
  frame : Frame ω
  found : Finset Token
  remaining : List Token
  outcome : Result Unit

/-- The text that an object converts, and how many tokens after the first it takes. -/
def Leaf.value {ω : Type} (beyond : Char) (leaf : Leaf ω) (arg : Token) (args : List Token) :
    Except Halt (Token × Nat) :=
  match leaf.type with
  | .argument => valueOf beyond arg args
  | .option => .ok ([], 0)
  | .positional => .ok (arg, 0)

section Descent

variable {ω : Type} (objects : Nat → Leaf ω) (beyond : Char)

/-- The object, where it gets as far as its `Handler`. -/
def handling (id : Nat) (token : Token) (tokens : List Token) : List Nat :=
  match (objects id).value beyond token tokens with
  | .error _ => []
  | .ok _ => [id]

/-- The loop of `Process` up to the first token that no parser takes. -/
def descend (path : List Token) (args : List (Entry ω)) (tokens : List Token)
    (state : State ω) : Descent ω :=
  match tokens with
  | [] => { ended := (state, .ok []) }
  | token :: tokens =>
    match Entry.firstMatch objects beyond state.found token args with
    | .error halt => { ended := (state, .error halt) }
    | .ok none => { ended := (state, .ok (token :: tokens)) }
    | .ok (some entry) =>
      if entry.name objects ∈ state.found ∧ entry.isSequence objects = false then
        { ended := (state, fail s!"duplicate argument: {String.ofList (entry.name objects)}") }
      else
        match entry with
        | .leaf id =>
          match (objects id).parse beyond token tokens state.world with
          | (world, .error halt) =>
            { handled := handling objects beyond id token tokens
              ended := ({ state with world }, .error halt) }
          | (world, .ok more) =>
            let below := descend path args (tokens.drop more)
              ({ state with world }.markArgumentFound (objects id).name)
            { below with handled := handling objects beyond id token tokens ++
                below.handled }
        | .command info inner =>
          let below := descend (path ++ [info.name]) inner tokens
            { state with command := Function.update state.command path info.name }
          { below with frames :=
              { info, args := inner, path := path ++ [info.name] } :: below.frames }
termination_by tokens.length
decreasing_by
  · simp only [List.length_drop, List.length_cons]
    omega
  · simp

/-- What the parser around a command does with the end of the loop inside it. -/
def Frame.leave (frame : Frame ω) : State ω × Except Halt (List Token) →
    (State ω × Except Halt (List Token)) × List (Execution ω)
  | (state, .error halt) => ((state, .error halt), [])
  | (state, .ok remaining) =>
    match finish objects frame.args state.found remaining with
    | .error halt => ((state, .error halt), [])
    | .ok () =>
      let execution : Execution ω :=
        { frame, found := state.found, remaining
          outcome := (frame.info.action state.world).2 }
      match frame.info.action state.world with
      | (world, .error failure) => (({ state with world }, .error (.failure failure)), [execution])
      | (world, .ok ()) => (({ state with world }.markArgumentFound frame.info.name, .ok []),
          [execution])

/-- Leave the commands that were entered, from the last one on. -/
def unwind (ended : State ω × Except Halt (List Token)) :
    List (Frame ω) → (State ω × Except Halt (List Token)) × List (Execution ω)
  | [] => (ended, [])
  | frame :: frames =>
    let (inner, executed) := unwind ended frames
    ((frame.leave objects inner).1, executed ++ (frame.leave objects inner).2)

/-- The actions that the loop of `Process` runs, in their order. -/
def executions (path : List Token) (args : List (Entry ω)) (tokens : List Token)
    (state : State ω) : List (Execution ω) :=
  let descent := descend objects beyond path args tokens state
  (unwind objects descent.ended descent.frames).2

variable {objects : Nat → Leaf ω} {beyond : Char}

section Branches

variable {path : List Token} {args : List (Entry ω)} {token : Token} {tokens : List Token}
  {state : State ω} {entry : Entry ω} {id more : Nat} {world : ω} {halt : Halt}
  {info : Command ω} {inner : List (Entry ω)}

theorem descend_leaf_halted
    (matched : Entry.firstMatch objects beyond state.found token args = .ok (some (.leaf id)))
    (unduplicated : ¬((Entry.leaf id : Entry ω).name objects ∈ state.found ∧
      (Entry.leaf id : Entry ω).isSequence objects = false))
    (parsed : (objects id).parse beyond token tokens state.world = (world, .error halt)) :
    descend objects beyond path args (token :: tokens) state =
      { handled := handling objects beyond id token tokens
        ended := ({ state with world }, .error halt) } := by
  rw [descend]
  simp only [matched, if_neg unduplicated, parsed]

theorem descend_leaf
    (matched : Entry.firstMatch objects beyond state.found token args = .ok (some (.leaf id)))
    (unduplicated : ¬((Entry.leaf id : Entry ω).name objects ∈ state.found ∧
      (Entry.leaf id : Entry ω).isSequence objects = false))
    (parsed : (objects id).parse beyond token tokens state.world = (world, .ok more)) :
    descend objects beyond path args (token :: tokens) state =
      let below := descend objects beyond path args (tokens.drop more)
        ({ state with world }.markArgumentFound (objects id).name)
      { below with handled := handling objects beyond id token tokens ++ below.handled } := by
  rw [descend]
  simp only [matched, if_neg unduplicated, parsed]

theorem descend_command
    (matched : Entry.firstMatch objects beyond state.found token args =
      .ok (some (.command info inner)))
    (unduplicated : ¬((Entry.command info inner).name objects ∈ state.found ∧
      (Entry.command info inner).isSequence objects = false)) :
    descend objects beyond path args (token :: tokens) state =
      let below := descend objects beyond (path ++ [info.name]) inner tokens
        { state with command := Function.update state.command path info.name }
      { below with frames :=
          { info, args := inner, path := path ++ [info.name] } :: below.frames } := by
  rw [descend]
  simp only [matched, if_neg unduplicated]

end Branches

theorem Leaf.parse_eq (leaf : Leaf ω) (arg : Token) (args : List Token) (world : ω) :
    leaf.parse beyond arg args world =
      match leaf.value beyond arg args with
      | .error halt => (world, .error halt)
      | .ok (text, more) =>
        match leaf.handler text world with
        | (world, .error halt) => (world, .error halt)
        | (world, .ok ()) => (world, .ok more) := rfl

variable {arg : Token} {args : List Token} {leaf : Leaf ω}

theorem Leaf.parse_of_value_error {halt : Halt}
    (valued : leaf.value beyond arg args = .error halt) (world : ω) :
    leaf.parse beyond arg args world = (world, .error halt) := by
  rw [Leaf.parse_eq, valued]

theorem Leaf.parse_of_value {value : Token × Nat}
    (valued : leaf.value beyond arg args = .ok value) (world : ω) :
    leaf.parse beyond arg args world =
      ((leaf.handler value.1 world).1, (leaf.handler value.1 world).2.map fun _ => value.2) := by
  rw [Leaf.parse_eq, valued]
  dsimp only
  cases leaf.handler value.1 world with
  | mk after handled => cases handled <;> rfl

theorem processLoop_command_eq {path : List Token} {args inner : List (Entry ω)}
    {info : Command ω} {token : Token} {tokens : List Token} {state : State ω}
    (matched : Entry.firstMatch objects beyond state.found token args =
      .ok (some (.command info inner)))
    (unduplicated : ¬((Entry.command info inner).name objects ∈ state.found ∧
      (Entry.command info inner).isSequence objects = false)) :
    processLoop objects beyond path args (token :: tokens) state =
      (Frame.leave objects { info, args := inner, path := path ++ [info.name] }
        (processLoop objects beyond (path ++ [info.name]) inner tokens
          { state with command := Function.update state.command path info.name })).1 := by
  rw [processLoop]
  simp only [matched, if_neg unduplicated]
  rcases processLoop objects beyond (path ++ [info.name]) inner tokens _ with
    ⟨ended, halt | remaining⟩
  · rfl
  · simp only [Frame.leave]
    cases finish objects inner ended.found remaining with
    | error halt => rfl
    | ok _ => rcases info.action ended.world with ⟨world, failure | _⟩ <;> rfl

theorem processLoop_eq_unwind (path : List Token) (args : List (Entry ω)) (tokens : List Token)
    (state : State ω) :
    processLoop objects beyond path args tokens state =
      (unwind objects (descend objects beyond path args tokens state).ended
        (descend objects beyond path args tokens state).frames).1 := by
  fun_induction descend objects beyond path args tokens state with
  | case1 path args state => rw [processLoop, unwind]
  | case2 path args state token tokens halt matched => rw [processLoop_halted matched, unwind]
  | case3 path args state token tokens matched => rw [processLoop_unmatched matched, unwind]
  | case4 path args state token tokens entry matched duplicated =>
    rw [processLoop_duplicate matched duplicated, unwind]
  | case5 path args state token tokens id world halt parsed matched unduplicated =>
    rw [processLoop_leaf_halted matched unduplicated parsed, unwind]
  | case6 path args state token tokens id world more parsed below matched unduplicated ih =>
    rw [processLoop_leaf matched unduplicated parsed, ih]
  | case7 path args state token tokens info inner below matched unduplicated ih =>
    rw [processLoop_command_eq matched unduplicated, ih]
    rfl

end Descent

end Fusion.Argparse
