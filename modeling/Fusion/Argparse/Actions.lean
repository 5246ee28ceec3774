import Fusion.Argparse.Descent
import Fusion.Argparse.Required

/-!
# The actions of commands

A command is executed by the parser around it, after its own parser has used up the tokens.  The
commands of one parse lie inside each other, so their actions run from the inside to the outside,
up to the first failure.
-/

namespace Fusion.Argparse

section Chains

variable {ω : Type}

/-- Commands of which each is in the parser of the one before, from a parser behind `path`. -/
inductive Nested : List Token → List (Entry ω) → List (Frame ω) → Prop
  | nil {path args} : Nested path args []
  | cons {path args info inner frames} (member : .command info inner ∈ args)
      (below : Nested (path ++ [info.name]) inner frames) :
      Nested path args ({ info, args := inner, path := path ++ [info.name] } :: frames)

/-- The `m_command` of every parser after the commands were entered. -/
def enterAll (command : List Token → Token) (frames : List (Frame ω)) : List Token → Token :=
  frames.foldl (fun command frame => Function.update command frame.path.dropLast frame.info.name)
    command

variable (objects : Nat → Leaf ω) (beyond : Char)

/-- The actions of a loop are those of the innermost commands entered, from the inside to the
outside; a loop that ends well has run all of them with success. -/
structure Unwinds (frames : List (Frame ω)) (succeeded : Prop) (executed : List (Execution ω)) :
    Prop where
  innermost : (executed.map Execution.frame).reverse <:+ frames
  whole : succeeded → (executed.map Execution.frame).reverse = frames
  /-- The parser of the command has used up the tokens and found what it requires. -/
  complete : ∀ execution ∈ executed, execution.remaining = [] ∧
    Satisfied objects execution.frame.args execution.found
  earlier : ∀ execution ∈ executed.dropLast, execution.outcome = .ok ()
  all : succeeded → ∀ execution ∈ executed, execution.outcome = .ok ()

variable {objects : Nat → Leaf ω} {beyond : Char}

/-! ## The way down -/

theorem nested_descend (path : List Token) (args : List (Entry ω)) (tokens : List Token)
    (state : State ω) :
    Nested path args (descend objects beyond path args tokens state).frames := by
  fun_induction descend objects beyond path args tokens state with
  | case1 => exact .nil
  | case2 => exact .nil
  | case3 => exact .nil
  | case4 => exact .nil
  | case5 => exact .nil
  | case6 path args state token tokens id world more parsed below matched unduplicated ih =>
    exact ih
  | case7 path args state token tokens info inner below matched unduplicated ih =>
    exact .cons (firstMatch_eq_some matched).mem ih

/-- The names in `m_command` are those of the commands entered. -/
theorem command_descend (path : List Token) (args : List (Entry ω)) (tokens : List Token)
    (state : State ω) :
    (descend objects beyond path args tokens state).ended.1.command =
      enterAll state.command (descend objects beyond path args tokens state).frames := by
  fun_induction descend objects beyond path args tokens state with
  | case1 => rfl
  | case2 => rfl
  | case3 => rfl
  | case4 => rfl
  | case5 => rfl
  | case6 path args state token tokens id world more parsed below matched unduplicated ih =>
    exact ih
  | case7 path args state token tokens info inner below matched unduplicated ih =>
    simp only [below, ih, enterAll, List.foldl_cons, List.dropLast_concat]

theorem Nested.length_lt {path : List Token} {args : List (Entry ω)} {frames : List (Frame ω)}
    (nested : Nested path args frames) {frame : Frame ω} (member : frame ∈ frames) :
    path.length < frame.path.length := by
  induction nested with
  | nil => cases member
  | @cons path args info inner frames entry_mem below ih =>
    rcases List.mem_cons.mp member with rfl | later
    · simp
    · have deeper := ih later
      rw [List.length_append] at deeper
      exact Nat.lt_of_le_of_lt (Nat.le_add_right _ _) deeper

theorem Nested.nodup {path : List Token} {args : List (Entry ω)} {frames : List (Frame ω)}
    (nested : Nested path args frames) : (frames.map Frame.path).Nodup := by
  induction nested with
  | nil => exact List.nodup_nil
  | cons member below ih =>
    refine List.nodup_cons.mpr ⟨fun later => ?_, ih⟩
    obtain ⟨frame, frame_mem, path_eq⟩ := List.mem_map.mp later
    exact absurd (below.length_lt frame_mem) (by rw [path_eq]; exact Nat.lt_irrefl _)

/-! ## The way back -/

theorem unwinds_nil (succeeded : Prop) : Unwinds objects [] succeeded [] where
  innermost := List.nil_suffix
  whole := fun _ => rfl
  complete := fun _ member => absurd member List.not_mem_nil
  earlier := fun _ member => absurd member List.not_mem_nil
  all := fun _ _ member => absurd member List.not_mem_nil

namespace Unwinds

variable {frames : List (Frame ω)} {succeeded : Prop} {executed : List (Execution ω)}

theorem enter (unwinds : Unwinds objects frames succeeded executed) (frame : Frame ω)
    {weaker : Prop} (failed : ¬weaker) : Unwinds objects (frame :: frames) weaker executed where
  innermost := unwinds.innermost.trans (List.suffix_cons _ _)
  whole := fun holds => absurd holds failed
  complete := unwinds.complete
  earlier := unwinds.earlier
  all := fun holds => absurd holds failed

theorem execute (unwinds : Unwinds objects frames succeeded executed) (holds : succeeded)
    (execution : Execution ω) (used_up : execution.remaining = [])
    (satisfied : Satisfied objects execution.frame.args execution.found) {also : Prop}
    (outcome : also → execution.outcome = .ok ()) :
    Unwinds objects (execution.frame :: frames) also (executed ++ [execution]) := by
  have frames_eq : ((executed ++ [execution]).map Execution.frame).reverse =
      execution.frame :: frames := by
    rw [List.map_append, List.reverse_append, unwinds.whole holds]
    rfl
  refine ⟨frames_eq ▸ List.suffix_refl _, fun _ => frames_eq, ?_, ?_, ?_⟩
  · intro other other_mem
    rcases List.mem_append.mp other_mem with before | last
    · exact unwinds.complete other before
    · rw [List.mem_singleton.mp last]
      exact ⟨used_up, satisfied⟩
  · rw [List.dropLast_concat]
    exact unwinds.all holds
  · intro success other other_mem
    rcases List.mem_append.mp other_mem with before | last
    · exact unwinds.all holds other before
    · rw [List.mem_singleton.mp last]
      exact outcome success

end Unwinds

theorem unwinds_unwind (ended : State ω × Except Halt (List Token)) (frames : List (Frame ω)) :
    Unwinds objects frames (∃ remaining, (unwind objects ended frames).1.2 = .ok remaining)
      (unwind objects ended frames).2 := by
  induction frames with
  | nil => exact unwinds_nil _
  | cons frame frames ih =>
    rw [unwind]
    generalize unwind objects ended frames = outcome at ih
    obtain ⟨⟨state, looped⟩, executed⟩ := outcome
    cases looped with
    | error halt =>
      simp only [Frame.leave, List.append_nil]
      exact ih.enter frame (by simp)
    | ok remaining =>
      cases finished : finish objects frame.args state.found remaining with
      | error halt =>
        simp only [Frame.leave, finished, List.append_nil]
        exact ih.enter frame (by simp)
      | ok _ =>
        have used_up := remaining_eq_nil_of_finish objects finished
        have satisfied := satisfied_of_finish finished
        cases acted : frame.info.action state.world with
        | mk world outcome =>
          cases outcome with
          | error failure =>
            simp only [Frame.leave, finished, acted]
            exact ih.execute ⟨remaining, rfl⟩ ⟨frame, _, _, _⟩ used_up satisfied (by simp)
          | ok _ =>
            simp only [Frame.leave, finished, acted]
            exact ih.execute ⟨remaining, rfl⟩ ⟨frame, _, _, _⟩ used_up satisfied
              fun _ => rfl

theorem command_unwind (ended : State ω × Except Halt (List Token)) (frames : List (Frame ω)) :
    (unwind objects ended frames).1.1.command = ended.1.command := by
  induction frames with
  | nil => rfl
  | cons frame frames ih =>
    rw [← ih, unwind]
    generalize unwind objects ended frames = outcome
    obtain ⟨⟨state, looped⟩, executed⟩ := outcome
    cases looped with
    | error halt => rfl
    | ok remaining =>
      simp only [Frame.leave]
      split
      · rfl
      · split <;> rfl

end Chains

/-! ## Watching a parse -/

/-- What the objects and commands of a program write when they are watched. -/
inductive Event
  | handled (id : Nat)
  | executed (path : List Token) (outcome : Result Unit)

/-- What was written, the oldest first. -/
abbrev Log := List Event

def Execution.event {ω : Type} (execution : Execution ω) : Event :=
  .executed execution.frame.path execution.outcome

section Watch

variable {ω : Type}

/-- The object in a program that keeps a log beside its variables. -/
def Leaf.watched (id : Nat) (leaf : Leaf ω) : Leaf (ω × Log) where
  type := leaf.type
  name := leaf.name
  aliasName := leaf.aliasName
  flag := leaf.flag
  required := leaf.required
  isSequence := leaf.isSequence
  convert text world :=
    (((leaf.convert text world.1).1, world.2 ++ [.handled id]), (leaf.convert text world.1).2)
  checkChoices world := leaf.checkChoices world.1
  action world := (((leaf.action world.1).1, world.2), (leaf.action world.1).2)

/-- The command behind `path`, whose action also writes to the log. -/
def Command.watched (path : List Token) (info : Command ω) : Command (ω × Log) where
  name := info.name
  required := info.required
  action world :=
    (((info.action world.1).1, world.2 ++ [.executed path (info.action world.1).2]),
      (info.action world.1).2)

mutual

/-- The entry with every command below it watched. -/
def Entry.watched (path : List Token) : Entry ω → Entry (ω × Log)
  | .leaf id => .leaf id
  | .command info args => .command (info.watched (path ++ [info.name]))
      (Entry.watchedAll (path ++ [info.name]) args)

def Entry.watchedAll (path : List Token) : List (Entry ω) → List (Entry (ω × Log))
  | [] => []
  | entry :: entries => entry.watched path :: Entry.watchedAll path entries

end

def Frame.watched (frame : Frame ω) : Frame (ω × Log) where
  info := frame.info.watched frame.path
  args := Entry.watchedAll frame.path frame.args
  path := frame.path

def State.watched (state : State ω) (log : Log) : State (ω × Log) where
  world := (state.world, log)
  found := state.found
  command := state.command

def watchedObjects (objects : Nat → Leaf ω) (id : Nat) : Leaf (ω × Log) := (objects id).watched id

/-- What a watched loop writes: its conversions on the way down, and then its executions. -/
def events (objects : Nat → Leaf ω) (beyond : Char) (path : List Token) (args : List (Entry ω))
    (tokens : List Token) (state : State ω) : Log :=
  (descend objects beyond path args tokens state).handled.map .handled ++
    (executions objects beyond path args tokens state).map Execution.event

variable (objects : Nat → Leaf ω) (beyond : Char) (path : List Token) (args : List (Entry ω))
  (tokens : List Token) (found : Finset Token) (entry : Entry ω) (state : State ω) (log : Log)

@[simp] theorem Entry.name_watched :
    (entry.watched path).name (watchedObjects objects) = entry.name objects := by
  cases entry <;> rfl

@[simp] theorem Entry.required_watched :
    (entry.watched path).required (watchedObjects objects) = entry.required objects := by
  cases entry <;> rfl

@[simp] theorem Entry.isSequence_watched :
    (entry.watched path).isSequence (watchedObjects objects) = entry.isSequence objects := by
  cases entry <;> rfl

@[simp] theorem Entry.parameterStr_watched :
    (entry.watched path).parameterStr (watchedObjects objects) = entry.parameterStr objects := by
  cases entry <;> rfl

@[simp] theorem Entry.matchToken_watched (arg : Token) (entry : Entry ω) :
    (entry.watched path).matchToken (watchedObjects objects) beyond found arg =
      entry.matchToken objects beyond found arg := by
  cases entry <;> rfl

theorem Entry.watchedAll_eq_map : Entry.watchedAll path args = args.map (Entry.watched path) := by
  induction args with
  | nil => rfl
  | cons entry args ih => rw [Entry.watchedAll, ih, List.map_cons]

theorem Entry.firstMatch_watched (arg : Token) (args : List (Entry ω)) :
    Entry.firstMatch (watchedObjects objects) beyond found arg (Entry.watchedAll path args) =
      (Entry.firstMatch objects beyond found arg args).map (Option.map (Entry.watched path)) := by
  induction args with
  | nil => rfl
  | cons entry args ih =>
    simp only [Entry.watchedAll, Entry.firstMatch, Entry.matchToken_watched]
    split
    · rfl
    · rfl
    · exact ih

theorem Entry.firstMatch_watched_eq {objects : Nat → Leaf ω} {beyond : Char}
    {found : Finset Token} {arg : Token} {args : List (Entry ω)}
    {matched : Except Halt (Option (Entry ω))}
    (matched_eq : Entry.firstMatch objects beyond found arg args = matched) :
    Entry.firstMatch (watchedObjects objects) beyond found arg (Entry.watchedAll path args) =
      matched.map (Option.map (Entry.watched path)) := by
  rw [Entry.firstMatch_watched, matched_eq]

theorem Entry.unduplicated_watched {objects : Nat → Leaf ω} {state : State ω} {entry : Entry ω}
    (unduplicated : ¬(entry.name objects ∈ state.found ∧ entry.isSequence objects = false)) :
    ¬((entry.watched path).name (watchedObjects objects) ∈ (state.watched log).found ∧
      (entry.watched path).isSequence (watchedObjects objects) = false) := by
  rw [Entry.name_watched, Entry.isSequence_watched]
  exact unduplicated

theorem Entry.matched_watched {objects : Nat → Leaf ω} {beyond : Char} {token : Token}
    {args : List (Entry ω)} {state : State ω} {entry : Entry ω}
    (matched : Entry.firstMatch objects beyond state.found token args = .ok (some entry))
    (unduplicated : ¬(entry.name objects ∈ state.found ∧ entry.isSequence objects = false)) :
    Entry.firstMatch (watchedObjects objects) beyond (state.watched log).found token
        (Entry.watchedAll path args) = .ok (some (entry.watched path)) ∧
      ¬((entry.watched path).name (watchedObjects objects) ∈ (state.watched log).found ∧
        (entry.watched path).isSequence (watchedObjects objects) = false) :=
  ⟨Entry.firstMatch_watched_eq path matched, Entry.unduplicated_watched path log unduplicated⟩

theorem finish_watched (remaining : List Token) :
    finish (watchedObjects objects) (Entry.watchedAll path args) found remaining =
      finish objects args found remaining := by
  have find_eq : (Entry.watchedAll path args).find? (fun entry =>
        entry.required (watchedObjects objects) &&
          decide (entry.name (watchedObjects objects) ∉ found)) =
      (args.find? fun entry =>
        entry.required objects && decide (entry.name objects ∉ found)).map
          (Entry.watched path) := by
    induction args with
    | nil => rfl
    | cons entry args ih =>
      simp only [Entry.watchedAll, List.find?_cons, Entry.required_watched, Entry.name_watched]
      split
      · rfl
      · exact ih
  unfold finish
  rw [find_eq]
  cases args.find? fun entry => entry.required objects && decide (entry.name objects ∉ found) with
  | none => rfl
  | some entry => simp only [Option.map_some, Entry.parameterStr_watched]

theorem Leaf.handler_watched (id : Nat) (leaf : Leaf ω) (text : Token) (world : ω) (log : Log) :
    (leaf.watched id).handler text (world, log) =
      (((leaf.handler text world).1, log ++ [.handled id]), (leaf.handler text world).2) := by
  simp only [Leaf.handler, Leaf.watched]
  cases leaf.convert text world with
  | mk after converted =>
    cases converted with
    | error failure => rfl
    | ok _ =>
      cases leaf.type with
      | argument =>
        cases chosen : leaf.checkChoices after with
        | error failure => simp only [chosen]
        | ok _ => simp only [chosen]
      | option => rfl
      | positional => rfl

theorem parse_watchedObjects (id : Nat) (token : Token) (tokens : List Token) (world : ω)
    (log : Log) :
    (watchedObjects objects id).parse beyond token tokens (world, log) =
      ((((objects id).parse beyond token tokens world).1,
          log ++ (handling objects beyond id token tokens).map .handled),
        ((objects id).parse beyond token tokens world).2) := by
  have value_eq : (watchedObjects objects id).value beyond token tokens =
      (objects id).value beyond token tokens := rfl
  cases valued : (objects id).value beyond token tokens with
  | error halt =>
    rw [valued] at value_eq
    rw [Leaf.parse_of_value_error value_eq, Leaf.parse_of_value_error valued]
    simp [handling, valued]
  | ok value =>
    rw [valued] at value_eq
    rw [Leaf.parse_of_value value_eq, Leaf.parse_of_value valued, watchedObjects,
      Leaf.handler_watched]
    simp only [handling, valued]
    cases (objects id).handler value.1 world with
    | mk after handled => cases handled <;> rfl

/-- Watching does not change the way down. -/
theorem descend_watched :
    descend (watchedObjects objects) beyond path (Entry.watchedAll path args) tokens
        (state.watched log) =
      let descent := descend objects beyond path args tokens state
      { handled := descent.handled
        frames := descent.frames.map Frame.watched
        ended := (descent.ended.1.watched (log ++ descent.handled.map .handled),
          descent.ended.2) } := by
  fun_induction descend objects beyond path args tokens state generalizing log with
  | case1 path args state =>
    rw [descend]
    simp only [List.map_nil, List.append_nil]
  | case2 path args state token tokens halt matched =>
    rw [descend]
    simp only [State.watched, Entry.firstMatch_watched_eq path matched, Except.map, List.map_nil,
      List.append_nil]
  | case3 path args state token tokens matched =>
    rw [descend]
    simp only [State.watched, Entry.firstMatch_watched_eq path matched, Except.map,
      Option.map_none, List.map_nil, List.append_nil]
  | case4 path args state token tokens entry matched duplicated =>
    rw [descend]
    simp only [State.watched, Entry.firstMatch_watched_eq path matched, Except.map,
      Option.map_some, Entry.name_watched, Entry.isSequence_watched, if_pos duplicated,
      List.map_nil, List.append_nil]
  | case5 path args state token tokens id world halt parsed matched unduplicated =>
    obtain ⟨first, fresh⟩ := Entry.matched_watched path log matched unduplicated
    have parsed_watched := parse_watchedObjects objects beyond id token tokens state.world log
    rw [parsed] at parsed_watched
    rw [descend_leaf_halted first fresh parsed_watched]
    rfl
  | case6 path args state token tokens id world more parsed below matched unduplicated ih =>
    obtain ⟨first, fresh⟩ := Entry.matched_watched path log matched unduplicated
    have parsed_watched := parse_watchedObjects objects beyond id token tokens state.world log
    rw [parsed] at parsed_watched
    rw [descend_leaf first fresh parsed_watched]
    have inside := ih (log ++ (handling objects beyond id token tokens).map .handled)
    simp only [below, List.map_append, ← List.append_assoc]
    simp only [State.watched, State.markArgumentFound] at inside ⊢
    rw [show (watchedObjects objects id).name = (objects id).name from rfl, inside]
    rfl
  | case7 path args state token tokens info inner below matched unduplicated ih =>
    obtain ⟨first, fresh⟩ := Entry.matched_watched path log matched unduplicated
    rw [Entry.watched] at first fresh
    rw [descend_command first fresh]
    have inside := ih log
    simp only [State.watched, Command.watched, below] at inside ⊢
    rw [inside]
    rfl

theorem leave_watched (frame : Frame ω) (ended : State ω × Except Halt (List Token)) (log : Log) :
    (frame.watched.leave (watchedObjects objects) (ended.1.watched log, ended.2)).1 =
      ((frame.leave objects ended).1.1.watched
          (log ++ (frame.leave objects ended).2.map Execution.event),
        (frame.leave objects ended).1.2) := by
  obtain ⟨state, looped⟩ := ended
  cases looped with
  | error halt => simp only [Frame.leave, List.map_nil, List.append_nil]
  | ok remaining =>
    have same := finish_watched objects frame.path frame.args state.found remaining
    cases finished : finish objects frame.args state.found remaining with
    | error halt =>
      rw [finished] at same
      simp only [Frame.leave, Frame.watched, State.watched, finished, same, List.map_nil,
        List.append_nil]
    | ok _ =>
      rw [finished] at same
      cases acted : frame.info.action state.world with
      | mk world outcome =>
        simp only [Frame.leave, Frame.watched, State.watched, finished, same,
          Command.watched, acted]
        cases outcome <;> rfl

theorem unwind_watched (ended : State ω × Except Halt (List Token)) (frames : List (Frame ω))
    (log : Log) :
    (unwind (watchedObjects objects) (ended.1.watched log, ended.2) (frames.map Frame.watched)).1 =
      ((unwind objects ended frames).1.1.watched
          (log ++ (unwind objects ended frames).2.map Execution.event),
        (unwind objects ended frames).1.2) := by
  induction frames with
  | nil => simp only [List.map_nil, unwind, List.append_nil]
  | cons frame frames ih =>
    simp only [List.map_cons, unwind]
    rw [ih, leave_watched, List.append_assoc, ← List.map_append]

theorem processLoop_watched :
    processLoop (watchedObjects objects) beyond path (Entry.watchedAll path args) tokens
        (state.watched log) =
      ((processLoop objects beyond path args tokens state).1.watched
          (log ++ events objects beyond path args tokens state),
        (processLoop objects beyond path args tokens state).2) := by
  rw [processLoop_eq_unwind, processLoop_eq_unwind, descend_watched, unwind_watched, events,
    executions, List.append_assoc]

theorem processOrReset_watched :
    processOrReset (watchedObjects objects) beyond (Entry.watchedAll [] args) tokens
        (state.watched log) =
      ((processOrReset objects beyond args tokens state).1.watched
          (log ++ events objects beyond [] args tokens state),
        (processOrReset objects beyond args tokens state).2) := by
  unfold processOrReset process
  rw [processLoop_watched]
  cases processLoop objects beyond [] args tokens state with
  | mk ended result =>
    cases result with
    | error halt => cases halt <;> rfl
    | ok remaining =>
      dsimp only
      rw [show (ended.watched _).found = ended.found from rfl, finish_watched]
      cases finish objects args ended.found remaining with
      | error halt => cases halt <;> rfl
      | ok _ => rfl

/-! ## Whole parses -/

/-- The way down of one parse. -/
def Overload.descent (overload : Overload) (args : List (Entry ω)) (tokens : List Token)
    (offset : Nat) (state : State ω) : Descent ω :=
  match overload.processed tokens offset with
  | none => { ended := (state, .ok []) }
  | some processed => descend objects beyond [] args processed state

/-- The actions that one parse runs. -/
def Overload.executions (overload : Overload) (args : List (Entry ω)) (tokens : List Token)
    (offset : Nat) (state : State ω) : List (Execution ω) :=
  let descent := overload.descent objects beyond args tokens offset state
  (unwind objects descent.ended descent.frames).2

/-- The commands entered lie inside each other.  The actions that run are those of the innermost of
them, of all after a success, once each and from the inside to the outside; each runs when the
parser of its command is complete, and after one that fails no other runs and the parse does not
succeed. -/
structure InsideOut (args : List (Entry ω)) (frames : List (Frame ω))
    (executed : List (Execution ω)) (succeeded : Prop) : Prop where
  chain : Nested [] args frames
  innermost : (executed.map Execution.frame).reverse <:+ frames
  whole : succeeded → (executed.map Execution.frame).reverse = frames
  once : (executed.map fun execution => execution.frame.path).Nodup
  complete : ∀ execution ∈ executed, execution.remaining = [] ∧
    Satisfied objects execution.frame.args execution.found
  failed : ∀ front execution back, executed = front ++ execution :: back →
    Failed execution.outcome → back = [] ∧ ¬succeeded

variable {objects : Nat → Leaf ω} {beyond : Char}

theorem Unwinds.insideOut {args : List (Entry ω)} {frames : List (Frame ω)}
    {executed : List (Execution ω)} {looped succeeded : Prop}
    (unwinds : Unwinds objects frames looped executed) (chain : Nested [] args frames)
    (imp : succeeded → looped) : InsideOut objects args frames executed succeeded where
  chain := chain
  innermost := unwinds.innermost
  whole := fun success => unwinds.whole (imp success)
  once := by
    have sublist := (unwinds.innermost.sublist.map Frame.path).nodup chain.nodup
    rw [List.map_reverse, List.nodup_reverse, List.map_map] at sublist
    exact sublist
  complete := unwinds.complete
  failed := by
    rintro front execution back rfl failed
    constructor
    · by_contra nonempty
      have before : execution ∈ (front ++ execution :: back).dropLast := by
        rw [List.dropLast_append_of_ne_nil (List.cons_ne_nil _ _),
          List.dropLast_cons_of_ne_nil nonempty]
        simp
      rw [unwinds.earlier execution before] at failed
      exact failed
    · intro success
      rw [unwinds.all (imp success) execution (by simp)] at failed
      exact failed

theorem insideOut_processOrReset :
    InsideOut objects args (descend objects beyond [] args tokens state).frames
      (executions objects beyond [] args tokens state)
      ((processOrReset objects beyond args tokens state).2 = .ok ()) := by
  refine (unwinds_unwind _ _).insideOut (nested_descend [] args tokens state) ?_
  intro succeeded
  obtain ⟨after, looped, -⟩ := processLoop_of_processOrReset succeeded
  exact ⟨[], by rw [← processLoop_eq_unwind, looped]⟩

/-- The actions of one parse run inside out.  The commands entered are those whose names the loop
puts into `m_command`, and a watched parse logs exactly the conversions and the actions. -/
theorem parse_runs_actions_insideOut (overload : Overload) (args : List (Entry ω))
    (tokens : List Token) (offset : Nat) (state : State ω) (log : Log) :
    InsideOut objects args (overload.descent objects beyond args tokens offset state).frames
        (overload.executions objects beyond args tokens offset state)
        ((overload.parse objects beyond args tokens offset state).2 = .ok ()) ∧
      (∀ processed, overload.processed tokens offset = some processed →
        (processLoop objects beyond [] args processed state).1.command = enterAll state.command
          (overload.descent objects beyond args tokens offset state).frames) ∧
      (overload.parse (watchedObjects objects) beyond (Entry.watchedAll [] args) tokens offset
          (state.watched log)).1.world.2 =
        log ++ ((overload.descent objects beyond args tokens offset state).handled.map .handled ++
          (overload.executions objects beyond args tokens offset state).map Execution.event) := by
  cases processed_eq : overload.processed tokens offset with
  | none =>
    obtain ⟨_, parse_eq⟩ := Overload.parse_of_unprocessed processed_eq objects beyond args
    obtain ⟨_, watched_eq⟩ := Overload.parse_of_unprocessed processed_eq (watchedObjects objects)
      beyond (Entry.watchedAll [] args)
    rw [Overload.executions, Overload.descent, processed_eq, parse_eq, watched_eq]
    refine ⟨(unwinds_nil False).insideOut .nil (fun success => by cases success), ?_, ?_⟩
    · intro _ impossible
      cases impossible
    · simp [unwind, State.watched]
  | some processed =>
    rw [Overload.executions, Overload.descent, processed_eq,
      Overload.parse_of_processed processed_eq, Overload.parse_of_processed processed_eq,
      processOrReset_watched]
    refine ⟨insideOut_processOrReset args processed state, ?_, rfl⟩
    rintro _ ⟨⟩
    rw [processLoop_eq_unwind, command_unwind, command_descend]

end Watch

example : (Overload.vector.executions (fun _ => helpOption) '-'
    [.command { name := ['a'] } [.command { name := ['b'] } []]] [['a'], ['b']] 0
      { world := () }).map (fun execution => execution.frame.path) = [[['a'], ['b']], [['a']]] := by
  decide +kernel

end Fusion.Argparse
