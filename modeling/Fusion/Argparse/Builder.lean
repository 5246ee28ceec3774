import Fusion.Argparse.Parser
import Fusion.Library.Runs
import Fusion.Library.Sorting

/-!
# Building a parser

`AddArgument`, `AddOption`, `AddPositional` and `AddCommand` check the name and the flag against the
`m_args` of one parser.  A command gets the arguments and options that its parent has, and those
that its parent is given later; a later one is put into the parser of the command unchecked.
-/

namespace Fusion.Argparse

variable {ω : Type}

/-! ## Checks -/

namespace Entry

def isCommand : Entry ω → Bool
  | .leaf _ => false
  | .command _ _ => true

/-- The alias, where those of the commands are given by name. -/
def aliasName (objects : Nat → Leaf ω) (aliases : Token → Token) : Entry ω → Token
  | .leaf id => (objects id).aliasName
  | .command info _ => aliases info.name

def flag (objects : Nat → Leaf ω) : Entry ω → Option Char
  | .leaf id => (objects id).flag
  | .command _ _ => none

/-- The value of `GetType()`. -/
def type (objects : Nat → Leaf ω) : Entry ω → Nat
  | .leaf id =>
    match (objects id).type with
    | .argument => 0
    | .option => 2
    | .positional => 3
  | .command _ _ => 1

/-- The entry goes into the parsers of the commands. -/
def inherited (objects : Nat → Leaf ω) : Entry ω → Bool
  | .leaf id => (objects id).type ≠ .positional ∧ (objects id).name ≠ "help".toList
  | .command _ _ => false

/-- Change the `m_args` of the parser of each command that is selected. -/
def mapArgs (selected : Token → Bool) (change : List (Entry ω) → List (Entry ω)) : Entry ω → Entry ω
  | .leaf id => .leaf id
  | .command info args => .command info (if selected info.name then change args else args)

/-- Change what a command holds beside its parser, but not its name. -/
def mapInfo (selected : Token → Bool) (change : Command ω → Command ω) : Entry ω → Entry ω
  | .leaf id => .leaf id
  | .command info args =>
    .command (if selected info.name then { change info with name := info.name } else info) args

end Entry

/-- `ArgumentParser::CheckArgName`. -/
def checkArgName (objects : Nat → Leaf ω) (aliases : Token → Token) (args : List (Entry ω))
    (name : Token) (isCommand : Bool) : Bool :=
  !name.isEmpty && name.all (fun c => c.isAlphanum || c == '_' || c == '-') &&
    args.all fun arg =>
      !(arg.name objects == name || arg.aliasName objects aliases == name) ||
        isCommand && !arg.isCommand

/-- `ArgumentParser::CheckArgFlag`. -/
def checkArgFlag (objects : Nat → Leaf ω) (args : List (Entry ω)) : Option Char → Bool
  | none => true
  | some flag => flag.isAlphanum && args.all fun arg => arg.flag objects != some flag

/-- An implementation of `std::sort` by `GetType()`, with entries of one type in any order. -/
abbrev Sorter (ω : Type) := Sorting.Sorter (@Entry.type ω)

/-! ## Calls -/

/-- What the type of a value and the variable it is bound to contribute. -/
structure Binding (ω : Type) where
  isSequence : Bool := false
  convert : Token → ω → ω × Except Halt Unit

/-- A parser while it is built: the objects in the order of their creation, the aliases of the
commands, and the `m_args` of the root. -/
structure Builder (ω : Type) where
  leaves : List (Leaf ω)
  aliases : Token → Token := fun _ => []
  args : List (Entry ω)

/-- The option that `SetupHelp` adds. -/
def helpOption : Leaf ω where
  type := .option
  name := "help".toList
  flag := some 'h'
  convert := fun _ world => (world, .ok ())
  action := fun world => (world, .error { error := .platform 1 })

/-- The parser that a call goes to. -/
inductive Owner
  | root
  | command (name : Token)

/-- The setters of an argument, an option or a positional. -/
inductive Setter (ω : Type)
  | aliasName (text : Token)
  | required
  | choices (check : ω → Result Unit)
  | action (act : ω → ω × Result Unit)

/-- The setters of a command. -/
inductive CommandSetter (ω : Type)
  | aliasName (text : Token)
  | required
  | action (act : ω → ω × Result Unit)

def Setter.apply (leaf : Leaf ω) : Setter ω → Leaf ω
  | .aliasName text => { leaf with aliasName := text }
  | .required => { leaf with required := true }
  | .choices check => { leaf with checkChoices := check }
  | .action act => { leaf with action := act }

namespace Builder

/-- The objects by identity, which is their place in the order of creation. -/
def objects (builder : Builder ω) (id : Nat) : Leaf ω := builder.leaves.getD id helpOption

/-- The constructor of `ArgumentParser`. -/
def create (noAutoHelp : Bool) : Builder ω :=
  if noAutoHelp then { leaves := [], args := [] }
  else { leaves := [helpOption], args := [.leaf 0] }

/-- The `m_args` of a parser. -/
def argsOf (builder : Builder ω) : Owner → Option (List (Entry ω))
  | .root => some builder.args
  | .command name => builder.args.findSome? fun
      | .leaf _ => none
      | .command info args => if info.name = name then some args else none

section Calls

variable (sorter : Sorter ω)

/-- The private `AddArgument` at the root. -/
def addToRoot (leaf : Leaf ω) (builder : Builder ω) : Builder ω :=
  let entry := Entry.leaf builder.leaves.length
  let grown := { builder with leaves := builder.leaves ++ [leaf] }
  let args := builder.args.map
    (Entry.mapArgs (fun _ => entry.inherited grown.objects)
      fun args => sorter.sort grown.objects (args ++ [entry]))
  { grown with args := sorter.sort grown.objects (args ++ [entry]) }

/-- The private `AddArgument` at the parser of a command, which has no commands itself. -/
def addToCommand (name : Token) (leaf : Leaf ω) (builder : Builder ω) : Builder ω :=
  let entry := Entry.leaf builder.leaves.length
  let grown := { builder with leaves := builder.leaves ++ [leaf] }
  { grown with
    args := builder.args.map
      (Entry.mapArgs (· == name) fun args => sorter.sort grown.objects (args ++ [entry])) }

/-- What the members that add an object share; `none` is a check that fails, or a command that is
not there. -/
def addLeaf (owner : Owner) (leaf : Leaf ω) (builder : Builder ω) : Option (Builder ω) := do
  let args ← builder.argsOf owner
  guard (checkArgName builder.objects builder.aliases args leaf.name false)
  guard (checkArgFlag builder.objects args leaf.flag)
  match owner with
  | .root => return builder.addToRoot sorter leaf
  | .command name => return builder.addToCommand sorter name leaf

def addArgument (owner : Owner) (name : Token) (flag : Option Char) (binding : Binding ω) :
    Builder ω → Option (Builder ω) :=
  addLeaf sorter owner { binding with type := .argument, name, flag }

def addOption (owner : Owner) (name : Token) (flag : Option Char) (binding : Binding ω) :
    Builder ω → Option (Builder ω) :=
  addLeaf sorter owner { binding with type := .option, name, flag }

/-- The constructor of `ArgumentPositional` calls `Required`. -/
def addPositional (owner : Owner) (name : Token) (binding : Binding ω) :
    Builder ω → Option (Builder ω) :=
  addLeaf sorter owner { binding with type := .positional, name, required := true }

def addCommand (name : Token) (helpMenu : Bool) (builder : Builder ω) : Option (Builder ω) := do
  guard (checkArgName builder.objects builder.aliases builder.args name true)
  let help := if helpMenu then [helpOption] else []
  let own := if helpMenu then [Entry.leaf builder.leaves.length] else []
  let grown := { builder with leaves := builder.leaves ++ help }
  let inner := sorter.sort grown.objects
    (own ++ builder.args.filter (Entry.inherited builder.objects))
  return { grown with
    args := sorter.sort grown.objects (builder.args ++ [.command { name } inner]) }

/-- A setter of the object with this identity. -/
def set (id : Nat) (setter : Setter ω) (builder : Builder ω) : Builder ω :=
  { builder with leaves := builder.leaves.modify id setter.apply }

/-- A setter of the command with this name. -/
def setCommand (name : Token) (builder : Builder ω) : CommandSetter ω → Builder ω
  | .aliasName text => { builder with aliases := Function.update builder.aliases name text }
  | .required =>
    let change := Entry.mapInfo (· == name) fun info => { info with required := true }
    { builder with args := builder.args.map change }
  | .action act =>
    let change := Entry.mapInfo (· == name) fun info => { info with action := act }
    { builder with args := builder.args.map change }

end Calls

end Builder

/-- The calls that build a parser. -/
inductive BuildCall (ω : Type)
  | addArgument (owner : Owner) (name : Token) (flag : Option Char) (binding : Binding ω)
  | addOption (owner : Owner) (name : Token) (flag : Option Char) (binding : Binding ω)
  | addPositional (owner : Owner) (name : Token) (binding : Binding ω)
  | addCommand (name : Token) (helpMenu : Bool)
  | set (id : Nat) (setter : Setter ω)
  | setCommand (name : Token) (setter : CommandSetter ω)

namespace Builder

def step (sorter : Sorter ω) (builder : Builder ω) : BuildCall ω → Option (Builder ω)
  | .addArgument owner name flag binding => builder.addArgument sorter owner name flag binding
  | .addOption owner name flag binding => builder.addOption sorter owner name flag binding
  | .addPositional owner name binding => builder.addPositional sorter owner name binding
  | .addCommand name helpMenu => builder.addCommand sorter name helpMenu
  | .set id setter => some (builder.set id setter)
  | .setCommand name setter => some (builder.setCommand name setter)

/-! ## What is built -/

/-- The name of a command. -/
def commandName : Entry ω → Option Token
  | .leaf _ => none
  | .command info _ => some info.name

/-- No two commands of a parser share a name, and the parsers of commands have no commands. -/
structure WellFormed (args : List (Entry ω)) : Prop where
  distinct : (args.filterMap commandName).Nodup
  shallow : ∀ info inner, .command info inner ∈ args → ∀ entry ∈ inner, entry.isCommand = false

variable {args : List (Entry ω)}

theorem mem_names {entry : Entry ω} {name : Token} (member : entry ∈ args)
    (name_eq : commandName entry = some name) : name ∈ args.filterMap commandName :=
  List.mem_filterMap.mpr ⟨entry, member, name_eq⟩

theorem exists_of_mem_names {name : Token} (member : name ∈ args.filterMap commandName) :
    ∃ info inner, .command info inner ∈ args ∧ info.name = name := by
  obtain ⟨entry, entry_mem, entry_eq⟩ := List.mem_filterMap.mp member
  cases entry with
  | leaf id => cases entry_eq
  | command info inner => exact ⟨info, inner, entry_mem, Option.some.inj entry_eq⟩

theorem names_map {change : Entry ω → Entry ω}
    (name_eq : ∀ entry, commandName (change entry) = commandName entry) :
    (args.map change).filterMap commandName = args.filterMap commandName := by
  rw [List.filterMap_map]
  exact List.filterMap_congr fun entry _ => name_eq entry

theorem commandName_mapInfo (selected : Token → Bool) (change : Command ω → Command ω)
    (entry : Entry ω) : commandName (entry.mapInfo selected change) = commandName entry := by
  cases entry with
  | leaf id => rfl
  | command info inner =>
    simp only [Entry.mapInfo, commandName]
    split <;> rfl

theorem commandName_mapArgs (selected : Token → Bool)
    (change : List (Entry ω) → List (Entry ω)) (entry : Entry ω) :
    commandName (entry.mapArgs selected change) = commandName entry := by
  cases entry <;> rfl

theorem exists_of_mem_mapArgs {selected : Token → Bool}
    {change : List (Entry ω) → List (Entry ω)} {info : Command ω} {inner : List (Entry ω)}
    (member : .command info inner ∈ args.map (Entry.mapArgs selected change)) :
    ∃ before, .command info before ∈ args ∧
      (if selected info.name then change before else before) = inner := by
  obtain ⟨entry, entry_mem, entry_eq⟩ := List.mem_map.mp member
  cases entry with
  | leaf id => cases entry_eq
  | command info before =>
    obtain ⟨rfl, changed⟩ := Entry.command.inj entry_eq
    exact ⟨before, entry_mem, changed⟩

theorem exists_of_mem_mapInfo {selected : Token → Bool} {change : Command ω → Command ω}
    {info : Command ω} {inner : List (Entry ω)}
    (member : .command info inner ∈ args.map (Entry.mapInfo selected change)) :
    ∃ before, .command before inner ∈ args ∧ before.name = info.name := by
  obtain ⟨entry, entry_mem, entry_eq⟩ := List.mem_map.mp member
  cases entry with
  | leaf id => cases entry_eq
  | command before below =>
    obtain ⟨rfl, rfl⟩ := Entry.command.inj entry_eq
    refine ⟨before, entry_mem, ?_⟩
    split <;> rfl

namespace WellFormed

variable (formed : WellFormed args)
include formed

theorem perm {other : List (Entry ω)} (same : other.Perm args) : WellFormed other where
  distinct := ((same.filterMap commandName).nodup_iff).mpr formed.distinct
  shallow := fun info inner member => formed.shallow info inner (same.mem_iff.mp member)

theorem concat_leaf (id : Nat) : WellFormed (args ++ [.leaf id]) where
  distinct := by
    have none_added : [Entry.leaf id].filterMap (@commandName ω) = [] := rfl
    rw [List.filterMap_append, none_added, List.append_nil]
    exact formed.distinct
  shallow := by
    intro info inner member
    rcases List.mem_append.mp member with earlier | last
    · exact formed.shallow info inner earlier
    · exact absurd (List.mem_singleton.mp last) (by simp)

theorem map_mapInfo (selected : Token → Bool) (change : Command ω → Command ω) :
    WellFormed (args.map (Entry.mapInfo selected change)) where
  distinct := by
    rw [names_map (commandName_mapInfo selected change)]
    exact formed.distinct
  shallow := by
    intro info inner member
    obtain ⟨before, before_mem, -⟩ := exists_of_mem_mapInfo member
    exact formed.shallow before inner before_mem

theorem map_mapArgs (sorter : Sorter ω) (objects : Nat → Leaf ω) (selected : Token → Bool)
    (id : Nat) :
    WellFormed (args.map (Entry.mapArgs selected
      fun inner => sorter.sort objects (inner ++ [.leaf id]))) where
  distinct := by
    rw [names_map (commandName_mapArgs _ _)]
    exact formed.distinct
  shallow := by
    intro info inner member entry entry_mem
    obtain ⟨before, before_mem, rfl⟩ := exists_of_mem_mapArgs member
    have shallow := formed.shallow info before before_mem entry
    split at entry_mem
    · rcases List.mem_append.mp ((sorter.perm _ _).mem_iff.mp entry_mem) with earlier | last
      · exact shallow earlier
      · rw [List.mem_singleton.mp last]
        rfl
    · exact shallow entry_mem

theorem concat_command {name : Token} {inner : List (Entry ω)}
    (fresh : ∀ info other, .command info other ∈ args → info.name ≠ name)
    (shallow : ∀ entry ∈ inner, entry.isCommand = false) :
    WellFormed (args ++ [.command { name } inner]) where
  distinct := by
    have one_added : [Entry.command { name } inner].filterMap (@commandName ω) = [name] := rfl
    rw [List.filterMap_append, one_added]
    refine List.nodup_append.mpr ⟨formed.distinct, List.nodup_singleton _, ?_⟩
    intro other other_mem last last_mem same
    obtain ⟨info, below, command_mem, rfl⟩ := exists_of_mem_names other_mem
    exact fresh info below command_mem (same.trans (List.mem_singleton.mp last_mem))
  shallow := by
    intro info below member
    rcases List.mem_append.mp member with earlier | last
    · exact formed.shallow info below earlier
    · cases List.mem_singleton.mp last
      exact shallow

end WellFormed

section Steps

variable {sorter : Sorter ω} {builder after : Builder ω}

theorem cases_of_addLeaf {owner : Owner} {leaf : Leaf ω}
    (add_eq : builder.addLeaf sorter owner leaf = some after) :
    (owner = .root ∧ after = builder.addToRoot sorter leaf ∧
        ∀ entry ∈ builder.args, entry.name builder.objects ≠ leaf.name) ∨
      ∃ info inner, owner = .command info.name ∧ .command info inner ∈ builder.args ∧
        after = builder.addToCommand sorter info.name leaf := by
  obtain ⟨args, found, named⟩ := Option.bind_eq_some_iff.mp add_eq
  obtain ⟨_, checked, flagged⟩ := Option.bind_eq_some_iff.mp named
  obtain ⟨-, -, added⟩ := Option.bind_eq_some_iff.mp flagged
  cases owner with
  | root =>
    obtain rfl := Option.some.inj found
    refine .inl ⟨rfl, (Option.some.inj added).symm, fun entry member same => ?_⟩
    have passed := (Option.ite_none_right_eq_some.mp checked).1
    simp only [checkArgName, Bool.and_eq_true, List.all_eq_true] at passed
    have entry_passed := passed.2 entry member
    simp [same] at entry_passed
  | command name =>
    obtain ⟨entry, entry_mem, entry_eq⟩ := List.exists_of_findSome?_eq_some found
    cases entry with
    | leaf id => cases entry_eq
    | command info inner =>
      obtain ⟨rfl, -⟩ := Option.ite_none_right_eq_some.mp entry_eq
      exact .inr ⟨info, inner, rfl, entry_mem, (Option.some.inj added).symm⟩

theorem WellFormed.addLeaf (formed : WellFormed builder.args) {owner : Owner} {leaf : Leaf ω}
    (add_eq : builder.addLeaf sorter owner leaf = some after) : WellFormed after.args := by
  rcases cases_of_addLeaf add_eq with ⟨-, rfl, -⟩ | ⟨info, inner, -, -, rfl⟩
  · exact ((formed.map_mapArgs sorter _ _ _).concat_leaf _).perm (sorter.perm _ _)
  · exact formed.map_mapArgs sorter _ _ _

theorem name_ne_of_checkArgName {objects : Nat → Leaf ω} {aliases : Token → Token} {name : Token}
    (checked : checkArgName objects aliases args name true = true) {info : Command ω}
    {inner : List (Entry ω)} (member : .command info inner ∈ args) : info.name ≠ name := by
  intro same
  simp only [checkArgName, Bool.and_eq_true, List.all_eq_true] at checked
  have passed := checked.2 _ member
  simp [Entry.name, Entry.isCommand, same] at passed

theorem exists_of_addCommand {name : Token} {helpMenu : Bool}
    (add_eq : builder.addCommand sorter name helpMenu = some after) :
    ∃ inner, after.args.Perm (builder.args ++ [.command { name } inner]) ∧
      inner.Perm ((if helpMenu then [.leaf builder.leaves.length] else []) ++
        builder.args.filter (Entry.inherited builder.objects)) ∧
      after.leaves = builder.leaves ++ (if helpMenu then [helpOption] else []) ∧
      ∀ info args, .command info args ∈ builder.args → info.name ≠ name := by
  obtain ⟨_, checked, add_eq⟩ := Option.bind_eq_some_iff.mp add_eq
  obtain rfl := Option.some.inj add_eq
  refine ⟨_, sorter.perm _ _, sorter.perm _ _, rfl, fun info args member => ?_⟩
  exact name_ne_of_checkArgName (Option.ite_none_right_eq_some.mp checked).1 member

theorem WellFormed.addCommand (formed : WellFormed builder.args) {name : Token} {helpMenu : Bool}
    (add_eq : builder.addCommand sorter name helpMenu = some after) : WellFormed after.args := by
  obtain ⟨inner, args_perm, inner_perm, -, fresh⟩ := exists_of_addCommand add_eq
  refine (formed.concat_command fresh fun entry member => ?_).perm args_perm
  rcases List.mem_append.mp (inner_perm.mem_iff.mp member) with own | inherited
  · cases helpMenu with
    | true =>
      rw [List.mem_singleton.mp own]
      rfl
    | false => cases own
  · cases entry with
    | leaf id => rfl
    | command info inner => simp [Entry.inherited] at inherited

theorem WellFormed.step (formed : WellFormed builder.args) {call : BuildCall ω}
    (step_eq : builder.step sorter call = some after) : WellFormed after.args := by
  cases call with
  | addArgument owner name flag binding => exact formed.addLeaf step_eq
  | addOption owner name flag binding => exact formed.addLeaf step_eq
  | addPositional owner name binding => exact formed.addLeaf step_eq
  | addCommand name helpMenu => exact formed.addCommand step_eq
  | set id setter =>
    obtain rfl := Option.some.inj step_eq
    exact formed
  | setCommand name setter =>
    obtain rfl := Option.some.inj step_eq
    cases setter with
    | aliasName text => exact formed
    | required => exact formed.map_mapInfo _ _
    | action act => exact formed.map_mapInfo _ _

end Steps

end Builder

end Fusion.Argparse
