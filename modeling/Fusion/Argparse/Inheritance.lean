import Fusion.Argparse.Parser
import Fusion.Library.Runs
import Fusion.Library.Sorting

/-!
# Which parsers get an argument

A parser shares its arguments and options with its commands: a new command copies those that are
there, and a new argument is pushed to the commands that are there.  The push goes one level down,
so it misses the commands of commands.  Parsers and objects are told apart by the order in which
they were created; the checks of names and flags play no part.
-/

namespace Fusion.Argparse

/-! ## Declarations -/

/-- What sharing looks at in an argument, an option or a positional. -/
structure Declared where
  type : LeafType
  name : Token
  /-- The parser that the object was declared on. -/
  parser : Nat

/-- Arguments and options other than `help` are shared. -/
def Declared.inherited (declared : Declared) : Bool :=
  declared.type ≠ .positional ∧ declared.name ≠ "help".toList

namespace Inheritance

/-- An element of `m_args`. -/
inductive Item
  | leaf (id : Nat)
  | command (parser : Nat)
deriving DecidableEq

namespace Item

/-- The value of `GetType()`. -/
def type (objects : List Declared) : Item → Nat
  | .leaf id =>
    match objects[id]?.map Declared.type with
    | some .option => 2
    | some .positional => 3
    | _ => 0
  | .command _ => 1

def inherited (objects : List Declared) : Item → Bool
  | .leaf id => objects[id]?.elim false Declared.inherited
  | .command _ => false

end Item

/-- An implementation of `std::sort` by `GetType()`, with elements of one type in any order. -/
abbrev ItemSorter := Sorting.Sorter Item.type

/-- The `m_args` of a parser, and its `m_cmds` by their parsers. -/
structure Node where
  args : List Item := []
  commands : List Nat := []

/-- The objects and the parsers in the order of their creation; the first parser is the root. -/
structure Tree where
  objects : List Declared := []
  size : Nat := 1
  node : Nat → Node := fun _ => {}

namespace Tree

variable (sorter : ItemSorter)

/-- Append to the `m_args` of one parser and sort them. -/
def push (item : Item) (tree : Tree) (parser : Nat) : Tree :=
  { tree with
    node := Function.update tree.node parser
      { tree.node parser with
        args := sorter.sort tree.objects ((tree.node parser).args ++ [item]) } }

/-- The private `AddArgument`. -/
def addArgument (parser : Nat) (item : Item) (tree : Tree) : Tree :=
  let shared :=
    if item.inherited tree.objects then (tree.node parser).commands.foldl (push sorter item) tree
    else tree
  shared.push sorter item parser

/-- `AddArgument`, `AddOption` and `AddPositional`. -/
def declare (parser : Nat) (type : LeafType) (name : Token) (tree : Tree) : Tree :=
  addArgument sorter parser (.leaf tree.objects.length)
    { tree with objects := tree.objects ++ [{ type, name, parser }] }

/-- The constructor of `ArgumentParser`, for the parser that is created next. -/
def setupHelp (parser : Nat) (helpMenu : Bool) (tree : Tree) : Tree :=
  if helpMenu then tree.declare sorter parser .option "help".toList else tree

/-- The arguments and options of a parser go into that of its new command. -/
def copyArgs (parser child : Nat) (tree : Tree) : Tree :=
  { tree with
    node := Function.update tree.node child
      { tree.node child with
        args := sorter.sort tree.objects ((tree.node child).args ++
          (tree.node parser).args.filter (Item.inherited tree.objects)) } }

/-- The new command goes into `m_cmds`. -/
def link (parser child : Nat) (tree : Tree) : Tree :=
  { tree with
    node := Function.update tree.node parser
      { tree.node parser with commands := (tree.node parser).commands ++ [child] } }

def addCommand (parser : Nat) (helpMenu : Bool) (tree : Tree) : Tree :=
  let child := tree.size
  let created := setupHelp sorter child helpMenu { tree with size := tree.size + 1 }
  addArgument sorter parser (.command child)
    ((created.copyArgs sorter parser child).link parser child)

def create (noAutoHelp : Bool) : Tree := setupHelp sorter 0 (!noAutoHelp) {}

end Tree

/-- The calls that declare a parser and what is below it. -/
inductive Call
  | declare (parser : Nat) (type : LeafType) (name : Token)
  | addCommand (parser : Nat) (helpMenu : Bool)

def Tree.step (sorter : ItemSorter) (tree : Tree) : Call → Option Tree
  | .declare parser type name =>
    if parser < tree.size then some (tree.declare sorter parser type name) else none
  | .addCommand parser helpMenu =>
    if parser < tree.size then some (tree.addCommand sorter parser helpMenu) else none

/-! ## What is below a parser -/

/-- The second parser is the first one or lies below it. -/
inductive Within (tree : Tree) : Nat → Nat → Prop
  | here {parser} : Within tree parser parser
  | inside {parser child below} (member : child ∈ (tree.node parser).commands)
      (deeper : Within tree child below) : Within tree parser below

/-- Every shared object is once in the parser that it was declared on and in each one below. -/
def Inherits (tree : Tree) : Prop :=
  ∀ id declared, tree.objects[id]? = some declared → declared.inherited = true →
    ∀ parser, Within tree declared.parser parser → (tree.node parser).args.count (.leaf id) = 1

/-- The call declares no shared object above a command of a command. -/
def Call.Reaching (tree : Tree) : Call → Prop
  | .declare parser type name => Declared.inherited { type, name, parser } = true →
      ∀ child ∈ (tree.node parser).commands, (tree.node child).commands = []
  | .addCommand _ _ => True

/-! ## What the calls change -/

variable {name : Token} {helpMenu : Bool} {after : Tree} {call : Call}

namespace Tree

variable {sorter : ItemSorter} {tree : Tree} {parser other : Nat} {item some_item : Item}

@[simp] theorem objects_push : (tree.push sorter item parser).objects = tree.objects := rfl

@[simp] theorem size_push : (tree.push sorter item parser).size = tree.size := rfl

@[simp] theorem commands_push :
    ((tree.push sorter item parser).node other).commands = (tree.node other).commands := by
  rcases eq_or_ne other parser with rfl | elsewhere
  · simp [push]
  · simp [push, elsewhere]

theorem count_push :
    ((tree.push sorter item parser).node other).args.count some_item =
      (tree.node other).args.count some_item +
        if other = parser ∧ some_item = item then 1 else 0 := by
  rcases eq_or_ne other parser with rfl | elsewhere
  · have sorted := (sorter.perm tree.objects ((tree.node other).args ++ [item])).count_eq some_item
    simp only [push, Function.update_self, sorted, List.count_append, true_and]
    by_cases same : some_item = item
    · simp [same]
    · simp [same, Ne.symm same]
  · simp [push, elsewhere]

variable (parsers : List Nat)

theorem objects_foldl_push : (parsers.foldl (push sorter item) tree).objects = tree.objects := by
  induction parsers generalizing tree with
  | nil => rfl
  | cons first parsers ih => rw [List.foldl_cons, ih, objects_push]

theorem size_foldl_push : (parsers.foldl (push sorter item) tree).size = tree.size := by
  induction parsers generalizing tree with
  | nil => rfl
  | cons first parsers ih => rw [List.foldl_cons, ih, size_push]

theorem commands_foldl_push :
    ((parsers.foldl (push sorter item) tree).node other).commands = (tree.node other).commands := by
  induction parsers generalizing tree with
  | nil => rfl
  | cons first parsers ih => rw [List.foldl_cons, ih, commands_push]

theorem count_foldl_push :
    ((parsers.foldl (push sorter item) tree).node other).args.count some_item =
      (tree.node other).args.count some_item +
        if some_item = item then parsers.count other else 0 := by
  induction parsers generalizing tree with
  | nil => simp
  | cons first parsers ih =>
    rw [List.foldl_cons, ih, count_push, List.count_cons, Nat.add_assoc]
    congr 1
    by_cases same : some_item = item
    · rcases eq_or_ne other first with rfl | elsewhere
      · simp [same, Nat.add_comm]
      · simp [same, elsewhere, Ne.symm elsewhere]
    · simp [same]

/-- How often `AddArgument` puts its object into a parser. -/
def pushes (tree : Tree) (parser : Nat) (item : Item) (other : Nat) : Nat :=
  (if item.inherited tree.objects then (tree.node parser).commands.count other else 0) +
    if other = parser then 1 else 0

@[simp] theorem objects_addArgument :
    (tree.addArgument sorter parser item).objects = tree.objects := by
  unfold addArgument
  split
  · rw [objects_push, objects_foldl_push]
  · rw [objects_push]

@[simp] theorem size_addArgument : (tree.addArgument sorter parser item).size = tree.size := by
  unfold addArgument
  split
  · rw [size_push, size_foldl_push]
  · rw [size_push]

@[simp] theorem commands_addArgument :
    ((tree.addArgument sorter parser item).node other).commands = (tree.node other).commands := by
  unfold addArgument
  split
  · rw [commands_push, commands_foldl_push]
  · rw [commands_push]

theorem count_addArgument :
    ((tree.addArgument sorter parser item).node other).args.count some_item =
      (tree.node other).args.count some_item +
        if some_item = item then tree.pushes parser item other else 0 := by
  unfold addArgument pushes
  by_cases same : some_item = item
  · split
    · simp [count_push, count_foldl_push, same, Nat.add_assoc]
    · simp [count_push, same]
  · split
    · simp [count_push, count_foldl_push, same]
    · simp [count_push, same]

@[simp] theorem objects_declare {type : LeafType} :
    (tree.declare sorter parser type name).objects = tree.objects ++ [⟨type, name, parser⟩] :=
  objects_addArgument

@[simp] theorem size_declare {type : LeafType} :
    (tree.declare sorter parser type name).size = tree.size :=
  size_addArgument

@[simp] theorem commands_declare {type : LeafType} :
    ((tree.declare sorter parser type name).node other).commands = (tree.node other).commands :=
  commands_addArgument

theorem count_declare {type : LeafType} :
    ((tree.declare sorter parser type name).node other).args.count some_item =
      (tree.node other).args.count some_item +
        if some_item = .leaf tree.objects.length then
          (if Declared.inherited { type, name, parser } then
            (tree.node parser).commands.count other else 0) + if other = parser then 1 else 0
        else 0 := by
  have shared : (Item.leaf tree.objects.length).inherited
      (tree.objects ++ [⟨type, name, parser⟩]) = Declared.inherited ⟨type, name, parser⟩ := by
    simp [Item.inherited]
  rw [declare, count_addArgument, pushes, shared]

/-- What `SetupHelp` declares. -/
def helpOf (parser : Nat) (helpMenu : Bool) : List Declared :=
  if helpMenu then [{ type := .option, name := "help".toList, parser }] else []

theorem objects_setupHelp :
    (tree.setupHelp sorter parser helpMenu).objects = tree.objects ++ helpOf parser helpMenu := by
  cases helpMenu with
  | false => exact (List.append_nil _).symm
  | true => exact objects_declare

theorem of_mem_helpOf {declared : Declared} (member : declared ∈ helpOf parser helpMenu) :
    declared.inherited = false ∧ declared.parser = parser := by
  cases helpMenu with
  | false => cases member
  | true =>
    rw [List.mem_singleton.mp member]
    simp [Declared.inherited]

theorem inherited_append_helpOf {id : Nat} :
    (Item.leaf id).inherited (tree.objects ++ helpOf parser helpMenu) =
      (Item.leaf id).inherited tree.objects := by
  dsimp only [Item.inherited]
  rw [List.getElem?_append]
  split
  · rfl
  · rename_i beyond
    rw [List.getElem?_eq_none (Nat.le_of_not_lt beyond)]
    cases found : (helpOf parser helpMenu)[id - tree.objects.length]? with
    | none => rfl
    | some declared => exact (of_mem_helpOf (List.mem_of_getElem? found)).1

@[simp] theorem size_setupHelp : (tree.setupHelp sorter parser helpMenu).size = tree.size := by
  cases helpMenu with
  | false => rfl
  | true => exact size_declare

@[simp] theorem commands_setupHelp :
    ((tree.setupHelp sorter parser helpMenu).node other).commands = (tree.node other).commands := by
  cases helpMenu with
  | false => rfl
  | true => exact commands_declare

theorem count_setupHelp {helpMenu : Bool} {id : Nat} :
    ((tree.setupHelp sorter parser helpMenu).node other).args.count (.leaf id) =
      (tree.node other).args.count (.leaf id) +
        if other = parser ∧ helpMenu = true ∧ id = tree.objects.length then 1 else 0 := by
  cases helpMenu with
  | false => simp [setupHelp]
  | true =>
    change ((tree.declare sorter parser .option "help".toList).node other).args.count _ = _
    rw [count_declare]
    by_cases new : id = tree.objects.length
    · simp [new, Declared.inherited]
    · simp [new]

variable {child : Nat}

@[simp] theorem commands_copyArgs :
    ((tree.copyArgs sorter parser child).node other).commands = (tree.node other).commands := by
  rcases eq_or_ne other child with rfl | elsewhere
  · simp [copyArgs]
  · simp [copyArgs, elsewhere]

theorem count_copyArgs :
    ((tree.copyArgs sorter parser child).node other).args.count some_item =
      (tree.node other).args.count some_item +
        if other = child ∧ some_item.inherited tree.objects then
          (tree.node parser).args.count some_item
        else 0 := by
  rcases eq_or_ne other child with rfl | elsewhere
  · have sorted := (sorter.perm tree.objects ((tree.node other).args ++
      (tree.node parser).args.filter (Item.inherited tree.objects))).count_eq some_item
    simp only [copyArgs, Function.update_self, sorted, List.count_append, true_and]
    by_cases shared : some_item.inherited tree.objects = true
    · rw [if_pos shared, List.count_filter shared]
    · have uncopied : some_item ∉ (tree.node parser).args.filter (Item.inherited tree.objects) :=
        fun copied => shared (List.mem_filter.mp copied).2
      rw [if_neg shared, List.count_eq_zero_of_not_mem uncopied]
  · simp [copyArgs, elsewhere]

theorem args_link : ((tree.link parser child).node other).args = (tree.node other).args := by
  rcases eq_or_ne other parser with rfl | elsewhere
  · simp [link]
  · simp [link, elsewhere]

theorem commands_link :
    ((tree.link parser child).node other).commands =
      if other = parser then (tree.node parser).commands ++ [child]
      else (tree.node other).commands := by
  rcases eq_or_ne other parser with rfl | elsewhere
  · simp [link]
  · simp [link, elsewhere]

theorem objects_addCommand :
    (tree.addCommand sorter parser helpMenu).objects = tree.objects ++ helpOf tree.size helpMenu :=
  objects_addArgument.trans objects_setupHelp

@[simp] theorem size_addCommand : (tree.addCommand sorter parser helpMenu).size = tree.size + 1 :=
  size_addArgument.trans size_setupHelp

theorem commands_addCommand :
    ((tree.addCommand sorter parser helpMenu).node other).commands =
      if other = parser then (tree.node parser).commands ++ [tree.size]
      else (tree.node other).commands := by
  simp only [addCommand, commands_addArgument, commands_link, commands_copyArgs, commands_setupHelp]

theorem mem_commands_addCommand :
    child ∈ ((tree.addCommand sorter parser helpMenu).node other).commands ↔
      child ∈ (tree.node other).commands ∨ other = parser ∧ child = tree.size := by
  rw [commands_addCommand]
  rcases eq_or_ne other parser with rfl | elsewhere
  · simp
  · simp [elsewhere]

theorem count_addCommand (unused : tree.node tree.size = {}) {id : Nat} :
    ((tree.addCommand sorter parser helpMenu).node other).args.count (.leaf id) =
      if other = tree.size then
        (if helpMenu = true ∧ id = tree.objects.length then 1 else 0) +
          if (Item.leaf id).inherited tree.objects then (tree.node parser).args.count (.leaf id)
          else 0
      else (tree.node other).args.count (.leaf id) := by
  let grown := { tree with size := tree.size + 1 }
  let created := setupHelp sorter tree.size helpMenu grown
  have same_object : (Item.leaf id).inherited created.objects =
      (Item.leaf id).inherited tree.objects :=
    (congrArg (Item.leaf id).inherited objects_setupHelp).trans inherited_append_helpOf
  have help_count : ∀ place, (created.node place).args.count (.leaf id) =
      (tree.node place).args.count (.leaf id) +
        if place = tree.size ∧ helpMenu = true ∧ id = tree.objects.length then 1 else 0 :=
    fun place => @count_setupHelp sorter grown tree.size place helpMenu id
  refine count_addArgument.trans ?_
  rw [if_neg (by simp), Nat.add_zero, args_link, count_copyArgs, same_object, help_count,
    help_count]
  rcases eq_or_ne other tree.size with rfl | elsewhere
  · by_cases new : id = tree.objects.length
    · simp [unused, new, Item.inherited]
    · simp [unused, new]
  · simp [elsewhere]

/-! ## The shape of the tree -/

/-- Only objects that were declared are in some `m_args`. -/
def Known (tree : Tree) : Prop :=
  ∀ parser id, .leaf id ∈ (tree.node parser).args → id < tree.objects.length

theorem Known.push (known : tree.Known)
    (declared : ∀ id, item = .leaf id → id < tree.objects.length) :
    (tree.push sorter item parser).Known := by
  intro other id member
  rcases eq_or_ne other parser with rfl | elsewhere
  · simp only [Tree.push, Function.update_self, (sorter.perm _ _).mem_iff, List.mem_append,
      List.mem_singleton] at member
    rcases member with old | rfl
    · exact known other id old
    · exact declared id rfl
  · simp only [Tree.push, Function.update_of_ne elsewhere] at member
    exact known other id member

theorem Known.addArgument (known : tree.Known)
    (declared : ∀ id, item = .leaf id → id < tree.objects.length) :
    (tree.addArgument sorter parser item).Known := by
  have pushed : ∀ parsers : List Nat, (parsers.foldl (Tree.push sorter item) tree).Known := by
    intro parsers
    induction parsers using List.reverseRecOn with
    | nil => exact known
    | append_singleton parsers last ih =>
      rw [List.foldl_concat]
      refine ih.push fun id same => ?_
      rw [objects_foldl_push]
      exact declared id same
  unfold Tree.addArgument
  split
  · refine (pushed _).push fun id same => ?_
    rw [objects_foldl_push]
    exact declared id same
  · exact known.push declared

theorem Known.declare {type : LeafType} (known : tree.Known) :
    (tree.declare sorter parser type name).Known := by
  refine Known.addArgument (fun other id member => ?_) ?_
  · exact (known other id member).trans (by simp)
  · rintro id ⟨⟩
    simp

theorem Known.copyArgs (known : tree.Known) : (tree.copyArgs sorter parser child).Known := by
  intro other id member
  rcases eq_or_ne other child with rfl | elsewhere
  · simp only [Tree.copyArgs, Function.update_self, (sorter.perm _ _).mem_iff, List.mem_append,
      List.mem_filter] at member
    rcases member with own | ⟨copied, -⟩
    · exact known other id own
    · exact known parser id copied
  · simp only [Tree.copyArgs, Function.update_of_ne elsewhere] at member
    exact known other id member

theorem Known.addCommand (known : tree.Known) : (tree.addCommand sorter parser helpMenu).Known := by
  have created : (setupHelp sorter tree.size helpMenu
      { tree with size := tree.size + 1 }).Known := by
    cases helpMenu with
    | false => exact known
    | true => exact Known.declare known
  refine Known.addArgument (fun other id member => ?_) (by simp)
  rw [args_link] at member
  exact created.copyArgs other id member

theorem node_push_of_ne (elsewhere : other ≠ parser) :
    (tree.push sorter item parser).node other = tree.node other :=
  Function.update_of_ne elsewhere _ _

theorem node_addArgument_of_ne (elsewhere : other ≠ parser)
    (apart : other ∉ (tree.node parser).commands) :
    (tree.addArgument sorter parser item).node other = tree.node other := by
  have pushed : ∀ parsers : List Nat, other ∉ parsers →
      (parsers.foldl (push sorter item) tree).node other = tree.node other := by
    intro parsers outside
    induction parsers using List.reverseRecOn with
    | nil => rfl
    | append_singleton parsers last ih =>
      rw [List.mem_append, List.mem_singleton, not_or] at outside
      rw [List.foldl_concat, node_push_of_ne outside.2, ih outside.1]
  unfold addArgument
  split
  · rw [node_push_of_ne elsewhere, pushed _ apart]
  · rw [node_push_of_ne elsewhere]

theorem node_addCommand_of_ne (unused : tree.node tree.size = {}) (beyond : other ≠ tree.size)
    (elsewhere : other ≠ parser) (apart : other ∉ (tree.node parser).commands) :
    (tree.addCommand sorter parser helpMenu).node other = tree.node other := by
  let created := setupHelp sorter tree.size helpMenu { tree with size := tree.size + 1 }
  have created_node : created.node other = tree.node other := by
    cases helpMenu with
    | false => rfl
    | true => exact node_addArgument_of_ne beyond (by simp [unused])
  have linked : other ∉ (((created.copyArgs sorter parser tree.size).link parser
      tree.size).node parser).commands := by
    rw [commands_link, if_pos rfl, commands_copyArgs, commands_setupHelp]
    simp [apart, beyond]
  refine (node_addArgument_of_ne elsewhere linked).trans ?_
  calc
    (((created.copyArgs sorter parser tree.size).link parser tree.size).node other)
        = (created.copyArgs sorter parser tree.size).node other :=
      Function.update_of_ne elsewhere _ _
    _ = created.node other := Function.update_of_ne beyond _ _
    _ = tree.node other := created_node

/-- The shape that the calls keep. -/
structure Formed (tree : Tree) : Prop where
  known : tree.Known
  /-- A parser that does not exist has nothing. -/
  unused : ∀ parser, tree.size ≤ parser → tree.node parser = {}
  /-- A command is younger than its parent. -/
  younger : ∀ parser, ∀ child ∈ (tree.node parser).commands, parser < child ∧ child < tree.size
  nodup : ∀ parser, (tree.node parser).commands.Nodup
  /-- A command has one parent. -/
  parent : ∀ left right child, child ∈ (tree.node left).commands →
    child ∈ (tree.node right).commands → left = right
  owned : ∀ declared ∈ tree.objects, declared.parser < tree.size

theorem Formed.declare {type : LeafType} (formed : tree.Formed) (inside : parser < tree.size) :
    (tree.declare sorter parser type name).Formed := by
  refine
    { known := formed.known.declare
      unused := ?_
      younger := ?_
      nodup := ?_
      parent := ?_
      owned := ?_ }
  · intro other beyond
    rw [size_declare] at beyond
    refine (node_addArgument_of_ne (by omega) fun member => ?_).trans (formed.unused other beyond)
    have := formed.younger parser other member
    omega
  · intro place
    rw [commands_declare, size_declare]
    exact formed.younger place
  · intro place
    rw [commands_declare]
    exact formed.nodup place
  · intro left right child
    rw [commands_declare, commands_declare]
    exact formed.parent left right child
  · intro declared member
    rw [objects_declare, List.mem_append, List.mem_singleton] at member
    rw [size_declare]
    rcases member with old | rfl
    · exact formed.owned declared old
    · exact inside

theorem Formed.addCommand (formed : tree.Formed) (inside : parser < tree.size) :
    (tree.addCommand sorter parser helpMenu).Formed := by
  have unused := formed.unused tree.size (Nat.le_refl _)
  refine
    { known := formed.known.addCommand
      unused := ?_
      younger := ?_
      nodup := ?_
      parent := ?_
      owned := ?_ }
  · intro other beyond
    rw [size_addCommand] at beyond
    refine (node_addCommand_of_ne unused (by omega) (by omega) fun member => ?_).trans
      (formed.unused other (by omega))
    have := formed.younger parser other member
    omega
  · intro place child member
    rw [size_addCommand]
    rcases mem_commands_addCommand.mp member with old | ⟨rfl, rfl⟩
    · have := formed.younger place child old
      omega
    · omega
  · intro place
    rw [commands_addCommand]
    split
    · refine List.Nodup.append (formed.nodup parser) (List.nodup_singleton _) ?_
      intro child old new
      have := formed.younger parser child old
      have := List.mem_singleton.mp new
      omega
    · exact formed.nodup place
  · intro left right child in_left in_right
    rcases mem_commands_addCommand.mp in_left with old_left | ⟨rfl, rfl⟩
    · rcases mem_commands_addCommand.mp in_right with old_right | ⟨rfl, rfl⟩
      · exact formed.parent left right child old_left old_right
      · have := formed.younger left _ old_left
        omega
    · rcases mem_commands_addCommand.mp in_right with old_right | ⟨rfl, -⟩
      · have := formed.younger right _ old_right
        omega
      · rfl
  · intro declared member
    rw [objects_addCommand, List.mem_append] at member
    rw [size_addCommand]
    rcases member with old | new
    · have := formed.owned declared old
      omega
    · have := (of_mem_helpOf new).2
      omega

theorem formed_create (noAutoHelp : Bool) : (create sorter noAutoHelp).Formed := by
  have bare : Formed {} :=
    { known := by intro parser id member; simp at member
      unused := fun _ _ => rfl
      younger := by simp
      nodup := by simp
      parent := by simp
      owned := by simp }
  cases noAutoHelp with
  | true => exact bare
  | false => exact bare.declare Nat.zero_lt_one

theorem step_cases (step_eq : tree.step sorter call = some after) :
    (∃ parser type name, call = .declare parser type name ∧ parser < tree.size ∧
        after = tree.declare sorter parser type name) ∨
      ∃ parser helpMenu, call = .addCommand parser helpMenu ∧ parser < tree.size ∧
        after = tree.addCommand sorter parser helpMenu := by
  cases call with
  | declare parser type name =>
    obtain ⟨inside, same⟩ := Option.ite_none_right_eq_some.mp step_eq
    exact .inl ⟨parser, type, name, rfl, inside, (Option.some.inj same).symm⟩
  | addCommand parser helpMenu =>
    obtain ⟨inside, same⟩ := Option.ite_none_right_eq_some.mp step_eq
    exact .inr ⟨parser, helpMenu, rfl, inside, (Option.some.inj same).symm⟩

theorem Formed.step (formed : tree.Formed) (step_eq : tree.step sorter call = some after) :
    after.Formed := by
  obtain ⟨parser, type, name, rfl, inside, rfl⟩ | ⟨parser, helpMenu, rfl, inside, rfl⟩ :=
    step_cases step_eq
  · exact formed.declare inside
  · exact formed.addCommand inside

end Tree

/-! ## Sharing -/

section Sharing

variable {sorter : ItemSorter} {tree other : Tree} {parser below : Nat}

theorem Within.mono (kept : ∀ parser, ∀ child ∈ (tree.node parser).commands,
    child ∈ (other.node parser).commands) (within : Within tree parser below) :
    Within other parser below := by
  induction within with
  | here => exact .here
  | inside member _ ih => exact .inside (kept _ _ member) ih

section

variable (formed : tree.Formed)
include formed

theorem Within.lt_size (inside : parser < tree.size) (within : Within tree parser below) :
    below < tree.size := by
  induction within with
  | here => exact inside
  | inside member _ ih => exact ih (formed.younger _ _ member).2

theorem Within.of_addCommand {owner : Nat}
    (within : Within (tree.addCommand sorter owner helpMenu) parser below) :
    Within tree parser below ∨ below = tree.size ∧ Within tree parser owner := by
  have unused := formed.unused tree.size (Nat.le_refl _)
  induction within with
  | here => exact .inl .here
  | inside member _ ih =>
    rcases Tree.mem_commands_addCommand.mp member with old | ⟨rfl, rfl⟩
    · rcases ih with before | ⟨last, before⟩
      · exact .inl (.inside old before)
      · exact .inr ⟨last, .inside old before⟩
    · rcases ih with before | ⟨last, -⟩
      · cases before with
        | here => exact .inr ⟨rfl, .here⟩
        | inside member _ => simp [unused] at member
      · exact .inr ⟨last, .here⟩

theorem inherits_addCommand_iff :
    Inherits (tree.addCommand sorter parser helpMenu) ↔ Inherits tree := by
  have unused := formed.unused tree.size (Nat.le_refl _)
  constructor
  · intro holds id declared found shared below within
    have old : id < tree.objects.length := (List.getElem?_eq_some_iff.mp found).1
    have bounded : below < tree.size :=
      within.lt_size formed (formed.owned declared (List.mem_of_getElem? found))
    have later : Within (tree.addCommand sorter parser helpMenu) declared.parser below :=
      within.mono fun _ _ member => Tree.mem_commands_addCommand.mpr (.inl member)
    have once := holds id declared
      (by rw [Tree.objects_addCommand, List.getElem?_append_left old, found]) shared below later
    rwa [Tree.count_addCommand unused, if_neg (by omega)] at once
  · intro holds id declared found shared below within
    rw [Tree.objects_addCommand, List.getElem?_append] at found
    split at found
    · rename_i old
      have item_shared : (Item.leaf id).inherited tree.objects = true := by
        simp [Item.inherited, found, shared]
      have unhelpful : ¬(helpMenu = true ∧ id = tree.objects.length) := fun new => old.ne new.2
      rw [Tree.count_addCommand unused, item_shared, if_pos rfl, if_neg unhelpful, Nat.zero_add]
      rcases within.of_addCommand formed with before | ⟨rfl, before⟩
      · have bounded : below < tree.size :=
          before.lt_size formed (formed.owned declared (List.mem_of_getElem? found))
        rw [if_neg (by omega)]
        exact holds id declared found shared below before
      · rw [if_pos rfl]
        exact holds id declared found shared parser before
    · have := (Tree.of_mem_helpOf (List.mem_of_getElem? found)).1
      simp [shared] at this

theorem count_declare_new {type : LeafType}
    (shared : Declared.inherited { type, name, parser } = true) :
    ((tree.declare sorter parser type name).node below).args.count (.leaf tree.objects.length) =
      (tree.node parser).commands.count below + if below = parser then 1 else 0 := by
  have undeclared : .leaf tree.objects.length ∉ (tree.node below).args := fun member =>
    Nat.lt_irrefl _ (formed.known below _ member)
  rw [Tree.count_declare, List.count_eq_zero_of_not_mem undeclared, if_pos rfl, if_pos shared,
    Nat.zero_add]

/-- A shared object reaches the commands of its parser, and no command of those. -/
theorem inherits_declare_iff {type : LeafType} :
    Inherits (tree.declare sorter parser type name) ↔
      Inherits tree ∧ (Call.declare parser type name).Reaching tree := by
  have old_count : ∀ place, ∀ id < tree.objects.length,
      ((tree.declare sorter parser type name).node place).args.count (.leaf id) =
        (tree.node place).args.count (.leaf id) := by
    intro place id old
    rw [Tree.count_declare, if_neg (by simp [old.ne]), Nat.add_zero]
  have within_iff : ∀ owner below, Within (tree.declare sorter parser type name) owner below ↔
      Within tree owner below := fun owner below =>
    ⟨.mono fun _ _ member => by rwa [Tree.commands_declare] at member,
      .mono fun _ _ member => by rwa [Tree.commands_declare]⟩
  constructor
  · refine fun holds => ⟨?_, ?_⟩
    · intro id declared found shared below within
      have old : id < tree.objects.length := (List.getElem?_eq_some_iff.mp found).1
      rw [← old_count below id old]
      exact holds id declared (by rw [Tree.objects_declare, List.getElem?_append_left old, found])
        shared below ((within_iff _ _).mpr within)
    · intro shared child member
      refine List.eq_nil_iff_forall_not_mem.mpr fun grandchild deeper => ?_
      -- The object is neither declared on the grandchild nor pushed to it.
      have once := holds tree.objects.length ⟨type, name, parser⟩ (by simp) shared
        grandchild ((within_iff _ _).mpr (.inside member (.inside deeper .here)))
      have child_younger := formed.younger parser child member
      have grandchild_younger := formed.younger child grandchild deeper
      have unpushed : grandchild ∉ (tree.node parser).commands := fun pushed => by
        have := formed.parent child parser grandchild deeper pushed
        omega
      rw [count_declare_new formed shared, List.count_eq_zero_of_not_mem unpushed,
        if_neg (by omega)] at once
      exact Nat.zero_ne_one once
  · rintro ⟨holds, reaching⟩ id declared found shared below within
    rw [within_iff] at within
    rw [Tree.objects_declare, List.getElem?_append] at found
    split at found
    · rename_i old
      rw [old_count below id old]
      exact holds id declared found shared below within
    · obtain ⟨rfl, rfl⟩ : id = tree.objects.length ∧ declared = ⟨type, name, parser⟩ := by
        obtain ⟨bound, rfl⟩ := List.getElem?_eq_some_iff.mp found
        simp only [List.length_singleton] at bound
        exact ⟨by omega, by simp⟩
      rw [count_declare_new formed shared]
      cases within with
      | here =>
        have apart : parser ∉ (tree.node parser).commands := fun member =>
          Nat.lt_irrefl _ (formed.younger parser parser member).1
        rw [List.count_eq_zero_of_not_mem apart, if_pos rfl]
      | @inside _ child _ member deeper =>
        have childless := reaching shared child member
        cases deeper with
        | here =>
          have := formed.younger parser below member
          rw [List.count_eq_one_of_mem (formed.nodup parser) member, if_neg (by omega)]
        | inside further _ => simp [childless] at further

theorem inherits_step_iff (step_eq : tree.step sorter call = some after) :
    Inherits after ↔ Inherits tree ∧ call.Reaching tree := by
  obtain ⟨parser, type, name, rfl, -, rfl⟩ | ⟨parser, helpMenu, rfl, -, rfl⟩ :=
    Tree.step_cases step_eq
  · exact inherits_declare_iff formed
  · rw [inherits_addCommand_iff formed, Call.Reaching, and_true]

end

theorem inherits_create (noAutoHelp : Bool) : Inherits (Tree.create sorter noAutoHelp) := by
  intro id declared found shared
  rw [Tree.create, Tree.objects_setupHelp, List.nil_append] at found
  have := (Tree.of_mem_helpOf (List.mem_of_getElem? found)).1
  simp [shared] at this

/-- Only the root has commands. -/
def Flat (tree : Tree) : Prop := ∀ parser, parser ≠ 0 → (tree.node parser).commands = []

variable {calls : List Call} {noAutoHelp : Bool}

theorem flat_of_run
    (shallow : ∀ parser helpMenu, Call.addCommand parser helpMenu ∈ calls → parser = 0)
    (built : Runs.run (Tree.step sorter) (Tree.create sorter noAutoHelp) calls = some tree) :
    Flat tree := by
  induction calls using List.reverseRecOn generalizing tree with
  | nil =>
    obtain rfl := Option.some.inj built
    intro parser _
    exact Tree.commands_setupHelp
  | append_singleton front call ih =>
    obtain ⟨before, earlier, step_eq⟩ := Runs.run_concat_eq_some.mp built
    have flat : Flat before :=
      ih (fun parser helpMenu member => shallow parser helpMenu (by simp [member])) earlier
    intro parser nested
    obtain ⟨owner, type, name, rfl, -, rfl⟩ | ⟨owner, helpMenu, rfl, -, rfl⟩ :=
      Tree.step_cases step_eq
    · rw [Tree.commands_declare]
      exact flat parser nested
    · obtain rfl := shallow owner helpMenu (by simp)
      rw [Tree.commands_addCommand, if_neg nested]
      exact flat parser nested

theorem inherits_iff_everyStep
    (built : Runs.run (Tree.step sorter) (Tree.create sorter noAutoHelp) calls = some tree) :
    Inherits tree ↔ Runs.EveryStep (Tree.step sorter) (Tree.create sorter noAutoHelp)
      (fun _ before call _ => call.Reaching before) calls :=
  Runs.holds_iff_everyStep (inherits_create noAutoHelp) (Tree.formed_create noAutoHelp)
    (fun _ _ _ => Tree.Formed.step) (fun _ _ _ => inherits_step_iff) built

theorem inherits_of_run
    (shallow : ∀ parser helpMenu, Call.addCommand parser helpMenu ∈ calls → parser = 0)
    (built : Runs.run (Tree.step sorter) (Tree.create sorter noAutoHelp) calls = some tree) :
    Inherits tree := by
  refine (inherits_iff_everyStep built).mpr ?_
  rintro front call back before after rfl earlier -
  have flat : Flat before :=
    flat_of_run (fun parser helpMenu member => shallow parser helpMenu (by simp [member])) earlier
  have formed : before.Formed :=
    Runs.Reachable.invariant (Tree.formed_create noAutoHelp) (fun _ _ _ => Tree.Formed.step)
      ⟨front, earlier⟩
  cases call with
  | declare parser type name =>
    intro _ child member
    have := formed.younger parser child member
    exact flat child (by omega)
  | addCommand parser helpMenu => trivial

/-- Every argument and option other than `help` is once in each parser at and below its own exactly
when none was added above a command of a command.  That is so if only the root has commands, which
is all that `ArgumentCommand` allows. -/
theorem inherits_iff_reaching (noAutoHelp : Bool) (calls : List Call)
    (built : Runs.run (Tree.step sorter) (Tree.create sorter noAutoHelp) calls = some tree) :
    (Inherits tree ↔ Runs.EveryStep (Tree.step sorter) (Tree.create sorter noAutoHelp)
        (fun _ before call _ => call.Reaching before) calls) ∧
      ((∀ parser helpMenu, Call.addCommand parser helpMenu ∈ calls → parser = 0) → Inherits tree) :=
  ⟨inherits_iff_everyStep built, fun shallow => inherits_of_run shallow built⟩

end Sharing

def insertionItemSorter : ItemSorter := Sorting.insertion _

/-- An option `x` of the root, declared between two commands. -/
def optionBetween : List Call :=
  [.addCommand 0 true, .declare 0 .option ['x'], .addCommand 0 true]

theorem inherits_iff_reaching_optionBetween :
    ∃ tree, Runs.run (Tree.step insertionItemSorter) (Tree.create insertionItemSorter false)
        optionBetween = some tree ∧ Inherits tree :=
  ⟨_, rfl, (inherits_iff_reaching false optionBetween rfl).2 (by simp [optionBetween])⟩

end Inheritance

end Fusion.Argparse
