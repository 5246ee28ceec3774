import Fusion.Argparse.Builder
import Fusion.Argparse.Inheritance

/-!
# Sharing while a parser is built

The parsers of a builder hold their objects as those of a tree do on which the same calls are made,
under a numbering of the commands.  So what is shared on the tree is shared by the builder.
-/

namespace Fusion.Argparse

variable {ω : Type}

/-- The entry is the object with this identity. -/
def Entry.isLeaf (id : Nat) : Entry ω → Bool
  | .leaf other => other == id
  | .command _ _ => false

namespace Builder

open Inheritance

/-! ## One parser -/

/-- A parser of the tree holds the objects of the given `m_args`, each as often. -/
def Holds (tree : Tree) (parser : Nat) (args : List (Entry ω)) : Prop :=
  ∀ id, (tree.node parser).args.count (.leaf id) = args.countP (Entry.isLeaf id)

section Holds

variable {itemSorter : ItemSorter} {tree : Tree} {parser owner : Nat} {args : List (Entry ω)}

theorem Holds.perm {other : List (Entry ω)} (holds : Holds tree parser args)
    (same : other.Perm args) : Holds tree parser other := by
  intro id
  rw [same.countP_eq]
  exact holds id

theorem Holds.map {change : Entry ω → Entry ω}
    (kept : ∀ id entry, (change entry).isLeaf id = entry.isLeaf id)
    (holds : Holds tree parser args) : Holds tree parser (args.map change) := by
  intro id
  have same : Entry.isLeaf id ∘ change = Entry.isLeaf id := funext (kept id)
  rw [List.countP_map, same]
  exact holds id

theorem isLeaf_mapArgs (selected : Token → Bool) (change : List (Entry ω) → List (Entry ω))
    (id : Nat) (entry : Entry ω) : (entry.mapArgs selected change).isLeaf id = entry.isLeaf id := by
  cases entry <;> rfl

theorem isLeaf_mapInfo (selected : Token → Bool) (change : Command ω → Command ω)
    (id : Nat) (entry : Entry ω) : (entry.mapInfo selected change).isLeaf id = entry.isLeaf id := by
  cases entry <;> rfl

theorem Holds.declare {type : LeafType} {name : Token} (holds : Holds tree parser args)
    (once : (if Declared.inherited { type, name, parser := owner } then
      (tree.node owner).commands.count parser else 0) + (if parser = owner then 1 else 0) = 1) :
    Holds (tree.declare itemSorter owner type name) parser
      (args ++ [.leaf tree.objects.length]) := by
  intro id
  rw [Tree.count_declare, once, List.countP_append, ← holds id]
  by_cases new : id = tree.objects.length
  · simp [new, Entry.isLeaf]
  · simp [new, Ne.symm new, Entry.isLeaf]

theorem Holds.declare_elsewhere {type : LeafType} {name : Token} (holds : Holds tree parser args)
    (never : (if Declared.inherited { type, name, parser := owner } then
      (tree.node owner).commands.count parser else 0) = 0) (elsewhere : parser ≠ owner) :
    Holds (tree.declare itemSorter owner type name) parser args := by
  intro id
  rw [Tree.count_declare, never, if_neg elsewhere, ite_self]
  exact holds id

theorem countP_inherited (objects : Nat → Leaf ω) (id : Nat) :
    (args.filter (Entry.inherited objects)).countP (Entry.isLeaf id) =
      if (Entry.leaf id).inherited objects then args.countP (Entry.isLeaf id) else 0 := by
  have leaf_of : ∀ entry : Entry ω, entry.isLeaf id = true → entry = .leaf id := by
    intro entry is_leaf
    cases entry with
    | leaf other => rw [beq_iff_eq.mp is_leaf]
    | command info inner => cases is_leaf
  rw [List.countP_filter]
  split
  · rename_i shared
    refine List.countP_congr fun entry _ => ?_
    rw [Bool.and_eq_true, and_iff_left_iff_imp]
    intro is_leaf
    rwa [leaf_of entry is_leaf]
  · rename_i unshared
    refine List.countP_eq_zero.mpr fun entry _ both => unshared ?_
    rw [Bool.and_eq_true] at both
    rw [← leaf_of entry both.1]
    exact both.2

end Holds

/-! ## All parsers -/

/-- The tree has the objects of the builder, those of a command in the parser with its number. -/
structure Shares (builder : Builder ω) (tree : Tree) (number : Token → Nat) : Prop where
  objects : (tree.objects.map fun declared => (declared.type, declared.name)) =
    builder.leaves.map fun leaf => (leaf.type, leaf.name)
  rooted : 0 < tree.size
  numbered : ((builder.args.filterMap commandName).map number).Perm (tree.node 0).commands
  /-- Each object was declared on the root or on a command. -/
  owned : ∀ declared ∈ tree.objects, declared.parser = 0 ∨ declared.parser ∈ (tree.node 0).commands
  root : Holds tree 0 builder.args
  command : ∀ info args, .command info args ∈ builder.args → Holds tree (number info.name) args

section Shares

variable {itemSorter : ItemSorter} {sorter : Sorter ω} {builder after : Builder ω} {tree : Tree}
  {number : Token → Nat}

theorem inherited_new (leaf : Leaf ω) (parser : Nat) :
    (Entry.leaf builder.leaves.length).inherited
        { builder with leaves := builder.leaves ++ [leaf] }.objects =
      Declared.inherited { type := leaf.type, name := leaf.name, parser } := by
  simp [Entry.inherited, Builder.objects, Declared.inherited]

namespace Shares

variable {name : Token} (shares : Shares builder tree number)
include shares

theorem length_eq : tree.objects.length = builder.leaves.length := by
  have lengths := congrArg List.length shares.objects
  rwa [List.length_map, List.length_map] at lengths

theorem inherited_eq (id : Nat) :
    (Item.leaf id).inherited tree.objects = (Entry.leaf id).inherited builder.objects := by
  have same := congrArg (·[id]?) shares.objects
  simp only [List.getElem?_map] at same
  simp only [Item.inherited, Entry.inherited, Builder.objects, List.getD_eq_getElem?_getD]
  cases declared_eq : tree.objects[id]? with
  | none =>
    have leaf_eq : builder.leaves[id]? = none := by simpa [declared_eq] using same
    simp [leaf_eq, helpOption]
  | some declared =>
    obtain ⟨leaf, leaf_eq, type_eq, name_eq⟩ : ∃ leaf, builder.leaves[id]? = some leaf ∧
        leaf.type = declared.type ∧ leaf.name = declared.name := by
      simpa [declared_eq, eq_comm] using same
    simp [leaf_eq, Declared.inherited, type_eq, name_eq]

theorem mem_commands {info : Command ω} {args : List (Entry ω)}
    (member : .command info args ∈ builder.args) : number info.name ∈ (tree.node 0).commands :=
  shares.numbered.mem_iff.mp (List.mem_map_of_mem (mem_names member rfl))

theorem number_inj (formed : tree.Formed) {left right : Token}
    (left_mem : left ∈ builder.args.filterMap commandName)
    (right_mem : right ∈ builder.args.filterMap commandName) (same : number left = number right) :
    left = right :=
  List.inj_on_of_nodup_map (shares.numbered.nodup_iff.mpr (formed.nodup 0)) left_mem right_mem same

/-- A new object of the root goes to the root, and if it is shared to each command once. -/
theorem addToRoot (formed : tree.Formed) (leaf : Leaf ω) :
    Shares (builder.addToRoot sorter leaf) (tree.declare itemSorter 0 leaf.type leaf.name)
      number where
  objects := by simp [Builder.addToRoot, shares.objects]
  rooted := by
    rw [Tree.size_declare]
    exact shares.rooted
  numbered := by
    have names : ((builder.addToRoot sorter leaf).args.filterMap commandName).Perm
        (builder.args.filterMap commandName) := by
      refine ((sorter.perm _ _).filterMap _).trans ?_
      rw [List.filterMap_append, names_map (commandName_mapArgs _ _)]
      exact List.Perm.of_eq (List.append_nil _)
    rw [Tree.commands_declare]
    exact (names.map number).trans shares.numbered
  owned := by
    intro declared member
    rw [Tree.commands_declare]
    rw [Tree.objects_declare, List.mem_append, List.mem_singleton] at member
    rcases member with old | rfl
    · exact shares.owned declared old
    · exact .inl rfl
  root := by
    have apart : 0 ∉ (tree.node 0).commands := fun member =>
      Nat.lt_irrefl _ (formed.younger 0 0 member).1
    refine Holds.perm ?_ (sorter.perm _ _)
    rw [← shares.length_eq]
    refine (shares.root.map (isLeaf_mapArgs _ _)).declare ?_
    rw [List.count_eq_zero_of_not_mem apart, ite_self, if_pos rfl]
  command := by
    intro info args member
    rcases List.mem_append.mp ((sorter.perm _ _).mem_iff.mp member) with mapped | last
    · obtain ⟨inner, inner_mem, rfl⟩ := exists_of_mem_mapArgs mapped
      have numbered := shares.mem_commands inner_mem
      have younger := (formed.younger 0 _ numbered).1
      have once := List.count_eq_one_of_mem (formed.nodup 0) numbered
      have held := shares.command info inner inner_mem
      rw [inherited_new leaf 0, ← shares.length_eq]
      split
      · rename_i inherited
        refine (held.declare ?_).perm (sorter.perm _ _)
        rw [if_pos inherited, once, if_neg younger.ne']
      · rename_i inherited
        exact held.declare_elsewhere (if_neg inherited) younger.ne'
    · cases List.mem_singleton.mp last

/-- A new object of a command goes to its parser only. -/
theorem addToCommand (formed : tree.Formed) (flat : Flat tree)
    (named : name ∈ builder.args.filterMap commandName) (leaf : Leaf ω) :
    Shares (builder.addToCommand sorter name leaf)
      (tree.declare itemSorter (number name) leaf.type leaf.name) number := by
  have numbered : number name ∈ (tree.node 0).commands :=
    shares.numbered.mem_iff.mp (List.mem_map_of_mem named)
  have nested := (formed.younger 0 _ numbered).1
  have childless := flat (number name) nested.ne'
  have unpushed : ∀ parser, (if Declared.inherited
      { type := leaf.type, name := leaf.name, parser := number name } then
        (tree.node (number name)).commands.count parser else 0) = 0 := by
    intro parser
    rw [childless, List.count_nil, ite_self]
  refine ⟨?_, ?_, ?_, ?_, ?_, ?_⟩
  · simp [Builder.addToCommand, shares.objects]
  · rw [Tree.size_declare]
    exact shares.rooted
  · rw [Tree.commands_declare, Builder.addToCommand, names_map (commandName_mapArgs _ _)]
    exact shares.numbered
  · intro declared member
    rw [Tree.commands_declare]
    rw [Tree.objects_declare, List.mem_append, List.mem_singleton] at member
    rcases member with old | rfl
    · exact shares.owned declared old
    · exact .inr numbered
  · exact (shares.root.map (isLeaf_mapArgs _ _)).declare_elsewhere (unpushed 0) nested.ne
  · intro info args member
    obtain ⟨inner, inner_mem, rfl⟩ := exists_of_mem_mapArgs member
    have held := shares.command info inner inner_mem
    by_cases same : info.name = name
    · rw [if_pos (beq_iff_eq.mpr same), ← shares.length_eq]
      refine (held.declare ?_).perm (sorter.perm _ _)
      rw [unpushed, if_pos (congrArg number same)]
    · rw [if_neg (mt beq_iff_eq.mp same)]
      exact held.declare_elsewhere (unpushed _)
        (mt (shares.number_inj formed (mem_names inner_mem rfl) named) same)

/-- A new command gets a new number. -/
theorem addCommand (formed : tree.Formed) {helpMenu : Bool}
    (add_eq : builder.addCommand sorter name helpMenu = some after) :
    Shares after (tree.addCommand itemSorter 0 helpMenu)
      (Function.update number name tree.size) := by
  have unused := formed.unused tree.size (Nat.le_refl _)
  obtain ⟨inner, args_perm, inner_perm, leaves_eq, fresh⟩ := exists_of_addCommand add_eq
  have kept : ∀ info args, .command info args ∈ builder.args →
      Function.update number name tree.size info.name = number info.name := fun info args member =>
    Function.update_of_ne (fresh info args member) _ _
  refine ⟨?_, ?_, ?_, ?_, ?_, ?_⟩
  · rw [Tree.objects_addCommand, leaves_eq]
    cases helpMenu <;> simp [shares.objects, Tree.helpOf, helpOption]
  · rw [Tree.size_addCommand]
    exact Nat.succ_pos _
  · have names_eq : (builder.args.filterMap commandName).map
        (Function.update number name tree.size) =
          (builder.args.filterMap commandName).map number := by
      refine List.map_congr_left fun other other_mem => ?_
      obtain ⟨info, args, member, rfl⟩ := exists_of_mem_names other_mem
      exact kept info args member
    refine ((args_perm.filterMap commandName).map _).trans ?_
    rw [List.filterMap_append, List.map_append, names_eq, Tree.commands_addCommand, if_pos rfl]
    refine shares.numbered.append (List.Perm.of_eq ?_)
    simp [commandName]
  · intro declared member
    rw [Tree.objects_addCommand, List.mem_append] at member
    rw [Tree.mem_commands_addCommand]
    rcases member with old | new
    · exact (shares.owned declared old).imp_right .inl
    · exact .inr (.inr ⟨rfl, (Tree.of_mem_helpOf new).2⟩)
  · refine Holds.perm (fun id => ?_) args_perm
    rw [Tree.count_addCommand unused, if_neg shares.rooted.ne, List.countP_append]
    exact shares.root id
  · intro info args member
    rcases List.mem_append.mp (args_perm.mem_iff.mp member) with earlier | last
    · have older := (formed.younger 0 _ (shares.mem_commands earlier)).2
      rw [kept info args earlier]
      intro id
      rw [Tree.count_addCommand unused, if_neg older.ne]
      exact shares.command info args earlier id
    · obtain ⟨rfl, rfl⟩ := Entry.command.inj (List.mem_singleton.mp last)
      rw [Function.update_self]
      refine Holds.perm (fun id => ?_) inner_perm
      rw [Tree.count_addCommand unused, if_pos rfl, List.countP_append, countP_inherited,
        shares.inherited_eq, shares.root id, shares.length_eq]
      congr 1
      cases helpMenu with
      | false => simp
      | true =>
        by_cases new : id = builder.leaves.length
        · simp [Entry.isLeaf, new]
        · simp [Entry.isLeaf, new, Ne.symm new]

/-- The setters leave types, names and `m_args` as they are. -/
theorem set (id : Nat) (setter : Setter ω) : Shares (builder.set id setter) tree number := by
  have kept : ((builder.leaves.modify id setter.apply).map fun leaf => (leaf.type, leaf.name)) =
      builder.leaves.map fun leaf => (leaf.type, leaf.name) := by
    refine List.ext_getElem? fun place => ?_
    rw [List.getElem?_map, List.getElem?_modify, List.getElem?_map, Option.map_eq_map,
      Option.map_map]
    refine congrArg (Option.map · _) (funext fun leaf => ?_)
    dsimp only [Function.comp]
    split
    · cases setter <;> rfl
    · rfl
  exact
    { shares with
      objects := shares.objects.trans kept.symm }

theorem mapInfo (selected : Token → Bool) (change : Command ω → Command ω) :
    Shares { builder with args := builder.args.map (Entry.mapInfo selected change) } tree
      number where
  objects := shares.objects
  rooted := shares.rooted
  numbered := by
    rw [names_map (commandName_mapInfo selected change)]
    exact shares.numbered
  owned := shares.owned
  root := shares.root.map (isLeaf_mapInfo selected change)
  command := by
    intro info args member
    obtain ⟨before, before_mem, name_eq⟩ := exists_of_mem_mapInfo member
    exact name_eq ▸ shares.command before args before_mem

theorem setCommand (name : Token) (setter : CommandSetter ω) :
    Shares (builder.setCommand name setter) tree number := by
  cases setter with
  | aliasName text => exact { shares with }
  | required => exact shares.mapInfo _ _
  | action act => exact shares.mapInfo _ _

end Shares

theorem shares_create (noAutoHelp : Bool) :
    Shares (create noAutoHelp : Builder ω) (Tree.create itemSorter noAutoHelp) number := by
  have bare : Shares ({ leaves := [], args := [] } : Builder ω) {} number :=
    ⟨rfl, Nat.zero_lt_one, List.Perm.nil, fun _ member => absurd member List.not_mem_nil,
      fun _ => rfl, fun _ _ member => absurd member List.not_mem_nil⟩
  cases noAutoHelp with
  | true => exact bare
  | false =>
    refine ⟨?_, ?_, ?_, fun declared member => ?_, fun id => ?_, fun info args member => ?_⟩
    · rw [Tree.create, Tree.objects_setupHelp]
      rfl
    · rw [Tree.create, Tree.size_setupHelp]
      exact Nat.zero_lt_one
    · rw [Tree.create, Tree.commands_setupHelp]
      exact List.Perm.nil
    · rw [Tree.create, Tree.objects_setupHelp, List.nil_append] at member
      exact .inl (Tree.of_mem_helpOf member).2
    · rw [Tree.create, Tree.count_setupHelp]
      by_cases help : id = 0
      · simp [help, create, Entry.isLeaf]
      · simp [help, Ne.symm help, create, Entry.isLeaf]
    · cases List.mem_singleton.mp member

/-- Calls on the tree that add commands to the root only give what is built. -/
def Mirrored (itemSorter : ItemSorter) (noAutoHelp : Bool) (builder : Builder ω) : Prop :=
  ∃ calls tree number, (∀ parser helpMenu, .addCommand parser helpMenu ∈ calls → parser = 0) ∧
    Runs.run (Tree.step itemSorter) (Tree.create itemSorter noAutoHelp) calls = some tree ∧
    Shares builder tree number

variable {noAutoHelp : Bool}

/-- Every call that builds a parser is one on the tree, or none. -/
theorem Mirrored.step (mirrored : Mirrored itemSorter noAutoHelp builder) {call : BuildCall ω}
    (step_eq : builder.step sorter call = some after) : Mirrored itemSorter noAutoHelp after := by
  obtain ⟨calls, tree, number, shallow, built, shares⟩ := mirrored
  have formed := Runs.Reachable.invariant (Tree.formed_create noAutoHelp)
    (fun _ _ _ => Tree.Formed.step) ⟨calls, built⟩
  have flat := flat_of_run shallow built
  have declared : ∀ parser type name, parser < tree.size →
      Shares after (tree.declare itemSorter parser type name) number →
        Mirrored itemSorter noAutoHelp after := by
    intro parser type name inside shared
    have step_eq : tree.step itemSorter (.declare parser type name) =
      some (tree.declare itemSorter parser type name) := if_pos inside
    refine ⟨calls ++ [.declare parser type name], _, number, ?_,
      Runs.run_concat_eq_some.mpr ⟨tree, built, step_eq⟩, shared⟩
    simpa using shallow
  have leaf_added : ∀ owner leaf, builder.addLeaf sorter owner leaf = some after →
      Mirrored itemSorter noAutoHelp after := by
    intro owner leaf add_eq
    rcases cases_of_addLeaf add_eq with ⟨-, rfl, -⟩ | ⟨info, inner, -, member, rfl⟩
    · exact declared _ _ _ shares.rooted (shares.addToRoot formed leaf)
    · exact declared _ _ _ (formed.younger 0 _ (shares.mem_commands member)).2
        (shares.addToCommand formed flat (mem_names member rfl) leaf)
  cases call with
  | addArgument owner name flag binding => exact leaf_added _ _ step_eq
  | addOption owner name flag binding => exact leaf_added _ _ step_eq
  | addPositional owner name binding => exact leaf_added _ _ step_eq
  | addCommand name helpMenu =>
    have tree_step_eq : tree.step itemSorter (.addCommand 0 helpMenu) =
      some (tree.addCommand itemSorter 0 helpMenu) := if_pos shares.rooted
    refine ⟨calls ++ [.addCommand 0 helpMenu], _, _, ?_,
      Runs.run_concat_eq_some.mpr ⟨tree, built, tree_step_eq⟩,
      shares.addCommand formed step_eq⟩
    intro parser menu member
    rcases List.mem_append.mp member with earlier | last
    · exact shallow parser menu earlier
    · exact (Call.addCommand.inj (List.mem_singleton.mp last)).1
  | set id setter =>
    obtain rfl := Option.some.inj step_eq
    exact ⟨calls, tree, number, shallow, built, shares.set id setter⟩
  | setCommand name setter =>
    obtain rfl := Option.some.inj step_eq
    exact ⟨calls, tree, number, shallow, built, shares.setCommand name setter⟩

theorem mirrored_of_reachable {noAutoHelp : Bool}
    (built : Runs.Reachable (step sorter) (create noAutoHelp) builder) :
    Mirrored itemSorter noAutoHelp builder := by
  refine Runs.Reachable.invariant ?_ (fun _ _ _ mirrored => mirrored.step) built
  exact ⟨[], _, fun _ => 0, fun _ _ member => absurd member List.not_mem_nil, rfl,
    shares_create noAutoHelp⟩

/-- An argument or option other than `help` is once in the root and in each command, or once in the
command that it was declared on. -/
theorem shared_once (built : Runs.Reachable (step sorter) (create noAutoHelp) builder) {id : Nat}
    (shared : (Entry.leaf id).inherited builder.objects = true) :
    (builder.args.countP (Entry.isLeaf id) = 1 ∧ ∀ info args, .command info args ∈ builder.args →
        args.countP (Entry.isLeaf id) = 1) ∨
      ∃ info args, .command info args ∈ builder.args ∧ args.countP (Entry.isLeaf id) = 1 := by
  obtain ⟨calls, tree, number, shallow, tree_built, shares⟩ :=
    @mirrored_of_reachable ω insertionItemSorter sorter builder noAutoHelp built
  have inherits := inherits_of_run shallow tree_built
  rw [← shares.inherited_eq] at shared
  obtain ⟨declared, found, inherited⟩ : ∃ declared, tree.objects[id]? = some declared ∧
      declared.inherited = true := by
    cases found : tree.objects[id]? with
    | none => simp [Item.inherited, found] at shared
    | some declared => exact ⟨declared, rfl, by simpa [Item.inherited, found] using shared⟩
  have once := inherits id declared found inherited
  rcases shares.owned declared (List.mem_of_getElem? found) with root | nested
  · rw [root] at once
    refine .inl ⟨(shares.root id).symm.trans (once 0 .here), fun info args member => ?_⟩
    exact (shares.command info args member id).symm.trans
      (once _ (.inside (shares.mem_commands member) .here))
  · obtain ⟨name, name_mem, number_eq⟩ := List.mem_map.mp (shares.numbered.mem_iff.mpr nested)
    obtain ⟨info, args, member, rfl⟩ := exists_of_mem_names name_mem
    refine .inr ⟨info, args, member, (shares.command info args member id).symm.trans ?_⟩
    rw [number_eq]
    exact once _ .here

end Shares

end Builder

end Fusion.Argparse
