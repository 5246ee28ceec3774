import Fusion.Argparse.Required
import Fusion.Argparse.Retry
import Mathlib.Data.List.GetD

/-!
# The order of the positionals

A positional takes any token as long as it has not been found, so tokens that match nothing else go
to the positionals in the order of `m_args`.  That list is sorted by type whenever an object is
added, and `std::sort` may put objects of one type in any order.
-/

namespace Fusion.Argparse

variable {id : Nat}

section Positionals

variable {ω : Type} (objects : Nat → Leaf ω) (beyond : Char)

/-- The object, if it is a positional. -/
def Entry.positionalId : Entry ω → Option Nat
  | .leaf id => if (objects id).type = .positional then some id else none
  | .command _ _ => none

/-- The positionals of a parser, in the order of its `m_args`. -/
def positionals (args : List (Entry ω)) : List Nat := args.filterMap (Entry.positionalId objects)

/-- The positionals that still take a token. -/
def pending (found : Finset Token) (args : List (Entry ω)) : List Nat :=
  (positionals objects args).filter fun id => decide ((objects id).name ∉ found)

/-- The token matches no argument, no option and no command. -/
def Unmatched (args : List (Entry ω)) (token : Token) : Prop :=
  ∀ entry ∈ args, entry.positionalId objects = none →
    entry.matchToken objects beyond ∅ token ≠ .ok true

/-- The tokens go to these objects, one to each in this order, and each one converts its token. -/
structure Binds (args : List (Entry ω)) (tokens : List Token) (before after : ω)
    (ids : List Nat) : Prop where
  length_eq : ids.length = tokens.length
  splits : ∃ final, Splits objects beyond [] args ∅ tokens (ids.map .leaf) final
  world_eq : after = (ids.zip tokens).foldl
    (fun world bound => ((objects bound.1).handler bound.2 world).1) before

variable {objects : Nat → Leaf ω} {beyond : Char} {args : List (Entry ω)}

theorem mem_positionals :
    id ∈ positionals objects args ↔ .leaf id ∈ args ∧ (objects id).type = .positional := by
  rw [positionals, List.mem_filterMap]
  constructor
  · rintro ⟨entry, member, id_eq⟩
    cases entry with
    | leaf other =>
      obtain ⟨positional, same⟩ := Option.ite_none_right_eq_some.mp id_eq
      obtain rfl := Option.some.inj same
      exact ⟨member, positional⟩
    | command info inner => cases id_eq
  · rintro ⟨member, positional⟩
    exact ⟨.leaf id, member, if_pos positional⟩

variable {entry : Entry ω}

theorem matchToken_of_positionalId_eq_none (other : entry.positionalId objects = none)
    (found : Finset Token) (token : Token) :
    entry.matchToken objects beyond found token = entry.matchToken objects beyond ∅ token := by
  cases entry with
  | leaf id =>
    have type_ne : (objects id).type ≠ .positional := by
      intro positional
      rw [Entry.positionalId, if_pos positional] at other
      cases other
    rw [Entry.matchToken, Entry.matchToken, Leaf.matchToken, Leaf.matchToken]
    split
    · rename_i positional
      exact absurd positional type_ne
    · rfl
  | command info inner => rfl

theorem matchToken_of_positional (positional : (objects id).type = .positional)
    (single : (objects id).isSequence = false) (found : Finset Token) (token : Token) :
    (Entry.leaf id : Entry ω).matchToken objects beyond found token =
      .ok (decide ((objects id).name ∉ found)) := by
  simp only [Entry.matchToken, Leaf.matchToken, positional, single, Bool.false_or]

variable {tokens : List Token} {token : Token}

theorem parse_of_positional (positional : (objects id).type = .positional) {before after : ω}
    {more : Nat} (parsed : (objects id).parse beyond token tokens before = (after, .ok more)) :
    more = 0 ∧ after = ((objects id).handler token before).1 := by
  simp only [Leaf.parse, positional] at parsed
  split at parsed
  · cases parsed
  · rename_i handled
    cases parsed
    rw [handled]
    exact ⟨rfl, rfl⟩

theorem positionals_perm {left right : List (Entry ω)} (same : left.Perm right) :
    (positionals objects left).Perm (positionals objects right) :=
  same.filterMap _

theorem positionals_append (front back : List (Entry ω)) :
    positionals objects (front ++ back) = positionals objects front ++ positionals objects back :=
  List.filterMap_append

theorem positionals_singleton (id : Nat) :
    positionals objects [.leaf id] = if (objects id).type = .positional then [id] else [] := by
  unfold positionals Entry.positionalId
  split <;> simp_all

theorem positionals_cons_of_positional (positional : (objects id).type = .positional)
    (back : List (Entry ω)) :
    positionals objects (.leaf id :: back) = id :: positionals objects back :=
  List.filterMap_cons_some (if_pos positional)

theorem pending_insert {found : Finset Token} {rest : List Nat}
    (names : ((positionals objects args).map fun id => (objects id).name).Nodup)
    (pending_eq : pending objects found args = id :: rest) :
    pending objects (insert (objects id).name found) args = rest := by
  have sublist : (id :: rest).Sublist (positionals objects args) := by
    rw [← pending_eq]
    exact List.filter_sublist
  have fresh := (List.nodup_cons.mp (names.sublist (sublist.map _))).1
  have filter_eq : pending objects (insert (objects id).name found) args =
      (pending objects found args).filter fun other =>
        decide ((objects other).name ≠ (objects id).name) := by
    rw [pending, pending, List.filter_filter]
    refine List.filter_congr fun other _ => ?_
    simp [not_or]
  rw [filter_eq, pending_eq, List.filter_cons_of_neg (by simp)]
  refine List.filter_eq_self.mpr fun other member => decide_eq_true fun same => ?_
  exact fresh (List.mem_map.mpr ⟨other, member, same⟩)

section Loop

variable {path : List Token} {args : List (Entry ω)} {found : Finset Token}
  (single : ∀ id ∈ positionals objects args, (objects id).isSequence = false)
include single

/-- Such a token goes to the first positional that still takes one. -/
theorem FirstMatch.pending_eq (first : FirstMatch objects beyond found args token entry)
    (unmatched : Unmatched objects beyond args token) :
    ∃ id rest, entry = .leaf id ∧ (objects id).type = .positional ∧
      pending objects found args = id :: rest := by
  obtain ⟨front, back, rfl, earlier, matches_entry⟩ := first
  cases id_eq : entry.positionalId objects with
  | none =>
    rw [matchToken_of_positionalId_eq_none id_eq] at matches_entry
    exact absurd matches_entry (unmatched entry (by simp) id_eq)
  | some id =>
    cases entry with
    | command info inner => cases id_eq
    | leaf id =>
      obtain ⟨positional, -⟩ := Option.ite_none_right_eq_some.mp id_eq
      have split : positionals objects (front ++ .leaf id :: back) =
          positionals objects front ++ id :: positionals objects back := by
        rw [positionals_append, positionals_cons_of_positional positional]
      -- The positionals before it have taken their tokens.
      have front_nil : pending objects found front = [] := by
        refine List.filter_eq_nil_iff.mpr fun other member pends => ?_
        obtain ⟨before, other_positional⟩ := mem_positionals.mp member
        have other_single := single other (split ▸ List.mem_append_left _ member)
        have passed := earlier _ before
        rw [matchToken_of_positional other_positional other_single, pends] at passed
        cases passed
      have unfound : decide ((objects id).name ∉ found) = true := by
        have id_single := single id (split ▸ List.mem_append_right _ List.mem_cons_self)
        rw [matchToken_of_positional positional id_single] at matches_entry
        exact Except.ok.inj matches_entry
      refine ⟨id, pending objects found back, rfl, positional, ?_⟩
      rw [pending, split, List.filter_append, ← pending, front_nil, List.nil_append]
      exact List.filter_cons_of_pos unfound

variable (names : ((positionals objects args).map fun id => (objects id).name).Nodup)
include names

theorem Splits.pending_eq {consumers : List EntryId} {final : Finset Token}
    (splits : Splits objects beyond path args found tokens consumers final)
    (unmatched : ∀ token ∈ tokens, Unmatched objects beyond args token) :
    ∃ ids, consumers = ids.map .leaf ∧ ids.length = tokens.length ∧
      pending objects found args = ids ++ pending objects final args := by
  induction splits with
  | nil => exact ⟨[], rfl, rfl, rfl⟩
  | @leaf path args found id token more rest consumers final first fresh taken others ih =>
    obtain ⟨other, later, entry_eq, positional, pending_eq⟩ :=
      first.pending_eq single (unmatched token List.mem_cons_self)
    cases entry_eq
    obtain ⟨before, after, parsed⟩ := taken
    obtain rfl := List.eq_nil_of_length_eq_zero (parse_of_positional positional parsed).1
    obtain ⟨ids, rfl, length_eq, rest_eq⟩ :=
      ih single names fun token member => unmatched token (List.mem_cons_of_mem _ member)
    rw [pending_insert names pending_eq] at rest_eq
    refine ⟨id :: ids, rfl, congrArg Nat.succ length_eq, ?_⟩
    rw [pending_eq, rest_eq, List.cons_append]
  | command first fresh others ih =>
    obtain ⟨_, _, entry_eq, -⟩ := first.pending_eq single (unmatched _ List.mem_cons_self)
    cases entry_eq

/-- Each of them is converted by the positional that it goes to. -/
theorem world_of_processLoop {state after : State ω}
    (looped : processLoop objects beyond path args tokens state = (after, .ok []))
    (unmatched : ∀ token ∈ tokens, Unmatched objects beyond args token) :
    after.world = ((pending objects state.found args).zip tokens).foldl
      (fun world bound => ((objects bound.1).handler bound.2 world).1) state.world := by
  fun_induction processLoop objects beyond path args tokens state generalizing after with
  | case1 path args state =>
    cases looped
    rw [List.zip_nil_right, List.foldl_nil]
  | case2 => cases looped
  | case3 => cases looped
  | case4 => cases looped
  | case5 => cases looped
  | case6 path args state token tokens id world more parsed matched unduplicated ih =>
    obtain ⟨other, later, entry_eq, positional, pending_eq⟩ :=
      (firstMatch_eq_some matched).pending_eq single (unmatched token List.mem_cons_self)
    cases entry_eq
    obtain ⟨rfl, rfl⟩ := parse_of_positional positional parsed
    have rest := ih single names looped fun token member =>
      unmatched token (List.mem_cons_of_mem _ member)
    rw [rest, pending_eq, List.zip_cons_cons, List.foldl_cons, State.markArgumentFound,
      pending_insert names pending_eq, List.drop_zero]
  | case7 => cases looped
  | case8 => cases looped
  | case9 => cases looped
  | case10 path args state token tokens info inner entered ended remaining inside finished world
      acted matched =>
      obtain ⟨_, _, entry_eq, -⟩ :=
        (firstMatch_eq_some matched).pending_eq single (unmatched token List.mem_cons_self)
      cases entry_eq

end Loop

/-! ## Declarations -/

theorem positionals_congr {other : Nat → Leaf ω}
    (types : ∀ id, .leaf id ∈ args → (other id).type = (objects id).type) :
    positionals other args = positionals objects args := by
  refine List.filterMap_congr fun entry member => ?_
  cases entry with
  | leaf id => rw [Entry.positionalId, Entry.positionalId, types id member]
  | command info inner => rfl

theorem positionals_map {change : Entry ω → Entry ω} (args : List (Entry ω))
    (leaf : ∀ id, change (.leaf id) = .leaf id)
    (command : ∀ info inner, (change (.command info inner)).isCommand = true) :
    positionals objects (args.map change) = positionals objects args := by
  rw [positionals, List.filterMap_map]
  refine List.filterMap_congr fun entry _ => ?_
  cases entry with
  | leaf id => rw [Function.comp_apply, leaf]
  | command info inner =>
    have is_command := command info inner
    rw [Function.comp_apply]
    cases changed : change (.command info inner) with
    | leaf id => rw [changed] at is_command; cases is_command
    | command info inner => rfl

theorem leaf_mem_map {change : Entry ω → Entry ω} (leaf : ∀ id, change (.leaf id) = .leaf id)
    (command : ∀ info inner, (change (.command info inner)).isCommand = true)
    (member : .leaf id ∈ args.map change) : .leaf id ∈ args := by
  obtain ⟨entry, member, changed⟩ := List.mem_map.mp member
  cases entry with
  | leaf other =>
    rw [leaf] at changed
    exact changed ▸ member
  | command info inner =>
    have is_command := command info inner
    rw [changed] at is_command
    cases is_command

end Positionals

namespace Builder

variable {ω : Type}

/-- The positional of the root that a call declares. -/
def declaredBy (builder : Builder ω) : BuildCall ω → List Nat
  | .addPositional .root _ _ => [builder.leaves.length]
  | _ => []

/-- The same, by the object that is added. -/
def addedPositional (builder : Builder ω) (leaf : Leaf ω) : Owner → List Nat
  | .root => if leaf.type = .positional then [builder.leaves.length] else []
  | .command _ => []

/-- A call, with the positionals of the root in the order of their declaration. -/
def declare (sorter : Sorter ω) (state : Builder ω × List Nat) (call : BuildCall ω) :
    Option (Builder ω × List Nat) :=
  (state.1.step sorter call).map (·, state.2 ++ state.1.declaredBy call)

/-- What holds of the positionals of the root while a parser is built. -/
structure Declares (builder : Builder ω) (declared : List Nat) : Prop where
  bounded : ∀ id, .leaf id ∈ builder.args → id < builder.leaves.length
  order : (positionals builder.objects builder.args).Perm declared
  required : ∀ id ∈ positionals builder.objects builder.args, (builder.objects id).required = true
  names : ((positionals builder.objects builder.args).map fun id => (builder.objects id).name).Nodup

theorem objects_of_lt {builder after : Builder ω} {more : List (Leaf ω)}
    (leaves_eq : after.leaves = builder.leaves ++ more) (old : id < builder.leaves.length) :
    after.objects id = builder.objects id := by
  rw [objects, objects, leaves_eq, List.getD_append _ _ _ _ old]

section Declares

variable {sorter : Sorter ω} {builder after : Builder ω} {declared : List Nat}
  (declares : Declares builder declared)
include declares

theorem Declares.change {more : List Nat}
    (bounded : ∀ id, .leaf id ∈ after.args → id < after.leaves.length)
    (name_eq : ∀ id < builder.leaves.length, (after.objects id).name = (builder.objects id).name)
    (still_required : ∀ id < builder.leaves.length, (builder.objects id).required = true →
      (after.objects id).required = true)
    (order : (positionals after.objects after.args).Perm
      (positionals builder.objects builder.args ++ more))
    (required : ∀ id ∈ more, (after.objects id).required = true)
    (fresh : ((positionals builder.objects builder.args).map
      (fun id => (builder.objects id).name) ++ more.map fun id => (after.objects id).name).Nodup) :
    Declares after (declared ++ more) := by
  have old : ∀ id ∈ positionals builder.objects builder.args, id < builder.leaves.length :=
    fun id member => declares.bounded id (mem_positionals.mp member).1
  refine ⟨bounded, order.trans (declares.order.append_right more), fun id member => ?_, ?_⟩
  · rcases List.mem_append.mp (order.mem_iff.mp member) with earlier | new
    · exact still_required id (old id earlier) (declares.required id earlier)
    · exact required id new
  · refine ((order.map _).nodup_iff).mpr ?_
    rw [List.map_append, List.map_congr_left fun id member => name_eq id (old id member)]
    exact fresh

theorem Declares.keep
    (bounded : ∀ id, .leaf id ∈ after.args → id < after.leaves.length)
    (name_eq : ∀ id < builder.leaves.length, (after.objects id).name = (builder.objects id).name)
    (still_required : ∀ id < builder.leaves.length, (builder.objects id).required = true →
      (after.objects id).required = true)
    (order : (positionals after.objects after.args).Perm
      (positionals builder.objects builder.args)) :
    Declares after declared := by
  have changed : Declares after (declared ++ []) := by
    refine declares.change bounded name_eq still_required ?_ (List.forall_mem_nil _) ?_
    · rwa [List.append_nil]
    · rw [List.map_nil, List.append_nil]
      exact declares.names
  rwa [List.append_nil] at changed

theorem Declares.keep_of_leaves {extra : List (Leaf ω)}
    (leaves_eq : after.leaves = builder.leaves ++ extra)
    (bounded : ∀ id, .leaf id ∈ after.args → id < after.leaves.length)
    (order : (positionals after.objects after.args).Perm (positionals after.objects builder.args)) :
    Declares after declared := by
  have same : positionals after.objects builder.args = positionals builder.objects builder.args :=
    positionals_congr fun id member =>
      congrArg Leaf.type (objects_of_lt leaves_eq (declares.bounded id member))
  refine declares.keep bounded (fun id old => ?_) (fun id old required => ?_) (same ▸ order)
  · rw [objects_of_lt leaves_eq old]
  · rwa [objects_of_lt leaves_eq old]

variable {leaf : Leaf ω}

/-- An object added at the root, with a name that passes the check. -/
theorem Declares.addToRoot (required : leaf.type = .positional → leaf.required = true)
    (fresh : ∀ entry ∈ builder.args, entry.name builder.objects ≠ leaf.name) :
    Declares (builder.addToRoot sorter leaf)
      (declared ++ if leaf.type = .positional then [builder.leaves.length] else []) := by
  have old : ∀ id < builder.leaves.length,
      (builder.addToRoot sorter leaf).objects id = builder.objects id :=
    fun id => objects_of_lt (by rfl)
  have new : (builder.addToRoot sorter leaf).objects builder.leaves.length = leaf := by
    simp [objects, Builder.addToRoot]
  refine declares.change (fun id member => ?_) (fun id bound => ?_) (fun id bound => ?_) ?_
    (fun id member => ?_) ?_
  · have length_eq : (builder.addToRoot sorter leaf).leaves.length = builder.leaves.length + 1 :=
      List.length_append
    rw [length_eq]
    rcases List.mem_append.mp ((sorter.perm _ _).mem_iff.mp member) with earlier | last
    · have bound := declares.bounded id
        (leaf_mem_map (fun _ => rfl) (fun _ _ => rfl) earlier)
      omega
    · cases List.mem_singleton.mp last
      exact Nat.lt_succ_self _
  · rw [old id bound]
  · rw [old id bound]
    exact fun required => required
  · have added : positionals (builder.addToRoot sorter leaf).objects [.leaf builder.leaves.length] =
        if leaf.type = .positional then [builder.leaves.length] else [] := by
      rw [positionals_singleton, new]
    rw [← added, ← positionals_congr fun id member =>
      congrArg Leaf.type (old id (declares.bounded id member))]
    refine (positionals_perm (sorter.perm _ _)).trans ?_
    rw [positionals_append, positionals_map _ (fun _ => rfl) fun _ _ => rfl]
  · obtain ⟨positional, only⟩ := List.mem_ite_nil_right.mp member
    obtain rfl := List.mem_singleton.mp only
    rw [new]
    exact required positional
  · refine List.nodup_append.mpr ⟨declares.names, ?_, ?_⟩
    · split <;> simp
    · rintro name earlier _ last rfl
      obtain ⟨id, member, rfl⟩ := List.mem_map.mp earlier
      obtain ⟨_, added, name_eq⟩ := List.mem_map.mp last
      obtain ⟨-, only⟩ := List.mem_ite_nil_right.mp added
      obtain rfl := List.mem_singleton.mp only
      rw [new] at name_eq
      exact fresh _ (mem_positionals.mp member).1 name_eq.symm

theorem Declares.addToCommand (name : Token) (leaf : Leaf ω) :
    Declares (builder.addToCommand sorter name leaf) declared := by
  refine declares.keep_of_leaves (by rfl) (fun id member => ?_) ?_
  · have bound := declares.bounded id (leaf_mem_map (fun _ => rfl) (fun _ _ => rfl) member)
    exact Nat.lt_of_lt_of_le bound (List.length_append ▸ Nat.le_add_right ..)
  · rw [Builder.addToCommand, positionals_map _ (fun _ => rfl) fun _ _ => rfl]

theorem Declares.addLeaf {owner : Owner}
    (required : leaf.type = .positional → leaf.required = true)
    (add_eq : builder.addLeaf sorter owner leaf = some after) :
    Declares after (declared ++ builder.addedPositional leaf owner) := by
  rcases cases_of_addLeaf add_eq with ⟨rfl, rfl, fresh⟩ | ⟨info, inner, rfl, -, rfl⟩
  · exact declares.addToRoot required fresh
  · rw [addedPositional, List.append_nil]
    exact declares.addToCommand info.name leaf

theorem Declares.addCommand {name : Token} {helpMenu : Bool}
    (add_eq : builder.addCommand sorter name helpMenu = some after) :
    Declares after declared := by
  obtain ⟨inner, args_perm, -, leaves_eq, -⟩ := exists_of_addCommand add_eq
  refine declares.keep_of_leaves leaves_eq (fun id member => ?_) ?_
  · rw [leaves_eq, List.length_append]
    rcases List.mem_append.mp (args_perm.mem_iff.mp member) with earlier | last
    · exact Nat.lt_add_right _ (declares.bounded id earlier)
    · cases List.mem_singleton.mp last
  · refine (positionals_perm args_perm).trans ?_
    rw [positionals_append]
    exact List.Perm.of_eq (List.append_nil _)

omit declares in
theorem objects_set (id : Nat) (setter : Setter ω) (other : Nat) :
    ((builder.set id setter).objects other).type = (builder.objects other).type ∧
      ((builder.set id setter).objects other).name = (builder.objects other).name ∧
      ((builder.objects other).required = true →
        ((builder.set id setter).objects other).required = true) := by
  have applied : ∀ leaf : Leaf ω, (setter.apply leaf).type = leaf.type ∧
      (setter.apply leaf).name = leaf.name ∧
      (leaf.required = true → (setter.apply leaf).required = true) := by
    intro leaf
    cases setter <;> simp [Setter.apply]
  simp only [objects, Builder.set, List.getD_eq_getElem?_getD, List.getElem?_modify]
  cases builder.leaves[other]? with
  | none => simp
  | some leaf =>
    by_cases same : id = other
    · simpa [same] using applied leaf
    · simp [same]

theorem Declares.set (id : Nat) (setter : Setter ω) :
    Declares (builder.set id setter) declared := by
  have same : positionals (builder.set id setter).objects builder.args =
      positionals builder.objects builder.args :=
    positionals_congr fun other _ => (objects_set id setter other).1
  refine declares.keep (fun other member => ?_)
    (fun other _ => (objects_set id setter other).2.1)
    (fun other _ => (objects_set id setter other).2.2) (same.symm ▸ List.Perm.refl _)
  exact Nat.lt_of_lt_of_eq (declares.bounded other member) (List.length_modify ..).symm

theorem Declares.mapInfo (selected : Token → Bool) (change : Command ω → Command ω) :
    Declares
      { builder with args := builder.args.map (Entry.mapInfo selected change) } declared := by
  have same := @positionals_map _ builder.objects (Entry.mapInfo selected change) builder.args
    (fun _ => rfl) fun _ _ => rfl
  refine declares.keep (fun id member => ?_) (fun _ _ => rfl) (fun _ _ => id) ?_
  · exact declares.bounded id (leaf_mem_map (fun _ => rfl) (fun _ _ => rfl) member)
  · exact same.symm ▸ List.Perm.refl _

theorem Declares.setCommand (name : Token) (setter : CommandSetter ω) :
    Declares (builder.setCommand name setter) declared := by
  cases setter with
  | aliasName text => exact ⟨declares.bounded, declares.order, declares.required, declares.names⟩
  | required => exact declares.mapInfo _ _
  | action act => exact declares.mapInfo _ _

theorem Declares.step {call : BuildCall ω} (step_eq : builder.step sorter call = some after) :
    Declares after (declared ++ builder.declaredBy call) := by
  cases call with
  | addArgument owner name flag binding =>
    have added : Declares after (declared ++
        builder.addedPositional { binding with type := .argument, name, flag } owner) :=
      declares.addLeaf nofun step_eq
    cases owner <;> exact added
  | addOption owner name flag binding =>
    have added : Declares after (declared ++
        builder.addedPositional { binding with type := .option, name, flag } owner) :=
      declares.addLeaf nofun step_eq
    cases owner <;> exact added
  | addPositional owner name binding =>
    have added := declares.addLeaf (fun _ => rfl) step_eq
    cases owner <;> exact added
  | addCommand name helpMenu =>
    simpa only [declaredBy, List.append_nil] using declares.addCommand step_eq
  | set id setter =>
    obtain rfl := Option.some.inj step_eq
    simpa only [declaredBy, List.append_nil] using declares.set id setter
  | setCommand name setter =>
    obtain rfl := Option.some.inj step_eq
    simpa only [declaredBy, List.append_nil] using declares.setCommand name setter

omit declares in
theorem declares_of_reachable {noAutoHelp : Bool}
    (built : Runs.Reachable (declare sorter) (create noAutoHelp, []) (builder, declared)) :
    Declares builder declared := by
  refine @Runs.Reachable.invariant _ _ _ _ (fun state => Declares state.1 state.2) ?_ ?_
    _ built
  · cases noAutoHelp with
    | true => exact ⟨nofun, List.Perm.refl _, nofun, List.nodup_nil⟩
    | false =>
      refine ⟨fun id member => ?_, List.Perm.refl _, nofun, List.nodup_nil⟩
      cases List.mem_singleton.mp member
      exact Nat.one_pos
  · rintro ⟨before, earlier⟩ call ⟨after, later⟩ declares step_eq
    obtain ⟨_, stepped, same⟩ := Option.map_eq_some_iff.mp step_eq
    cases same
    exact declares.step stepped

end Declares

end Builder

section Order

variable {ω : Type} {sorter : Sorter ω} {noAutoHelp : Bool} {builder : Builder ω}
  {declared : List Nat} {beyond : Char} {tokens : List Token} {world : ω}

theorem pending_empty (objects : Nat → Leaf ω) (args : List (Entry ω)) :
    pending objects ∅ args = positionals objects args :=
  List.filter_eq_self.mpr fun _ _ => decide_eq_true (Finset.notMem_empty _)

/-- On a fresh parser such tokens are bound to all positionals, in the order of `m_args`. -/
theorem binds_positionals (declares : builder.Declares declared)
    (single : ∀ id ∈ declared, (builder.objects id).isSequence = false)
    (unmatched : ∀ token ∈ tokens, Unmatched builder.objects beyond builder.args token)
    (succeeded : (processOrReset builder.objects beyond builder.args tokens (.fresh world)).2 =
      .ok ()) :
    Binds builder.objects beyond builder.args tokens world
      (processOrReset builder.objects beyond builder.args tokens (.fresh world)).1.world
      (positionals builder.objects builder.args) := by
  have single_all : ∀ id ∈ positionals builder.objects builder.args,
      (builder.objects id).isSequence = false :=
    fun id member => single id (declares.order.mem_iff.mp member)
  obtain ⟨after, looped, finished⟩ := processLoop_of_processOrReset succeeded
  obtain ⟨consumers, splits⟩ := splits_of_processLoop looped
  obtain ⟨ids, rfl, length_eq, pending_eq⟩ :=
    splits.pending_eq single_all declares.names unmatched
  -- Positionals are required, so none is left.
  have none_left : pending builder.objects after.found builder.args = [] := by
    refine List.filter_eq_nil_iff.mpr fun id member pends => ?_
    exact of_decide_eq_true pends (satisfied_of_finish finished (.leaf id)
      (mem_positionals.mp member).1 (declares.required id member))
  have ids_eq : positionals builder.objects builder.args = ids := by
    rw [← pending_empty, ← List.append_nil ids, ← none_left]
    exact pending_eq
  have world_eq := world_of_processLoop single_all declares.names looped unmatched
  refine ⟨ids_eq ▸ length_eq, ⟨after.found, ids_eq ▸ splits⟩, ?_⟩
  rw [world_processOrReset, looped, ← pending_empty]
  exact world_eq

/-- In a parser with no sequences among its positionals, tokens that match nothing else are bound to
them in the order of their declaration exactly when that is their order in `m_args`. -/
theorem binds_declared_iff
    (built : Runs.Reachable (Builder.declare sorter) (.create noAutoHelp, []) (builder, declared))
    (single : ∀ id ∈ declared, (builder.objects id).isSequence = false)
    {overload : Overload} {arguments : List Token} {offset : Nat}
    (processed : overload.processed arguments offset = some tokens)
    (unmatched : ∀ token ∈ tokens, Unmatched builder.objects beyond builder.args token)
    (succeeded : (overload.parse builder.objects beyond builder.args arguments offset
      (.fresh world)).2 = .ok ()) :
    Binds builder.objects beyond builder.args tokens world
        (overload.parse builder.objects beyond builder.args arguments offset
          (.fresh world)).1.world declared ↔
      positionals builder.objects builder.args = declared := by
  have declares := Builder.declares_of_reachable built
  rw [Overload.parse_of_processed processed] at succeeded ⊢
  constructor
  · intro bound
    obtain ⟨final, splits⟩ := bound.splits
    obtain ⟨ids, map_eq, -, pending_eq⟩ := splits.pending_eq
      (fun id member => single id (declares.order.mem_iff.mp member)) declares.names unmatched
    have ids_eq : declared = ids :=
      List.map_injective_iff.mpr (fun _ _ => EntryId.leaf.inj) map_eq
    rw [pending_empty, ← ids_eq] at pending_eq
    -- There are as many positionals as were declared.
    have length_eq := declares.order.length_eq
    rw [pending_eq, List.length_append] at length_eq
    have none_left : pending builder.objects final builder.args = [] :=
      List.eq_nil_of_length_eq_zero (by omega)
    rw [pending_eq, none_left, List.append_nil]
  · intro ordered
    rw [← ordered]
    exact binds_positionals declares single unmatched succeeded

end Order

def setSource : Binding (Token × Token) where
  convert := fun text world => ((text, world.2), .ok ())

def setTarget : Binding (Token × Token) where
  convert := fun text world => ((world.1, text), .ok ())

/-- A program that copies one file to another. -/
def copyCalls : List (BuildCall (Token × Token)) :=
  [.addPositional .root "source".toList setSource, .addPositional .root "target".toList setTarget]

/-- Its parser, by the order of `m_args`. -/
def copyBuilder (args : List (Entry (Token × Token))) : Builder (Token × Token) where
  leaves :=
    [{ setSource with type := .positional, name := "source".toList, required := true },
     { setTarget with type := .positional, name := "target".toList, required := true }]
  args

theorem unmatched_copy {args : List (Entry (Token × Token))}
    (only : ∀ entry ∈ args, entry = .leaf 0 ∨ entry = .leaf 1) (beyond : Char) (token : Token) :
    Unmatched (copyBuilder args).objects beyond args token := by
  intro entry member other
  rcases only entry member with rfl | rfl
  · cases other
  · cases other

theorem binds_declared_iff_copy :
    Binds (copyBuilder [.leaf 0, .leaf 1]).objects '-' [.leaf 0, .leaf 1] [['x'], ['y']] ([], [])
      (['x'], ['y']) [0, 1] := by
  have built : Runs.run (Builder.declare insertionSorter) (.create true, []) copyCalls =
      some (copyBuilder [.leaf 0, .leaf 1], [0, 1]) := by rfl
  have succeeded : (Overload.vector.parse (copyBuilder [.leaf 0, .leaf 1]).objects '-'
      [.leaf 0, .leaf 1] [['x'], ['y']] 0 (.fresh ([], []))).2 = .ok () := by
    decide +kernel
  have world_eq : (Overload.vector.parse (copyBuilder [.leaf 0, .leaf 1]).objects '-'
      [.leaf 0, .leaf 1] [['x'], ['y']] 0 (.fresh ([], []))).1.world = (['x'], ['y']) := by
    decide +kernel
  have bound := (binds_declared_iff ⟨copyCalls, built⟩ (by decide) (by rfl)
    (fun token _ => unmatched_copy (by simp) '-' token) succeeded).mpr rfl
  exact world_eq ▸ bound

/-- A sort that turns around what compares equal. -/
def reversingSorter {ω : Type} : Sorter ω where
  sort objects args := insertionSorter.sort objects args.reverse
  perm objects args := (insertionSorter.perm objects args.reverse).trans args.reverse_perm
  sorted objects args := insertionSorter.sorted objects args.reverse

/-- The source gets the second token and the target the first. -/
theorem binds_swapped :
    Runs.Reachable (Builder.declare reversingSorter) (.create true, [])
      (copyBuilder [.leaf 1, .leaf 0], [0, 1]) ∧
    (∀ id ∈ [0, 1], ((copyBuilder [.leaf 1, .leaf 0]).objects id).isSequence = false) ∧
    (∀ token ∈ [['x'], ['y']],
      Unmatched (copyBuilder [.leaf 1, .leaf 0]).objects '-' [.leaf 1, .leaf 0] token) ∧
    (parse (copyBuilder [.leaf 1, .leaf 0]).objects '-' [.leaf 1, .leaf 0] [['x'], ['y']] 0
      (.fresh ([], []))).2 = .ok () ∧
    (parse (copyBuilder [.leaf 1, .leaf 0]).objects '-' [.leaf 1, .leaf 0] [['x'], ['y']] 0
      (.fresh ([], []))).1.world = (['y'], ['x']) ∧
    ¬Binds (copyBuilder [.leaf 1, .leaf 0]).objects '-' [.leaf 1, .leaf 0] [['x'], ['y']] ([], [])
      (['y'], ['x']) [0, 1] := by
  refine ⟨⟨copyCalls, by rfl⟩, by decide, fun token _ => unmatched_copy (by simp) '-' token,
    by decide +kernel, by decide +kernel, fun bound => ?_⟩
  exact absurd bound.world_eq (by decide)

end Fusion.Argparse
