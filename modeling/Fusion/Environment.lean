import Fusion.Network.Address
import Mathlib.Data.List.Induction
import Mathlib.Logic.Function.Basic

/-!
# Variables set for a time

A `TemporaryEnvironment` changes the environment of the process at once, and unsets the variables
that were set through it when it is destroyed.  What they were before is not recorded.
-/

namespace Fusion

open Network (cString)

/-- The variables of the process: names to values. -/
abbrev Environment := List Char → Option (List Char)

variable {var value : List Char}

namespace Environment

/-- The names that the C library takes; it answers `EINVAL` to any other. -/
def Valid (name : List Char) : Prop := name ≠ [] ∧ '=' ∉ name

instance (name : List Char) : Decidable (Valid name) := inferInstanceAs (Decidable (_ ∧ _))

/-- What `setenv` and `unsetenv` do with a name, and whether they return zero. -/
def assign (environment : Environment) (name : List Char) (value : Option (List Char)) :
    Environment × Bool :=
  if Valid name then (Function.update environment name value, true) else (environment, false)

def set (environment : Environment) (var value : List Char) : Environment × Bool :=
  if var = [] ∨ value = [] then (environment, false)
  else environment.assign (cString var) (some (cString value))

def unset (environment : Environment) (var : List Char) : Environment × Bool :=
  if var = [] then (environment, false) else environment.assign (cString var) none

theorem nonempty_of_valid (valid : Valid (cString var)) : var ≠ [] := by
  rintro rfl
  exact valid.1 rfl

theorem set_of_valid (environment : Environment) (valid : Valid (cString var))
    (nonempty : value ≠ []) :
    environment.set var value =
      (Function.update environment (cString var) (some (cString value)), true) := by
  rw [set, if_neg (by simp [nonempty_of_valid valid, nonempty]), assign, if_pos valid]

variable {environment : Environment}

/-- A call of `Set` that does not take effect changes nothing. -/
theorem set_of_not (failing : ¬ (Valid (cString var) ∧ value ≠ [])) :
    environment.set var value = (environment, false) := by
  rw [set]
  split
  · rfl
  · rename_i nonempty
    rw [not_or] at nonempty
    exact if_neg fun valid => failing ⟨valid, nonempty.2⟩

theorem unset_of_valid (environment : Environment) (valid : Valid (cString var)) :
    environment.unset var = (Function.update environment (cString var) none, true) := by
  rw [unset, if_neg (nonempty_of_valid valid), assign, if_pos valid]

theorem unset_of_not (invalid : ¬ Valid (cString var)) :
    environment.unset var = (environment, false) := by
  rw [unset]
  split
  · rfl
  · exact if_neg invalid

end Environment

namespace TemporaryEnvironment

/-- The process and the object: `values` is the hash table of the variables set through it. -/
structure State where
  environment : Environment
  values : List (List Char × List Char)

def State.keys (state : State) : List (List Char) := state.values.map Prod.fst

/-- `insert_or_assign` of a hash table. -/
def insertOrAssign (values : List (List Char × List Char)) (key value : List Char) :
    List (List Char × List Char) :=
  values.filter (·.1 ≠ key) ++ [(key, value)]

def State.set (state : State) (var value : List Char) : State × Bool :=
  let (environment, result) := state.environment.set var value
  if result then
    ({ environment, values := insertOrAssign state.values var value }, result)
  else ({ state with environment }, result)

def State.unset (state : State) (var : List Char) : State × Bool :=
  let (environment, found) := state.environment.unset var
  let tracked := state.values.any (·.1 = var)
  ({ environment, values := state.values.filter (·.1 ≠ var) }, found && tracked)

/-- The destructor, which meets the keys of the hash table in some order. -/
def State.destroy (state : State) (order : List (List Char)) : Environment :=
  order.foldl (fun environment key => (environment.unset key).1) state.environment

/-- The calls on a `TemporaryEnvironment`. -/
inductive Call
  | set (var value : List Char)
  | unset (var : List Char)

def State.call (state : State) : Call → State × Bool
  | .set var value => state.set var value
  | .unset var => state.unset var

/-- A new object in an environment, after the calls. -/
def run (initial : Environment) (calls : List Call) : State :=
  calls.foldl (fun state call => (state.call call).1) { environment := initial, values := [] }

/-- The variable that a call is about, as the C library sees it. -/
def Call.name : Call → List Char
  | .set var _ => cString var
  | .unset var => cString var

/-- The calls that change the environment. -/
def Call.Succeeds : Call → Prop
  | .set var value => Environment.Valid (cString var) ∧ value ≠ []
  | .unset var => Environment.Valid (cString var)

instance : (call : Call) → Decidable call.Succeeds
  | .set _ _ => inferInstanceAs (Decidable (_ ∧ _))
  | .unset _ => inferInstanceAs (Decidable (_ ∧ _))

/-- The variables that some call changed. -/
def Touched (calls : List Call) (name : List Char) : Prop :=
  ∃ call ∈ calls, call.Succeeds ∧ call.name = name

variable {calls : List Call}

theorem touched_concat {call : Call} {name : List Char} :
    Touched (calls ++ [call]) name ↔ Touched calls name ∨ call.Succeeds ∧ call.name = name := by
  simp only [Touched, List.mem_append, List.mem_singleton]
  constructor
  · rintro ⟨other, earlier | rfl, changes⟩
    · exact .inl ⟨other, earlier, changes⟩
    · exact .inr changes
  · rintro (⟨other, earlier, changes⟩ | changes)
    · exact ⟨other, .inl earlier, changes⟩
    · exact ⟨call, .inr rfl, changes⟩

/-- What the object knows of the changes: a changed variable is gone or the table names it. -/
structure Records (initial : Environment) (calls : List Call) (state : State) : Prop where
  untouched : ∀ name, ¬ Touched calls name → state.environment name = initial name
  touched : ∀ name, Touched calls name →
    state.environment name = none ∨ ∃ key ∈ state.keys, cString key = name
  keys : ∀ key ∈ state.keys, Environment.Valid (cString key) ∧ Touched calls (cString key)

variable {key : List Char} {values : List (List Char × List Char)}

theorem mem_keys_insertOrAssign :
    key ∈ (insertOrAssign values var value).map Prod.fst ↔
      key ∈ values.map Prod.fst ∨ key = var := by
  simp only [insertOrAssign, List.map_append, List.mem_append, List.map_cons, List.map_nil,
    List.mem_singleton, List.mem_map, List.mem_filter, decide_eq_true_eq]
  constructor
  · rintro (⟨entry, ⟨member, -⟩, rfl⟩ | same)
    · exact .inl ⟨entry, member, rfl⟩
    · exact .inr same
  · rintro (⟨entry, member, rfl⟩ | same)
    · by_cases same : entry.1 = var
      · exact .inr same
      · exact .inl ⟨entry, ⟨member, same⟩, rfl⟩
    · exact .inr same

theorem mem_keys_filter :
    key ∈ (values.filter (·.1 ≠ var)).map Prod.fst ↔ key ∈ values.map Prod.fst ∧ key ≠ var := by
  simp only [List.mem_map, List.mem_filter, decide_eq_true_eq]
  constructor
  · rintro ⟨entry, ⟨member, different⟩, rfl⟩
    exact ⟨⟨entry, member, rfl⟩, different⟩
  · rintro ⟨⟨entry, member, rfl⟩, different⟩
    exact ⟨entry, ⟨member, different⟩, rfl⟩

variable {initial : Environment} {state : State}

theorem Records.of_failing {call : Call} (records : Records initial calls state)
    (failing : ¬ call.Succeeds) : Records initial (calls ++ [call]) state := by
  have touched_iff (name : List Char) : Touched (calls ++ [call]) name ↔ Touched calls name := by
    rw [touched_concat]
    exact or_iff_left fun changes => failing changes.1
  constructor
  · intro name untouched
    exact records.untouched name fun earlier => untouched ((touched_iff name).mpr earlier)
  · intro name touched
    exact records.touched name ((touched_iff name).mp touched)
  · intro key member
    exact (records.keys key member).imp_right (touched_iff _).mpr

theorem Records.change {initial : Environment} {calls : List Call} {state : State} {call : Call}
    (records : Records initial calls state) (succeeds : call.Succeeds)
    {value : Option (List Char)} {values : List (List Char × List Char)}
    (kept : ∀ key ∈ state.keys, cString key ≠ call.name → key ∈ values.map Prod.fst)
    (known : ∀ key ∈ values.map Prod.fst,
      key ∈ state.keys ∨ Environment.Valid (cString key) ∧ call.name = cString key)
    (named : value = none ∨ ∃ key ∈ values.map Prod.fst, cString key = call.name) :
    Records initial (calls ++ [call])
      { environment := Function.update state.environment call.name value, values } := by
  constructor
  · intro name untouched
    rw [touched_concat, not_or] at untouched
    have different : name ≠ call.name := fun same => untouched.2 ⟨succeeds, same.symm⟩
    exact (Function.update_of_ne different ..).trans (records.untouched name untouched.1)
  · intro name touched
    by_cases same : name = call.name
    · subst same
      exact named.imp_left fun gone => (Function.update_self ..).trans gone
    have earlier : Touched calls name :=
      (touched_concat.mp touched).resolve_right fun changes => same changes.2.symm
    refine (records.touched name earlier).imp (Function.update_of_ne same ..).trans ?_
    rintro ⟨key, member, rfl⟩
    exact ⟨key, kept key member same, rfl⟩
  · intro key member
    cases known key member with
    | inl earlier =>
      exact (records.keys key earlier).imp_right fun touched => touched_concat.mpr (.inl touched)
    | inr new => exact ⟨new.1, touched_concat.mpr (.inr ⟨succeeds, new.2⟩)⟩

section

variable (records : Records initial calls state)
include records

theorem Records.set (succeeds : (Call.set var value).Succeeds) :
    Records initial (calls ++ [.set var value])
      { environment := Function.update state.environment (cString var) (some (cString value))
        values := insertOrAssign state.values var value } := by
  refine records.change succeeds ?_ ?_ (.inr ⟨var, mem_keys_insertOrAssign.mpr (.inr rfl), rfl⟩)
  · intro key member _
    exact mem_keys_insertOrAssign.mpr (.inl member)
  · intro key member
    refine (mem_keys_insertOrAssign.mp member).imp_right ?_
    rintro rfl
    exact ⟨succeeds.1, rfl⟩

theorem Records.unset (succeeds : (Call.unset var).Succeeds) :
    Records initial (calls ++ [.unset var])
      { environment := Function.update state.environment (cString var) none
        values := state.values.filter (·.1 ≠ var) } := by
  refine records.change succeeds ?_ ?_ (.inl rfl)
  · intro key member different
    refine mem_keys_filter.mpr ⟨member, ?_⟩
    rintro rfl
    exact different rfl
  · intro key member
    exact .inl (mem_keys_filter.mp member).1

/-- No key of the table is forgotten by an `Unset` that fails: such a key was never set. -/
theorem Records.filter_eq (invalid : ¬ Environment.Valid (cString var)) :
    state.values.filter (·.1 ≠ var) = state.values := by
  rw [List.filter_eq_self]
  intro entry member
  refine decide_eq_true fun same => invalid ?_
  have key_mem : entry.1 ∈ state.keys := List.mem_map_of_mem member
  exact same ▸ (records.keys entry.1 key_mem).1

theorem Records.call (call : Call) : Records initial (calls ++ [call]) (state.call call).1 := by
  by_cases succeeds : call.Succeeds
  · cases call with
    | set var value =>
      have set_eq := Environment.set_of_valid state.environment succeeds.1 succeeds.2
      simpa only [State.call, State.set, set_eq, if_true] using records.set succeeds
    | unset var =>
      have unset_eq := Environment.unset_of_valid state.environment succeeds
      simpa only [State.call, State.unset, unset_eq] using records.unset succeeds
  · have kept := records.of_failing succeeds
    cases call with
    | set var value =>
      have set_eq : state.environment.set var value = (state.environment, false) :=
        Environment.set_of_not succeeds
      simpa only [State.call, State.set, set_eq, Bool.false_eq_true, if_false] using kept
    | unset var =>
      have unset_eq : state.environment.unset var = (state.environment, false) :=
        Environment.unset_of_not succeeds
      simpa only [State.call, State.unset, unset_eq, records.filter_eq succeeds] using kept

end

theorem records_run (initial : Environment) (calls : List Call) :
    Records initial calls (run initial calls) := by
  induction calls using List.reverseRecOn with
  | nil =>
    have none_touched (name : List Char) : ¬ Touched [] name := by
      rintro ⟨call, member, -⟩
      cases member
    exact ⟨fun _ _ => rfl, fun name touched => absurd touched (none_touched name), nofun⟩
  | append_singleton calls call records =>
    rw [run, List.foldl_append]
    exact records.call call

theorem foldl_unset (environment : Environment) (order : List (List Char))
    (valid : ∀ key ∈ order, Environment.Valid (cString key)) (name : List Char) :
    order.foldl (fun environment key => (environment.unset key).1) environment name =
      if ∃ key ∈ order, cString key = name then none else environment name := by
  induction order generalizing environment with
  | nil => simp
  | cons first order ih =>
    have first_valid := valid first List.mem_cons_self
    rw [List.foldl_cons, Environment.unset_of_valid _ first_valid,
      ih _ fun key member => valid key (List.mem_cons_of_mem first member)]
    by_cases later : ∃ key ∈ order, cString key = name
    · simp [later]
    · by_cases same : cString first = name
      · subst same
        simp [later]
      · simp [later, same, Function.update_of_ne (Ne.symm same)]

theorem destroy_run (initial : Environment) (calls : List Call) {order : List (List Char)}
    (traversed : order.Perm (run initial calls).keys) (name : List Char) :
    (Touched calls name → (run initial calls).destroy order name = none) ∧
      (¬ Touched calls name → (run initial calls).destroy order name = initial name) := by
  have records := records_run initial calls
  have order_keys (key : List Char) (member : key ∈ order) :=
    records.keys key (traversed.mem_iff.mp member)
  rw [State.destroy, foldl_unset _ order fun key member => (order_keys key member).1]
  constructor
  · intro touched
    split
    · rfl
    · rename_i unlisted
      refine (records.touched name touched).resolve_right ?_
      rintro ⟨key, member, key_eq⟩
      exact unlisted ⟨key, traversed.mem_iff.mpr member, key_eq⟩
  · intro untouched
    rw [if_neg]
    · exact records.untouched name untouched
    · rintro ⟨key, member, rfl⟩
      exact untouched (order_keys key member).2

/-- The destructor gives back the environment exactly if no change was made to a variable that
existed. -/
theorem destroy_eq_initial_iff (initial : Environment) (calls : List Call)
    {order : List (List Char)} (traversed : order.Perm (run initial calls).keys) :
    (run initial calls).destroy order = initial ↔
      ∀ call ∈ calls, call.Succeeds → initial call.name = none := by
  constructor
  · intro restored call member succeeds
    rw [← restored]
    exact (destroy_run initial calls traversed call.name).1 ⟨call, member, succeeds, rfl⟩
  · intro absent
    funext name
    by_cases touched : Touched calls name
    · rw [(destroy_run initial calls traversed name).1 touched]
      obtain ⟨call, member, succeeds, rfl⟩ := touched
      exact (absent call member succeeds).symm
    · exact (destroy_run initial calls traversed name).2 touched

/-- An environment with one variable. -/
def onlyHome : Environment := fun name => if name = "HOME".toList then some "/root".toList else none

/-- A variable that did not exist is set twice and is gone afterwards; another one stays. -/
theorem destroy_eq_initial_fresh :
    (run onlyHome [.set "TMP".toList "a".toList, .set "TMP".toList "b".toList]).destroy
      ["TMP".toList] = onlyHome := by
  refine (destroy_eq_initial_iff onlyHome _ (.of_eq (by decide))).mpr ?_
  intro call member _
  rcases List.mem_pair.mp member with rfl | rfl
  · decide
  · decide

/-- `HOME` is lost where it was set for a time. -/
theorem destroy_loses_home :
    let state := run onlyHome [.set "HOME".toList "/tmp".toList]
    ["HOME".toList].Perm state.keys ∧ onlyHome "HOME".toList = some "/root".toList ∧
      state.destroy ["HOME".toList] "HOME".toList = none := by
  decide

end TemporaryEnvironment
end Fusion
