import Fusion.Argparse.Parser

/-!
# How a successful parse uses up its tokens

A successful parse cuts the token list into segments, one after the other, each taken by the first
entry that matches its first token.  The segment of a command is all that is left, and is cut in
the same way after its name by the entries of the command.
-/

namespace Fusion.Argparse

/-- An entry as an object: a shared one by its identity, a command by the chain of names that leads
to it. -/
inductive EntryId
  | leaf (id : Nat)
  | command (path : List Token)
deriving DecidableEq

section Segments

variable {ω : Type} (objects : Nat → Leaf ω) (beyond : Char)

/-- Whether the object takes several segments. -/
def EntryId.isSequence : EntryId → Bool
  | .leaf id => (objects id).isSequence
  | .command _ => false

/-- The first entry of the list that matches the token. -/
def FirstMatch (found : Finset Token) (args : List (Entry ω)) (token : Token) (entry : Entry ω) :
    Prop :=
  ∃ front back, args = front ++ entry :: back ∧
    (∀ other ∈ front, other.matchToken objects beyond found token = .ok false) ∧
    entry.matchToken objects beyond found token = .ok true

/-- The tokens fall into segments taken by `consumers`, in the parser behind `path`. -/
inductive Splits : List Token → List (Entry ω) → Finset Token → List Token → List EntryId →
    Finset Token → Prop
  | nil {path args found} : Splits path args found [] [] found
  | leaf {path args found id token more rest consumers final}
      (first : FirstMatch objects beyond found args token (.leaf id))
      (fresh : (objects id).isSequence = false → (objects id).name ∉ found)
      (taken : ∃ before after,
        (objects id).parse beyond token (more ++ rest) before = (after, .ok more.length))
      (others : Splits path args (insert (objects id).name found) rest consumers final) :
      Splits path args found ((token :: more) ++ rest) (.leaf id :: consumers) final
  | command {path args found info inner token rest consumers final}
      (first : FirstMatch objects beyond found args token (.command info inner))
      (fresh : info.name ∉ found)
      (others : Splits (path ++ [info.name]) inner found rest consumers final) :
      Splits path args found (token :: rest) (consumers ++ [.command (path ++ [info.name])])
        (insert info.name final)

variable {args : List (Entry ω)} {found : Finset Token}

theorem firstMatch_eq_some {objects : Nat → Leaf ω} {beyond : Char} {token : Token}
    {entry : Entry ω}
    (matched : Entry.firstMatch objects beyond found token args = .ok (some entry)) :
    FirstMatch objects beyond found args token entry := by
  induction args with
  | nil => cases matched
  | cons head args ih =>
    cases decided : head.matchToken objects beyond found token with
    | error halt => simp [Entry.firstMatch, decided] at matched
    | ok matches_head =>
      cases matches_head with
      | true =>
        simp only [Entry.firstMatch, decided, Except.ok.injEq, Option.some.injEq] at matched
        subst matched
        exact ⟨[], args, rfl, nofun, decided⟩
      | false =>
        simp only [Entry.firstMatch, decided] at matched
        obtain ⟨front, back, rfl, earlier, last⟩ := ih matched
        refine ⟨head :: front, back, rfl, ?_, last⟩
        intro other member
        cases List.mem_cons.mp member with
        | inl same => exact same ▸ decided
        | inr below => exact earlier other below

theorem Leaf.more_le_of_valueOf {beyond : Char} {arg : Token} {args : List Token}
    {value : Token × Nat} (valued : Leaf.valueOf beyond arg args = .ok value) :
    value.2 ≤ args.length := by
  have substr_zero : ∀ {text : Token} {position : Nat},
      (substr text position).map (·, 0) = .ok value → value.2 = 0 := by
    intro text position mapped
    cases cut : substr text position with
    | error halt => rw [cut] at mapped; cases mapped
    | ok rest => rw [cut] at mapped; cases mapped; rfl
  unfold valueOf at valued
  split at valued
  · split at valued
    · exact (substr_zero valued).le.trans (Nat.zero_le _)
    · cases args with
      | nil => cases valued
      | cons token args => cases valued; exact Nat.succ_le_succ (Nat.zero_le _)
  · split at valued
    · exact (substr_zero valued).le.trans (Nat.zero_le _)
    · cases args with
      | nil => cases valued
      | cons token args => cases valued; exact Nat.succ_le_succ (Nat.zero_le _)

theorem Leaf.more_le_length {leaf : Leaf ω} {beyond : Char} {arg : Token} {args : List Token}
    {before after : ω} {more : Nat}
    (parsed : leaf.parse beyond arg args before = (after, .ok more)) : more ≤ args.length := by
  unfold parse at parsed
  dsimp only at parsed
  split at parsed
  · cases parsed
  · rename_i text count value_eq
    have count_le : count ≤ args.length := by
      cases type_eq : leaf.type with
      | argument =>
        rw [type_eq] at value_eq
        exact Leaf.more_le_of_valueOf value_eq
      | option =>
        rw [type_eq] at value_eq
        cases value_eq
        exact Nat.zero_le _
      | positional =>
        rw [type_eq] at value_eq
        cases value_eq
        exact Nat.zero_le _
    split at parsed
    · cases parsed
    · cases parsed
      exact count_le

/-- `Process` ends well only where no token is left. -/
theorem remaining_eq_nil_of_finish {remaining : List Token}
    (finished : finish objects args found remaining = .ok ()) : remaining = [] := by
  unfold finish at finished
  split at finished
  · cases finished
  · cases remaining with
    | nil => rfl
    | cons token remaining => cases finished

theorem splits_leaf_of_parse {objects : Nat → Leaf ω} {beyond : Char} {path : List Token}
    {args : List (Entry ω)} {found final : Finset Token} {id more : Nat} {token : Token}
    {tokens : List Token} {consumers : List EntryId} {before after : ω}
    (first : FirstMatch objects beyond found args token (.leaf id))
    (fresh : (objects id).isSequence = false → (objects id).name ∉ found)
    (parsed : (objects id).parse beyond token tokens before = (after, .ok more))
    (others : Splits objects beyond path args (insert (objects id).name found) (tokens.drop more)
      consumers final) :
    Splits objects beyond path args found (token :: tokens) (.leaf id :: consumers) final := by
  have length_eq : (tokens.take more).length = more :=
    List.length_take_of_le (Leaf.more_le_length parsed)
  have taken : (objects id).parse beyond token (tokens.take more ++ tokens.drop more) before =
      (after, .ok (tokens.take more).length) := by
    rw [List.take_append_drop, length_eq]
    exact parsed
  have split := Splits.leaf first fresh ⟨before, after, taken⟩ others
  rwa [List.cons_append, List.take_append_drop] at split

variable {path tokens : List Token}

theorem splits_of_processLoop {objects : Nat → Leaf ω} {beyond : Char} {before after : State ω}
    (processed : processLoop objects beyond path args tokens before = (after, .ok [])) :
    ∃ consumers, Splits objects beyond path args before.found tokens consumers after.found := by
  fun_induction processLoop objects beyond path args tokens before generalizing after with
  | case1 path args state =>
    cases processed
    exact ⟨[], .nil⟩
  | case2 => cases processed
  | case3 => cases processed
  | case4 => cases processed
  | case5 => cases processed
  | case6 path args state token tokens id world more parsed matched unduplicated ih =>
    obtain ⟨consumers, others⟩ := ih processed
    exact ⟨.leaf id :: consumers, splits_leaf_of_parse (firstMatch_eq_some matched)
      (fun single found => unduplicated ⟨found, single⟩) parsed others⟩
  | case7 => cases processed
  | case8 => cases processed
  | case9 => cases processed
  | case10 path args state token tokens info inner entered ended remaining looped finished world
      acted matched unduplicated =>
      rename_i ih
      cases processed
      obtain rfl := remaining_eq_nil_of_finish objects finished
      obtain ⟨consumers, others⟩ := ih looped
      exact ⟨_, .command (firstMatch_eq_some matched) (fun found => unduplicated ⟨found, rfl⟩)
        others⟩

variable {consumers : List EntryId} {final : Finset Token}

theorem Splits.fresh_of_leaf_mem {objects : Nat → Leaf ω} {beyond : Char}
    (splits : Splits objects beyond path args found tokens consumers final) {id : Nat}
    (member : .leaf id ∈ consumers) (single : (objects id).isSequence = false) :
    (objects id).name ∉ found := by
  induction splits with
  | nil => cases member
  | leaf first fresh taken others ih =>
    cases List.mem_cons.mp member with
    | inl same =>
      cases same
      exact fresh single
    | inr later =>
      intro already
      exact ih later (Finset.mem_insert_of_mem already)
  | command first fresh others ih =>
    cases List.mem_append.mp member with
    | inl earlier => exact ih earlier
    | inr last => cases List.mem_singleton.mp last

theorem Splits.prefix_of_command_mem {objects : Nat → Leaf ω} {beyond : Char}
    (splits : Splits objects beyond path args found tokens consumers final) {chain : List Token}
    (member : .command chain ∈ consumers) : ∃ name, path ++ [name] <+: chain := by
  induction splits with
  | nil => cases member
  | leaf first fresh taken others ih =>
    cases List.mem_cons.mp member with
    | inl same => cases same
    | inr later => exact ih later
  | @command path args found info inner token rest consumers final first fresh others ih =>
    refine ⟨info.name, ?_⟩
    cases List.mem_append.mp member with
    | inl earlier =>
      obtain ⟨name, deeper⟩ := ih earlier
      exact (List.prefix_append _ _).trans deeper
    | inr last =>
      cases List.mem_singleton.mp last
      exact List.prefix_refl _

theorem Splits.length_lt_of_command_mem {objects : Nat → Leaf ω} {beyond : Char}
    (splits : Splits objects beyond path args found tokens consumers final) {chain : List Token}
    (member : .command chain ∈ consumers) : path.length < chain.length := by
  obtain ⟨name, deeper⟩ := splits.prefix_of_command_mem member
  have length_le := deeper.length_le
  rwa [List.length_append, List.length_singleton] at length_le

theorem Splits.count_le_one {objects : Nat → Leaf ω} {beyond : Char}
    (splits : Splits objects beyond path args found tokens consumers final) (entry : EntryId)
    (single : entry.isSequence objects = false) : consumers.count entry ≤ 1 := by
  induction splits with
  | nil => exact Nat.zero_le _
  | @leaf path args found id token more rest consumers final first fresh taken others ih =>
    by_cases same : entry = .leaf id
    · subst same
      have absent : EntryId.leaf id ∉ consumers := by
        intro later
        exact others.fresh_of_leaf_mem later single (Finset.mem_insert_self ..)
      rw [List.count_cons_self, List.count_eq_zero_of_not_mem absent]
    · rw [List.count_cons_of_ne (Ne.symm same)]
      exact ih
  | @command path args found info inner token rest consumers final first fresh others ih =>
    by_cases same : entry = .command (path ++ [info.name])
    · subst same
      have absent : EntryId.command (path ++ [info.name]) ∉ consumers := by
        intro earlier
        exact Nat.lt_irrefl _ (others.length_lt_of_command_mem earlier)
      rw [List.count_append, List.count_eq_zero_of_not_mem absent, List.count_singleton_self]
    · rw [List.count_append, List.count_singleton, beq_false_of_ne (Ne.symm same)]
      exact ih

/-- The tokens are split among the entries of a fresh parser. -/
def SplitsOnce (args : List (Entry ω)) (tokens : List Token) : Prop :=
  ∃ consumers final, Splits objects beyond [] args ∅ tokens consumers final ∧
    ∀ entry : EntryId, entry.isSequence objects = false → consumers.count entry ≤ 1

theorem processLoop_of_processOrReset {objects : Nat → Leaf ω} {beyond : Char} {state : State ω}
    (succeeded : (processOrReset objects beyond args tokens state).2 = .ok ()) :
    ∃ after, processLoop objects beyond [] args tokens state = (after, .ok []) ∧
      finish objects args after.found [] = .ok () := by
  cases looped : processLoop objects beyond [] args tokens state with
  | mk after result =>
    cases result with
    | error halt =>
      cases halt with
      | failure failure => simp [processOrReset, process, looped] at succeeded
      | outOfRange => simp [processOrReset, process, looped] at succeeded
    | ok remaining =>
      have finished : finish objects args after.found remaining = .ok () := by
        simp only [processOrReset, process, looped] at succeeded
        split at succeeded
        · cases succeeded
        · exact succeeded
      obtain rfl := remaining_eq_nil_of_finish objects finished
      exact ⟨after, rfl, finished⟩

theorem splitsOnce_of_processOrReset {objects : Nat → Leaf ω} {beyond : Char} {state : State ω}
    (fresh : state.found = ∅)
    (succeeded : (processOrReset objects beyond args tokens state).2 = .ok ()) :
    SplitsOnce objects beyond args tokens := by
  obtain ⟨after, looped, -⟩ := processLoop_of_processOrReset succeeded
  obtain ⟨consumers, splits⟩ := splits_of_processLoop looped
  rw [fresh] at splits
  exact ⟨consumers, after.found, splits, splits.count_le_one⟩

/-- A parse that succeeds on a fresh parser has split all of its tokens among first matches. -/
theorem splitsOnce_of_parse {objects : Nat → Leaf ω} {beyond : Char} {args : List (Entry ω)}
    {tokens : List Token} {offset : Nat} {state : State ω} (fresh : state.found = ∅)
    (succeeded : (parse objects beyond args tokens offset state).2 = .ok () ∨
      (parseSpan objects beyond args tokens offset state).2 = .ok ()) :
    SplitsOnce objects beyond args (tokens.drop offset) := by
  cases succeeded with
  | inl vector =>
    unfold parse at vector
    split at vector
    · cases vector
    · exact splitsOnce_of_processOrReset fresh vector
  | inr span =>
    unfold parseSpan at span
    split at span
    · cases span
    · exact splitsOnce_of_processOrReset fresh span

end Segments

/-- An argument `level`, an option `verbose` and a positional `file`, which take every text. -/
def sampleObjects : Nat → Leaf Unit
  | 0 => { type := .argument, name := "level".toList, convert := fun _ _ => ((), .ok ()) }
  | 1 => { type := .option, name := "verbose".toList, flag := some 'v',
           convert := fun _ _ => ((), .ok ()) }
  | _ => { type := .positional, name := "file".toList, required := true,
           convert := fun _ _ => ((), .ok ()) }

/-- A parser with a command `copy` that inherits the argument and the option. -/
def sampleArgs : List (Entry Unit) :=
  [.leaf 0, .command { name := "copy".toList } [.leaf 0, .leaf 1, .leaf 2], .leaf 1]

theorem splitsOnce_of_parse_copy :
    SplitsOnce sampleObjects '-' sampleArgs
      ["--level".toList, "3".toList, "copy".toList, "-v".toList, "--".toList] := by
  have succeeded : (parse sampleObjects '-' sampleArgs
      ["app".toList, "--level".toList, "3".toList, "copy".toList, "-v".toList, "--".toList] 1
      { world := () }).2 = .ok () := by
    decide +kernel
  exact splitsOnce_of_parse rfl (.inl succeeded)

end Fusion.Argparse
