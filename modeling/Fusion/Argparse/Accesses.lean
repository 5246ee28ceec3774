import Fusion.Argparse.Parser

/-!
# Accesses to the characters of a token

`ArgumentBase::Match` and `ArgumentImpl::Parse` read single characters of a token and cut off its
front.  The functions are repeated here with the accesses that they make.
-/

namespace Fusion.Argparse

/-- An access to a string view of some size. -/
inductive Access
  | read (size index : Nat)
  /-- `substr` from a position on. -/
  | cut (size position : Nat)
deriving DecidableEq

def Access.InBounds : Access → Prop
  | .read size index => index < size
  | .cut size position => position ≤ size

instance : (access : Access) → Decidable access.InBounds
  | .read _ _ => inferInstanceAs (Decidable (_ < _))
  | .cut _ _ => inferInstanceAs (Decidable (_ ≤ _))

variable {ω : Type} {arg : Token}

namespace Leaf

/-- `Matcher`, with its accesses. -/
def matcherAccesses (beyond : Char) (input param : Token) : Except Halt Bool × List Access :=
  if param = [] then (.ok false, [])
  else if input.getD 1 beyond ≠ '-' then (.ok false, [.read input.length 1])
  else
    let accesses := [.read input.length 1, .cut input.length 2]
    match substr input 2 with
    | .error halt => (.error halt, accesses)
    | .ok input =>
      if param = input then (.ok true, accesses)
      else
        match input.idxOf? '=' with
        | some equal => (.ok (param == input.take equal), accesses ++ [.cut input.length 0])
        | none => (.ok false, accesses)

/-- `ArgumentBase::Match`, with its accesses. -/
def matchBaseAccesses {ω : Type} (beyond : Char) (leaf : Leaf ω) (arg : Token) :
    Except Halt Bool × List Access :=
  if arg = [] then (.ok false, [])
  else if arg.head? ≠ some '-' then (.ok false, [.read arg.length 0])
  else
    let accesses :=
      if leaf.flag.isSome ∧ arg.length = 2 then [.read arg.length 0, .read arg.length 1]
      else [.read arg.length 0]
    if leaf.flag.isSome ∧ arg.length = 2 ∧ arg[1]? = leaf.flag then (.ok true, accesses)
    else
      match matcherAccesses beyond arg leaf.name with
      | (.ok false, named) =>
        let (decided, aliased) := matcherAccesses beyond arg leaf.aliasName
        (decided, accesses ++ named ++ aliased)
      | (decided, named) => (decided, accesses ++ named)

/-- The choice of the text in `ArgumentImpl::Parse`, with its accesses to the first token. -/
def valueAccesses (beyond : Char) (arg : Token) (args : List Token) :
    Except Halt (Token × Nat) × List Access :=
  let next :=
    match args with
    | [] => fail "no remaining arguments to parse"
    | next :: _ => .ok (next, 1)
  if arg.getD 1 beyond = '-' then
    match arg.idxOf? '=' with
    | some equal =>
      ((substr arg (equal + 1)).map (·, 0), [.read arg.length 1, .cut arg.length (equal + 1)])
    | none => (next, [.read arg.length 1])
  else if arg.length ≠ 2 then
    ((substr arg 2).map (·, 0), [.read arg.length 1, .cut arg.length 2])
  else (next, [.read arg.length 1])

variable (beyond : Char) (leaf : Leaf ω)

theorem matcherAccesses_fst (input param : Token) :
    (matcherAccesses beyond input param).1 = matcher beyond input param := by
  rw [matcherAccesses, matcher]
  by_cases empty : param = []
  · simp [empty]
  by_cases dash : input.getD 1 beyond = '-'
  case neg => rw [if_neg empty, if_pos dash, if_pos (.inr dash)]
  simp only [empty, dash, false_or, not_true_eq_false, if_false, ne_eq]
  cases substr input 2 with
  | error halt => rfl
  | ok cut =>
    dsimp only
    split
    · rfl
    · cases cut.idxOf? '=' with
      | none => rfl
      | some equal => rfl

theorem matchBaseAccesses_fst (arg : Token) :
    (leaf.matchBaseAccesses beyond arg).1 = leaf.matchBase beyond arg := by
  rw [matchBaseAccesses, matchBase]
  by_cases empty : arg = []
  · simp [empty]
  rw [if_neg empty]
  by_cases dash : arg.head? = some '-'
  case neg => simp [dash]
  rw [if_neg (not_not.mpr dash), if_neg (not_not.mpr dash)]
  dsimp only
  by_cases short : leaf.flag.isSome ∧ arg.length = 2 ∧ arg[1]? = leaf.flag
  · rw [if_pos short, if_pos short]
  rw [if_neg short, if_neg short, ← matcherAccesses_fst, ← matcherAccesses_fst]
  rcases matcherAccesses beyond arg leaf.name with ⟨halt | matched, named⟩
  · rfl
  · cases matched with
    | true => rfl
    | false => rfl

theorem valueAccesses_fst (arg : Token) (args : List Token) :
    (valueAccesses beyond arg args).1 = valueOf beyond arg args := by
  rw [valueAccesses.eq_def, valueOf.eq_def]
  dsimp only
  split
  · cases arg.idxOf? '=' with
    | none => rfl
    | some equal => rfl
  · split
    · rfl
    · rfl

/-! ## Bounds -/

theorem matcherAccesses_inBounds {beyond : Char} {input param : Token} (long : 2 ≤ input.length) :
    ∀ access ∈ (matcherAccesses beyond input param).2, access.InBounds := by
  have read_inBounds : (Access.read input.length 1).InBounds := long
  have cut_inBounds : (Access.cut input.length 2).InBounds := long
  rw [matcherAccesses]
  split
  · simp
  split
  · simpa using read_inBounds
  dsimp only
  split
  · simpa using ⟨read_inBounds, cut_inBounds⟩
  · rename_i cut _
    have rest_inBounds : (Access.cut cut.length 0).InBounds := Nat.zero_le _
    split
    · simpa using ⟨read_inBounds, cut_inBounds⟩
    split
    · simpa using ⟨read_inBounds, cut_inBounds, rest_inBounds⟩
    · simpa using ⟨read_inBounds, cut_inBounds⟩

theorem valueAccesses_inBounds {beyond : Char} (args : List Token) (long : 2 ≤ arg.length) :
    ∀ access ∈ (valueAccesses beyond arg args).2, access.InBounds := by
  have read_inBounds : (Access.read arg.length 1).InBounds := long
  have cut_inBounds : (Access.cut arg.length 2).InBounds := long
  rw [valueAccesses.eq_def]
  dsimp only
  split
  · split
    · rename_i equal found
      have equal_inBounds : (Access.cut arg.length (equal + 1)).InBounds :=
        (List.findIdx?_eq_some_iff_findIdx_eq.mp found).1
      simpa using ⟨read_inBounds, equal_inBounds⟩
    · simpa using read_inBounds
  · split
    · simpa using ⟨read_inBounds, cut_inBounds⟩
    · simpa using read_inBounds

theorem matcherAccesses_dash {beyond : Char} {param : Token} :
    (∀ access ∈ (matcherAccesses beyond ['-'] param).2, access.InBounds) ↔ param = [] := by
  have read_outside : ¬ (Access.read 1 1).InBounds := Nat.lt_irrefl 1
  rw [matcherAccesses]
  by_cases empty : param = []
  · simp [empty]
  rw [if_neg empty]
  refine iff_of_false (fun inside => read_outside (inside _ ?_)) empty
  split
  · exact List.mem_cons_self
  · dsimp only
    split
    · exact List.mem_cons_self
    split
    · exact List.mem_cons_self
    split
    · exact List.mem_cons_self
    · exact List.mem_cons_self

theorem matchBaseAccesses_dash :
    (∀ access ∈ (leaf.matchBaseAccesses beyond ['-']).2, access.InBounds) ↔
      leaf.name = [] ∧ leaf.aliasName = [] := by
  have front_inBounds : (Access.read 1 0).InBounds := Nat.zero_lt_one
  have named_iff := @matcherAccesses_dash beyond leaf.name
  have aliased_iff := @matcherAccesses_dash beyond leaf.aliasName
  rw [matchBaseAccesses, if_neg (by decide), if_neg (by decide)]
  dsimp only
  rw [if_neg (by simp), if_neg (by simp)]
  split
  · rename_i named named_eq
    rw [named_eq] at named_iff
    rw [← named_iff, ← aliased_iff]
    simp only [List.mem_append, List.length_singleton, List.mem_singleton]
    constructor
    · intro inside
      exact ⟨fun access member => inside access (.inl (.inr member)),
        fun access member => inside access (.inr member)⟩
    · rintro ⟨inside, inside'⟩ access ((rfl | member) | member)
      · exact front_inBounds
      · exact inside access member
      · exact inside' access member
  · rename_i decided named not_false named_eq
    rw [named_eq] at named_iff
    have name_ne : leaf.name ≠ [] := by
      intro empty
      rw [matcherAccesses, if_pos empty] at named_eq
      exact not_false (congrArg Prod.fst named_eq).symm
    refine iff_of_false (fun inside => name_ne (named_iff.mp ?_)) fun both => name_ne both.1
    exact fun access member => inside access (List.mem_append_right _ member)

/-- A token with two characters or more is matched within its bounds. -/
theorem matchBaseAccesses_inBounds (not_dash : arg ≠ ['-']) :
    ∀ access ∈ (leaf.matchBaseAccesses beyond arg).2, access.InBounds := by
  rw [matchBaseAccesses]
  by_cases empty : arg = []
  · simp [empty]
  rw [if_neg empty]
  have front_inBounds : (Access.read arg.length 0).InBounds := List.length_pos_iff.mpr empty
  by_cases dash : arg.head? = some '-'
  case neg => simpa [dash] using front_inBounds
  have long : 2 ≤ arg.length := by
    match arg with
    | [] => exact absurd rfl empty
    | [first] =>
      obtain rfl : first = '-' := by simpa using dash
      exact absurd rfl not_dash
    | _ :: _ :: _ => simp
  have second_inBounds : (Access.read arg.length 1).InBounds := long
  rw [if_neg (not_not.mpr dash)]
  dsimp only
  have accesses_inBounds : ∀ access ∈
      (if leaf.flag.isSome ∧ arg.length = 2 then [Access.read arg.length 0, .read arg.length 1]
      else [Access.read arg.length 0]), access.InBounds := by
    split
    · simpa using ⟨front_inBounds, second_inBounds⟩
    · simpa using front_inBounds
  have named_inBounds := @matcherAccesses_inBounds beyond arg leaf.name long
  have aliased_inBounds := @matcherAccesses_inBounds beyond arg leaf.aliasName long
  split
  · exact accesses_inBounds
  split
  · rename_i named named_eq
    rw [named_eq] at named_inBounds
    simp only [List.forall_mem_append]
    exact ⟨⟨accesses_inBounds, named_inBounds⟩, aliased_inBounds⟩
  · rename_i decided named _ named_eq
    rw [named_eq] at named_inBounds
    exact List.forall_mem_append.mpr ⟨accesses_inBounds, named_inBounds⟩

end Leaf

theorem Leaf.two_le_length_of_matchBase {beyond : Char} {leaf : Leaf ω}
    (not_dash : ¬ (arg = ['-'] ∧ (leaf.name ≠ [] ∨ leaf.aliasName ≠ [])))
    (matched : leaf.matchBase beyond arg = .ok true) : 2 ≤ arg.length := by
  match arg with
  | [] => cases matched
  | _ :: _ :: _ => simp
  | [first] =>
    rw [matchBase] at matched
    by_cases dash : first = '-'
    · subst dash
      have unnamed : leaf.name = [] ∧ leaf.aliasName = [] := by
        simpa [not_or] using not_dash
      simp [unnamed, matcher] at matched
    · simp [dash] at matched

/-- `Match` and the `Parse` after it stay within a token, except for a single dash that is held
against a name. -/
theorem accesses_inBounds_iff {ω : Type} (beyond : Char) (leaf : Leaf ω) (arg : Token)
    (args : List Token) :
    (leaf.matchBaseAccesses beyond arg).1 = leaf.matchBase beyond arg ∧
    (Leaf.valueAccesses beyond arg args).1 = Leaf.valueOf beyond arg args ∧
    ((∀ access ∈ (leaf.matchBaseAccesses beyond arg).2, access.InBounds) ∧
        (leaf.matchBase beyond arg = .ok true →
          ∀ access ∈ (Leaf.valueAccesses beyond arg args).2, access.InBounds) ↔
      ¬ (arg = ['-'] ∧ (leaf.name ≠ [] ∨ leaf.aliasName ≠ []))) := by
  refine ⟨leaf.matchBaseAccesses_fst beyond arg, Leaf.valueAccesses_fst beyond arg args, ?_, ?_⟩
  · rintro ⟨inside, -⟩ ⟨rfl, named⟩
    obtain ⟨no_name, no_alias⟩ := (leaf.matchBaseAccesses_dash beyond).mp inside
    cases named with
    | inl name_ne => exact name_ne no_name
    | inr alias_ne => exact alias_ne no_alias
  · intro not_dash
    constructor
    · by_cases dash : arg = ['-']
      · subst dash
        refine (leaf.matchBaseAccesses_dash beyond).mpr ?_
        simpa [not_or] using not_dash
      · exact leaf.matchBaseAccesses_inBounds beyond dash
    · intro matched
      exact Leaf.valueAccesses_inBounds args (Leaf.two_le_length_of_matchBase not_dash matched)

/-- An option named `v` reads the second character of a single dash. -/
theorem accesses_outside :
    Access.read 1 1 ∈ (({ type := .option, name := ['v'], convert := fun _ world =>
        (world, .ok ()) } : Leaf Unit).matchBaseAccesses 'x' ['-']).2 ∧
      ¬ (Access.read 1 1).InBounds := by
  decide

end Fusion.Argparse
