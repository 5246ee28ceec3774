import Fusion.Argparse.Builder
import Fusion.Argparse.Segments

/-!
# Required objects

What was found is remembered by name, in one set at the root, so a required object counts as found
as soon as any object of its name is.  The name of a command is marked after its own parser has
checked what it requires.  After a successful parse every required object has taken a segment
itself, unless a parser above or below has another object of its name, other than a command around
it.
-/

namespace Fusion.Argparse

open Builder

section Required

variable {ω : Type}

/-- The entry as an object, in the parser behind `path`. -/
def Entry.entryId (path : List Token) : Entry ω → EntryId
  | .leaf id => .leaf id
  | .command info _ => .command (path ++ [info.name])

/-- From one parser another one is visited, by way of commands that were entered. -/
inductive Visited (consumers : List EntryId) :
    List Token → List (Entry ω) → List Token → List (Entry ω) → Prop
  | here {path args} : Visited consumers path args path args
  | inside {path args info inner path' args'} (member : .command info inner ∈ args)
      (entered : .command (path ++ [info.name]) ∈ consumers)
      (deeper : Visited consumers (path ++ [info.name]) inner path' args') :
      Visited consumers path args path' args'

/-- From one parser another one is reached, by way of commands of the tree. -/
inductive Within : List Token → List (Entry ω) → List Token → List (Entry ω) → Prop
  | here {path args} : Within path args path args
  | inside {path args info inner path' args'} (member : .command info inner ∈ args)
      (deeper : Within (path ++ [info.name]) inner path' args') : Within path args path' args'

/-- The entry of the parser behind `path` is a command around the parser behind `chain`. -/
def Entry.Encloses (path chain : List Token) : Entry ω → Prop
  | .leaf _ => False
  | .command info _ => path ++ [info.name] <+: chain

/-- The names of all required entries were found. -/
def Satisfied (objects : Nat → Leaf ω) (args : List (Entry ω)) (found : Finset Token) : Prop :=
  ∀ entry ∈ args, entry.required objects = true → entry.name objects ∈ found

/-- An object of the name, other than a command around the parser behind `chain`, took a segment. -/
def Taken (objects : Nat → Leaf ω) (consumers : List EntryId) (path : List Token)
    (args : List (Entry ω)) (chain : List Token) (name : Token) : Prop :=
  ∃ path' args' entry, Visited consumers path args path' args' ∧ entry ∈ args' ∧
    entry.entryId path' ∈ consumers ∧ entry.name objects = name ∧ ¬entry.Encloses path' chain

/-! ## Which parsers are visited -/

namespace Visited

variable {path path' : List Token} {args args' : List (Entry ω)} {consumers more : List EntryId}

theorem mono (visited : Visited consumers path args path' args') (subset : consumers ⊆ more) :
    Visited more path args path' args' := by
  induction visited with
  | here => exact .here
  | inside member entered deeper ih => exact .inside member (subset entered) ih

theorem within (visited : Visited consumers path args path' args') :
    Within path args path' args' := by
  induction visited with
  | here => exact .here
  | inside member entered deeper ih => exact .inside member ih

end Visited

namespace Taken

variable {objects : Nat → Leaf ω} {path chain : List Token} {args inner : List (Entry ω)}
  {consumers more : List EntryId} {name : Token} {info : Command ω}

theorem mono (taken : Taken objects consumers path args chain name) (subset : consumers ⊆ more) :
    Taken objects more path args chain name := by
  obtain ⟨path', args', entry, visited, member, took, rest⟩ := taken
  exact ⟨path', args', entry, visited.mono subset, member, subset took, rest⟩

theorem outside (taken : Taken objects consumers (path ++ [info.name]) inner chain name)
    (member : .command info inner ∈ args) (entered : .command (path ++ [info.name]) ∈ consumers) :
    Taken objects consumers path args chain name := by
  obtain ⟨path', args', entry, visited, rest⟩ := taken
  exact ⟨path', args', entry, .inside member entered visited, rest⟩

end Taken

/-! ## What a successful loop has found -/

variable {objects : Nat → Leaf ω} {beyond : Char} {args : List (Entry ω)} {found : Finset Token}

/-- `Process` ends well only where every required entry counts as found. -/
theorem satisfied_of_finish {remaining : List Token}
    (finished : finish objects args found remaining = .ok ()) : Satisfied objects args found := by
  unfold finish at finished
  split at finished
  · cases finished
  · rename_i none_missing
    intro entry member required
    have present := List.find?_eq_none.mp none_missing entry member
    simpa [required] using present

variable {token : Token}

theorem FirstMatch.mem {entry : Entry ω}
    (first : FirstMatch objects beyond found args token entry) : entry ∈ args := by
  obtain ⟨front, back, rfl, -, -⟩ := first
  simp

variable {consumers : List EntryId} {final : Finset Token} {path : List Token}

variable {tokens : List Token}

section

variable (splits : Splits objects beyond path args found tokens consumers final)
include splits

theorem Splits.name_mem {name : Token} (member : name ∈ final) :
    name ∈ found ∨ ∃ path' args' entry, Visited consumers path args path' args' ∧ entry ∈ args' ∧
      entry.entryId path' ∈ consumers ∧ entry.name objects = name := by
  induction splits with
  | nil => exact .inl member
  | @leaf path args found id token more rest consumers final first fresh taken others ih =>
    rcases ih member with before | ⟨path', args', entry, visited, entry_mem, took, name_eq⟩
    · rcases Finset.mem_insert.mp before with same | earlier
      · exact .inr ⟨path, args, .leaf id, .here, first.mem, List.mem_cons_self, same.symm⟩
      · exact .inl earlier
    · exact .inr ⟨path', args', entry, visited.mono (List.subset_cons_self _ _), entry_mem,
        List.mem_cons_of_mem _ took, name_eq⟩
  | @command path args found info inner token rest consumers final first fresh others ih =>
    have entered : EntryId.command (path ++ [info.name]) ∈
        consumers ++ [.command (path ++ [info.name])] :=
      List.mem_append_right _ (List.mem_singleton.mpr rfl)
    rcases Finset.mem_insert.mp member with same | inner_mem
    · exact .inr ⟨path, args, .command info inner, .here, first.mem, entered, same.symm⟩
    · rcases ih inner_mem with before | ⟨path', args', entry, visited, entry_mem, took, name_eq⟩
      · exact .inl before
      · exact .inr ⟨path', args', entry,
          .inside first.mem entered (visited.mono (List.subset_append_left _ _)), entry_mem,
          List.mem_append_left _ took, name_eq⟩

theorem Splits.taken {name : Token} (member : name ∈ final) :
    name ∈ found ∨ Taken objects consumers path args path name := by
  rcases splits.name_mem member with before | ⟨path', args', entry, visited, entry_mem, took, eq⟩
  · exact .inl before
  · refine .inr ⟨path', args', entry, visited, entry_mem, took, eq, ?_⟩
    cases entry with
    | leaf id => exact fun impossible => impossible
    | command info inner =>
      intro encloses
      exact absurd encloses.length_le (Nat.not_le.mpr (splits.length_lt_of_command_mem took))

end

end Required

def insertionSorter {ω : Type} : Sorter ω := Sorting.insertion _

/-- A value that takes every text and keeps none. -/
def ignored : Binding Unit := { convert := fun _ world => (world, .ok ()) }

end Fusion.Argparse
