import Fusion.Argparse.Actions
import Fusion.Argparse.Converters
import Fusion.StringUtil.Split
import Mathlib.Algebra.Group.Nat.Defs

/-!
# Parsing again after a failure

A failed parse resets the found names and the names of commands.  The variables that converters and
actions have written to keep their values, so a second parse starts from what the first one left.
-/

namespace Fusion.Argparse

open Overload

section Retry

variable {ω : Type} (objects : Nat → Leaf ω) (beyond : Char)

/-- The tokens lead through names of commands only, to a parser that refuses what follows: it
requires an object and no token is left, the next token is for none of its objects, or it is for an
argument whose value is missing. -/
inductive Refused : List (Entry ω) → List Token → Prop
  | missing {args} (unmet : ∃ entry ∈ args, entry.required objects = true) : Refused args []
  | unmatched {args token tokens}
      (matched : ∀ entry, Entry.firstMatch objects beyond ∅ token args ≠ .ok (some entry)) :
      Refused args (token :: tokens)
  | valueless {args token tokens id halt}
      (matched : Entry.firstMatch objects beyond ∅ token args = .ok (some (.leaf id)))
      (valued : (objects id).value beyond token tokens = .error halt) :
      Refused args (token :: tokens)
  | command {args token tokens info inner}
      (matched : Entry.firstMatch objects beyond ∅ token args = .ok (some (.command info inner)))
      (below : Refused inner tokens) : Refused args (token :: tokens)

/-- One parse is refused so, or it fails before `Process`. -/
def Overload.Refused (overload : Overload) (args : List (Entry ω)) (tokens : List Token)
    (offset : Nat) : Prop :=
  ∀ processed, overload.processed tokens offset = some processed →
    Argparse.Refused objects beyond args processed

variable {objects : Nat → Leaf ω} {beyond : Char} {path tokens : List Token} {state : State ω}

theorem leave_of_process_error (frame : Frame ω) {ended : State ω} {halt : Halt}
    (processed : process objects beyond path frame.args tokens state = (ended, .error halt)) :
    frame.leave objects (processLoop objects beyond path frame.args tokens state) =
      ((ended, .error halt), []) := by
  unfold process at processed
  split at processed
  · rename_i looped
    cases processed
    rw [looped, Frame.leave]
  · rename_i looped
    obtain ⟨rfl, finished⟩ := Prod.mk.inj processed
    rw [looped]
    simp only [Frame.leave, finished]

variable {args : List (Entry ω)}

/-- A parser that refuses its tokens fails with the variables as they were. -/
theorem Refused.process_eq (refused : Refused objects beyond args tokens) (path : List Token)
    (state : State ω) (fresh : state.found = ∅) :
    ∃ ended halt, process objects beyond path args tokens state = (ended, .error halt) ∧
      ended.world = state.world := by
  induction refused generalizing path state with
  | @missing args unmet =>
    obtain ⟨entry, member, required⟩ := unmet
    cases finished : finish objects args state.found [] with
    | error halt => exact ⟨state, halt, by rw [process, processLoop]; simp only [finished], rfl⟩
    | ok _ =>
      have found := satisfied_of_finish finished entry member required
      exact absurd found (by simp [fresh])
  | @unmatched args token tokens matched =>
    rw [← fresh] at matched
    cases first : Entry.firstMatch objects beyond state.found token args with
    | error halt => exact ⟨state, halt, by rw [process, processLoop_halted first], rfl⟩
    | ok entry =>
      obtain _ | entry := entry
      · cases finished : finish objects args state.found (token :: tokens) with
        | error halt =>
          refine ⟨state, halt, ?_, rfl⟩
          rw [process, processLoop_unmatched first]
          simp only [finished]
        | ok _ => cases remaining_eq_nil_of_finish objects finished
      · exact absurd first (matched entry)
  | @valueless args token tokens id halt matched valued =>
    rw [← fresh] at matched
    have parsed := Leaf.parse_of_value_error valued state.world
    refine ⟨state, halt, ?_, rfl⟩
    rw [process, processLoop_leaf_halted matched (by simp [fresh]) parsed]
  | @command args token tokens info inner matched below ih =>
    rw [← fresh] at matched
    obtain ⟨ended, halt, processed, world_eq⟩ := ih (path ++ [info.name])
      { state with command := Function.update state.command path info.name } fresh
    refine ⟨ended, halt, ?_, world_eq⟩
    rw [process, processLoop_command_eq matched (by simp [fresh]),
      leave_of_process_error { info, args := inner, path := path ++ [info.name] } processed]

theorem processOrReset_failed {failure : Failure}
    (failed : (processOrReset objects beyond args tokens state).2 = .error (.failure failure)) :
    (processOrReset objects beyond args tokens state).1 =
      .fresh (processOrReset objects beyond args tokens state).1.world := by
  cases processed : process objects beyond [] args tokens state with
  | mk ended outcome =>
    cases outcome with
    | ok _ => simp [processOrReset, processed] at failed
    | error halt =>
      cases halt with
      | failure _ =>
        simp only [processOrReset, processed]
        rfl
      | outOfRange => simp [processOrReset, processed] at failed

theorem Overload.Refused.parse_eq {overload : Overload} {args : List (Entry ω)}
    {tokens : List Token} {offset : Nat} {world : ω} {failure : Failure}
    (refused : overload.Refused objects beyond args tokens offset)
    (failed : (overload.parse objects beyond args tokens offset (.fresh world)).2 =
      .error (.failure failure)) :
    (overload.parse objects beyond args tokens offset (.fresh world)).1 = .fresh world := by
  cases processed_eq : overload.processed tokens offset with
  | none =>
    obtain ⟨_, parse_eq⟩ := parse_of_unprocessed processed_eq objects beyond args
    rw [parse_eq]
  | some processed =>
    rw [parse_of_processed processed_eq] at failed ⊢
    obtain ⟨ended, halt, process_eq, world_eq⟩ :=
      (refused processed processed_eq).process_eq [] (.fresh world) rfl
    rw [processOrReset_failed failed, processOrReset, process_eq]
    cases halt <;> exact congrArg State.fresh world_eq

/-! ## Watched programs -/

theorem Refused.watched (refused : Refused objects beyond args tokens) (path : List Token) :
    Refused (watchedObjects objects) beyond (Entry.watchedAll path args) tokens := by
  induction refused generalizing path with
  | missing unmet =>
    obtain ⟨entry, member, required⟩ := unmet
    have same := Entry.required_watched objects path entry
    refine .missing ⟨entry.watched path, ?_, same.trans required⟩
    rw [Entry.watchedAll_eq_map]
    exact List.mem_map_of_mem member
  | @unmatched args token tokens matched =>
    refine .unmatched fun entry first => ?_
    rw [Entry.firstMatch_watched] at first
    cases original : Entry.firstMatch objects beyond ∅ token args with
    | error halt => simp [original, Except.map] at first
    | ok found =>
      obtain _ | found := found
      · simp [original, Except.map] at first
      · exact matched found original
  | valueless matched valued =>
    exact .valueless (Entry.firstMatch_watched_eq path matched) valued
  | command matched below ih =>
    exact .command (Entry.firstMatch_watched_eq path matched) (ih _)

/-- The same success or failure, with the same variables and found names. -/
def Agree (left right : State ω × Except Halt Unit) : Prop :=
  (left.2 = .ok () ↔ right.2 = .ok ()) ∧ left.1.world = right.1.world ∧ left.1.found = right.1.found

end Retry

/-! ## Containers -/

end Fusion.Argparse
