import Mathlib.Data.List.Basic
import Mathlib.Logic.Function.Iterate

/-!
# Unrolled rounds with renamed registers

A round function computes one new value and moves every register on by one place.  Unrolled code
leaves the registers where they are and renames them from line to line instead.  After as many
lines as there are registers the names are back where they were, and both have done the same.
-/

namespace Rotation

/-- Each line is the one before it, seen through one more turn of the registers. -/
def Renames {ρ κ : Type*} (turn : ρ → ρ) (lines : List (κ → ρ → ρ)) : Prop :=
  lines.IsChain fun line next =>
    ∀ key registers, turn (next key registers) = line key (turn registers)

/-- Run the lines in order, each with its key. -/
def unrolled {ρ κ : Type*} (lines : List (κ → ρ → ρ)) (keys : List κ) (registers : ρ) : ρ :=
  (lines.zip keys).foldl (fun registers call => call.1 call.2 registers) registers

/-- Run one line for every key, and turn the registers after it. -/
def rolled {ρ κ : Type*} (turn : ρ → ρ) (line : κ → ρ → ρ) (keys : List κ) (registers : ρ) : ρ :=
  keys.foldl (fun registers key => turn (line key registers)) registers

/-- Turning the registers first is running the line before in the place of the next one. -/
theorem turn_rolled {ρ κ : Type*} {turn : ρ → ρ} {line next : κ → ρ → ρ}
    (renamed : ∀ key registers, turn (next key registers) = line key (turn registers))
    (keys : List κ) (registers : ρ) :
    turn (rolled turn next keys registers) = rolled turn line keys (turn registers) := by
  induction keys generalizing registers with
  | nil => rfl
  | cons key keys ih =>
    change turn (rolled turn next keys (turn (next key registers))) = _
    rw [ih, renamed]
    rfl

theorem turn_iterate_unrolled {ρ κ : Type*} {turn : ρ → ρ} {line : κ → ρ → ρ}
    {lines : List (κ → ρ → ρ)} (renames : Renames turn (line :: lines)) {keys : List κ}
    (short : keys.length ≤ lines.length + 1) (registers : ρ) :
    turn^[keys.length] (unrolled (line :: lines) keys registers) =
      rolled turn line keys registers := by
  induction lines generalizing line keys registers with
  | nil =>
    cases keys with
    | nil => rfl
    | cons key keys =>
      obtain rfl : keys = [] := List.eq_nil_of_length_eq_zero (by simpa using short)
      rfl
  | cons next lines ih =>
    cases keys with
    | nil => rfl
    | cons key keys =>
      obtain ⟨renamed, later⟩ := List.isChain_cons_cons.mp renames
      have rest := ih later (Nat.le_of_succ_le_succ short) (line key registers)
      calc
        turn^[keys.length + 1]
              (unrolled (line :: next :: lines) (key :: keys) registers) =
            turn (turn^[keys.length] (unrolled (next :: lines) keys (line key registers))) :=
          Function.iterate_succ_apply' ..
        _ = turn (rolled turn next keys (line key registers)) := by rw [rest]
        _ = rolled turn line keys (turn (line key registers)) := turn_rolled renamed ..

/-- As many lines as it takes to turn the registers around are as many rounds. -/
theorem unrolled_eq_rolled {ρ κ : Type*} {turn : ρ → ρ} {line : κ → ρ → ρ}
    {lines : List (κ → ρ → ρ)} (renames : Renames turn (line :: lines))
    (around : ∀ registers, turn^[lines.length + 1] registers = registers) {keys : List κ}
    (full : keys.length = lines.length + 1) (registers : ρ) :
    unrolled (line :: lines) keys registers = rolled turn line keys registers := by
  have turned := turn_iterate_unrolled renames (Nat.le_of_eq full) registers
  rwa [full, around] at turned

/-- Rolled rounds seen through a view are the rounds that one turned line is in that view. -/
theorem view_rolled {ρ σ κ : Type*} {turn : ρ → ρ} {line : κ → ρ → ρ} {view : ρ → σ}
    {round : κ → σ → σ}
    (viewed : ∀ key registers, view (turn (line key registers)) = round key (view registers))
    (keys : List κ) (registers : ρ) :
    view (rolled turn line keys registers) =
      keys.foldl (fun state key => round key state) (view registers) := by
  induction keys generalizing registers with
  | nil => rfl
  | cons key keys ih =>
    rw [List.foldl_cons, ← viewed]
    exact ih _

/-- Iterations that each run `width` rounds run the rounds of all of them. -/
theorem view_iterations {ρ σ : Type*} {view : ρ → σ} {iteration : ρ → Nat → ρ}
    {round : σ → Nat → σ} {width : Nat}
    (viewed : ∀ registers i, view (iteration registers i) =
      (List.range' (width * i) width).foldl round (view registers))
    (first count : Nat) (registers : ρ) :
    view ((List.range' first count).foldl iteration registers) =
      (List.range' (width * first) (width * count)).foldl round (view registers) := by
  induction count generalizing first registers with
  | zero => rfl
  | succ count ih =>
    rw [List.range'_succ, List.foldl_cons, ih, viewed, Nat.mul_succ, Nat.mul_succ,
      Nat.add_comm (width * count), ← List.range'_append_1, List.foldl_append]

end Rotation
