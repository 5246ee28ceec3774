import Mathlib.Logic.Basic

/-!
# Sequences of checks

A computation that may fail is described by the condition on which it returns and the value that it
then returns.  Conditions are collected along a sequence.
-/

namespace Checks

universe u v

/-- The computation returns the value on the condition and fails otherwise. -/
structure Decides {ε α : Type*} (result : Except ε α) (condition : Prop) (value : α) : Prop where
  accepts : condition → result = .ok value
  refuses : ¬condition → ∃ failure, result = .error failure

variable {ε : Type u} {α β : Type v} {result : Except ε α} {condition : Prop} {value : α}

/-- A refusal of one case. -/
theorem Decides.check {refused : Prop} [Decidable refused] {failure : ε} :
    Decides (if refused then .error failure else .ok value) (¬refused) value where
  accepts holds := if_neg holds
  refuses fails := ⟨failure, if_pos (not_not.mp fails)⟩

theorem Decides.bind {next : α → Except ε β} {later : Prop} {final : β}
    (first : Decides result condition value) (second : Decides (next value) later final) :
    Decides (result >>= next) (condition ∧ later) final where
  accepts := by
    rintro ⟨here, there⟩
    rw [first.accepts here]
    exact second.accepts there
  refuses fails := by
    by_cases here : condition
    · obtain ⟨failure, refused⟩ := second.refuses fun there => fails ⟨here, there⟩
      exact ⟨failure, by rw [first.accepts here]; exact refused⟩
    · obtain ⟨failure, refused⟩ := first.refuses here
      exact ⟨failure, by rw [refused]; rfl⟩

/-- The failure may be changed on its way out. -/
theorem Decides.mapError {change : ε → ε} (decides : Decides result condition value) :
    Decides (result.mapError change) condition value where
  accepts holds := by
    rw [decides.accepts holds]
    rfl
  refuses fails := by
    obtain ⟨failure, refused⟩ := decides.refuses fails
    exact ⟨change failure, by rw [refused]; rfl⟩

theorem Decides.of_iff {other : Prop} (same : condition ↔ other)
    (decides : Decides result condition value) : Decides result other value where
  accepts holds := decides.accepts (same.mpr holds)
  refuses fails := decides.refuses fun holds => fails (same.mp holds)

theorem Decides.pure : Decides (Except.ok value : Except ε α) True value where
  accepts _ := rfl
  refuses fails := absurd trivial fails

end Checks
