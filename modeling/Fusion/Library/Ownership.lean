import Mathlib.Data.Option.Basic

/-!
# Exclusive ownership

Holders each hold at most one resource.  Ownership is exclusive when every live resource is held by
exactly one holder and nothing else is held.
-/

namespace Ownership

/-- Every live resource has exactly one holder, and only live resources are held. -/
structure Exclusive {ι ρ : Type*} (live : ρ → Prop) (holds : ι → Option ρ) : Prop where
  held : ∀ holder resource, holds holder = some resource → live resource
  covered : ∀ resource, live resource → ∃ holder, holds holder = some resource
  unique : ∀ first second resource, holds first = some resource →
    holds second = some resource → first = second

/-- One holder trades what it holds for a fresh resource or for none, and what it held is released;
the others keep what they hold. -/
theorem Exclusive.trade {ι ρ : Type*} {live liveAfter : ρ → Prop} {holds holdsAfter : ι → Option ρ}
    (exclusive : Exclusive live holds) (trader : ι)
    (others : ∀ holder, holder ≠ trader → holdsAfter holder = holds holder)
    (fresh : ∀ resource, holdsAfter trader = some resource → ¬ live resource)
    (live_iff : ∀ resource, liveAfter resource ↔
      holdsAfter trader = some resource ∨ live resource ∧ holds trader ≠ some resource) :
    Exclusive liveAfter holdsAfter where
  held := by
    intro holder resource holds_eq
    rw [live_iff]
    rcases eq_or_ne holder trader with rfl | other
    · exact .inl holds_eq
    · rw [others holder other] at holds_eq
      refine .inr ⟨exclusive.held holder resource holds_eq, fun traded => ?_⟩
      exact other (exclusive.unique holder trader resource holds_eq traded)
  covered := by
    intro resource live
    rcases (live_iff resource).mp live with traded | ⟨live_before, kept⟩
    · exact ⟨trader, traded⟩
    · obtain ⟨holder, holds_eq⟩ := exclusive.covered resource live_before
      have other : holder ≠ trader := by
        rintro rfl
        exact kept holds_eq
      exact ⟨holder, (others holder other).trans holds_eq⟩
  unique := by
    intro first second resource first_eq second_eq
    by_cases first_trades : first = trader <;> by_cases second_trades : second = trader
    · exact first_trades.trans second_trades.symm
    · subst first_trades
      rw [others second second_trades] at second_eq
      exact absurd (exclusive.held second resource second_eq) (fresh resource first_eq)
    · subst second_trades
      rw [others first first_trades] at first_eq
      exact absurd (exclusive.held first resource first_eq) (fresh resource second_eq)
    · rw [others first first_trades] at first_eq
      rw [others second second_trades] at second_eq
      exact exclusive.unique first second resource first_eq second_eq

/-- Ownership depends on what is live and on who holds what only. -/
theorem Exclusive.congr {ι ρ : Type*} {live liveAfter : ρ → Prop} {holds holdsAfter : ι → Option ρ}
    (exclusive : Exclusive live holds) (live_iff : ∀ resource, liveAfter resource ↔ live resource)
    (holds_eq : ∀ holder, holdsAfter holder = holds holder) : Exclusive liveAfter holdsAfter := by
  obtain rfl : liveAfter = live := funext fun resource => propext (live_iff resource)
  obtain rfl : holdsAfter = holds := funext holds_eq
  exact exclusive

/-- A resource that its holder lets go of without releasing it is lost. -/
theorem Exclusive.not_of_lost {ι ρ : Type*} {live liveAfter : ρ → Prop}
    {holds holdsAfter : ι → Option ρ} (exclusive : Exclusive live holds) {holder : ι}
    {resource : ρ} (held : holds holder = some resource) (live_after : liveAfter resource)
    (others : ∀ other, other ≠ holder → holdsAfter other = some resource →
      holds other = some resource)
    (dropped : holdsAfter holder ≠ some resource) : ¬ Exclusive liveAfter holdsAfter := by
  intro exclusive_after
  obtain ⟨finder, finds⟩ := exclusive_after.covered resource live_after
  have other : finder ≠ holder := by
    rintro rfl
    exact dropped finds
  exact other (exclusive.unique finder holder resource (others finder other finds) held)

end Ownership
