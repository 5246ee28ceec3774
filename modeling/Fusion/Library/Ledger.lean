import Mathlib.Data.List.Nodup
import Mathlib.Data.List.Perm.Basic

/-!
# Items that are settled once

Items are issued one by one.  An item is outstanding from then on, in one of several places, until
it is settled.  As long as every transition moves an item from one place to another, or settles an
item that it takes from its place, no item is settled twice and none is lost.
-/

namespace Ledger

variable {α σ : Type*}

/-- Each issued item is outstanding or settled, and not both. -/
structure Balanced (issued outstanding settled : List α) : Prop where
  nodup : issued.Nodup
  perm : (outstanding ++ settled).Perm issued

theorem balanced_nil : Balanced ([] : List α) [] [] where
  nodup := List.nodup_nil
  perm := List.Perm.nil

variable {after before issued settled : List α} {item : α}

section

variable (balanced : Balanced issued before settled)
include balanced

/-- A new item is outstanding. -/
theorem Balanced.issue (fresh : item ∉ issued) (placed : after.Perm (item :: before)) :
    Balanced (issued ++ [item]) after settled where
  nodup := by
    refine (List.perm_append_singleton item issued).nodup_iff.mpr ?_
    exact List.nodup_cons.mpr ⟨fresh, balanced.nodup⟩
  perm :=
    calc
      List.Perm (after ++ settled) (item :: (before ++ settled)) := placed.append_right settled
      List.Perm _ (item :: issued) := balanced.perm.cons item
      List.Perm _ (issued ++ [item]) := (List.perm_append_singleton item issued).symm

/-- Outstanding items may change places. -/
theorem Balanced.move (moved : after.Perm before) : Balanced issued after settled where
  nodup := balanced.nodup
  perm := (moved.append_right settled).trans balanced.perm

/-- An item that is taken from its place may be settled. -/
theorem Balanced.settle (taken : before.Perm (item :: after)) :
    Balanced issued after (settled ++ [item]) where
  nodup := balanced.nodup
  perm := by
    rw [← List.append_assoc]
    refine (List.perm_append_singleton item _).trans ?_
    exact (taken.append_right settled).symm.trans balanced.perm

end

theorem Balanced.nodup_settled {outstanding : List α}
    (balanced : Balanced issued outstanding settled) : settled.Nodup :=
  (List.nodup_append.mp (balanced.perm.nodup_iff.mpr balanced.nodup)).2.1

/-- With nothing outstanding, every issued item has been settled. -/
theorem Balanced.mem_settled (balanced : Balanced issued [] settled) (member : item ∈ issued) :
    item ∈ settled :=
  balanced.perm.mem_iff.mpr member

/-- An item of the third place may stand in front of all three. -/
theorem perm_cons_of_third {first second third : List α} :
    (first ++ (second ++ item :: third)).Perm (item :: (first ++ (second ++ third))) :=
  (List.perm_middle.append_left first).trans List.perm_middle

/-- Marking one more item takes it from those that are not marked. -/
theorem perm_filter_notMem [DecidableEq α] {items marked : List α} (nodup : items.Nodup)
    (member : item ∈ items) (unmarked : item ∉ marked) :
    (items.filter (· ∉ marked)).Perm (item :: items.filter (· ∉ item :: marked)) := by
  have rest : items.filter (· ∉ item :: marked) = (items.filter (· ∉ marked)).erase item := by
    rw [(nodup.filter _).erase_eq_filter, List.filter_filter]
    refine List.filter_congr ?_
    intro other _
    simp [bne, beq_eq_decide]
  rw [rest]
  exact List.perm_cons_erase (List.mem_filter.mpr ⟨member, decide_eq_true unmarked⟩)

/-- Changing one slot of a table changes the items of that slot only. -/
theorem perm_flatMap_set {content : σ → List α} {slots : List σ} {index : Nat} {old : σ} (new : σ)
    (slot : slots[index]? = some old) :
    (content old ++ (slots.set index new).flatMap content).Perm
      (content new ++ slots.flatMap content) := by
  induction slots generalizing index with
  | nil => cases slot
  | cons head slots ih =>
    cases index with
    | zero =>
      obtain rfl := Option.some.inj slot
      simp only [List.set_cons_zero, List.flatMap_cons]
      exact List.perm_append_comm_assoc _ _ _
    | succ index =>
      simp only [List.set_cons_succ, List.flatMap_cons]
      refine (List.perm_append_comm_assoc _ _ _).trans ?_
      refine ((ih slot).append_left (content head)).trans ?_
      exact List.perm_append_comm_assoc _ _ _

end Ledger
