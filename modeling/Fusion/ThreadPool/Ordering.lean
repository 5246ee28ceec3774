import Mathlib.Algebra.Group.Nat.Defs
import Fusion.ThreadPool.Queue

/-!
# Order of service and the id map

A history is a queue with the tasks submitted to it and those that were dequeued, or whose id was
passed to `Cancel`.  As long as no id is given out twice, the queue holds the tasks that remain and
serves the best of them, and its id map leads to each of them.
-/

namespace Fusion.ThreadPool

/-- A queue with what was done to it. -/
structure History where
  queue : Queue := {}
  /-- Every task submitted, in order. -/
  submitted : List Task := []
  /-- Identities of the tasks dequeued or cancelled. -/
  removed : List Nat := []

namespace History

/-- The calls that change the queue. -/
inductive Action
  | submit (priority : Priority)
  | cancel (id : BitVec 64)
  | dequeue

/-- The tasks that were neither dequeued nor cancelled. -/
def pending (history : History) : List Task :=
  history.submitted.filter fun task => task.uid ∉ history.removed

/-- The pending tasks that a call of `Cancel` is for. -/
def named (history : History) (id : BitVec 64) : List Task :=
  history.pending.filter fun task => task.id = id

/-- Make the call; a `DequeueTask` that waits makes no step. -/
def step (history : History) : Action → Option History
  | .submit priority =>
    let (queue, task) := history.queue.submitTask priority
    some { history with queue, submitted := history.submitted ++ [task] }
  | .cancel id =>
    some { history with
      queue := (history.queue.cancel id).1
      removed := (history.named id).map Task.uid ++ history.removed }
  | .dequeue =>
    history.queue.dequeueTask.map fun (queue, dequeued) =>
      { history with
        queue
        removed := (dequeued.map Task.uid).toList ++ history.removed }

/-- No pending task has a higher priority, and none of the same priority was submitted earlier. -/
def Best (history : History) (task : Task) : Prop :=
  task ∈ history.pending ∧ ∀ other ∈ history.pending,
    other.priority.rank ≤ task.priority.rank ∧
      (other.priority = task.priority → task.uid ≤ other.uid)

end History

/-- The id map holds one entry for each task of the queue, and no other. -/
structure Queue.IdMapExact (queue : Queue) : Prop where
  complete : ∀ task ∈ queue.tasks, queue.idMap task.id = some task.uid
  sound : ∀ id uid, queue.idMap id = some uid → ∃ task ∈ queue.tasks, task.id = id ∧ task.uid = uid

namespace History

/-- What holds of every history; some of it while no id is given out twice. -/
structure Sound (history : History) : Prop where
  linked : history.queue.Linked
  ordered : history.queue.tasks.Pairwise Queue.Before
  submissions_eq : history.queue.submissions = history.submitted.length
  nextTaskId_eq : history.queue.nextTaskId = BitVec.ofNat 64 (history.submitted.length + 1)
  uid_lt : ∀ task ∈ history.submitted, task.uid < history.submitted.length
  id_eq : ∀ task ∈ history.submitted, task.id = BitVec.ofNat 64 (task.uid + 1)
  removed_lt : ∀ uid ∈ history.removed, uid < history.submitted.length
  submitted_of_queued : ∀ task ∈ history.queue.tasks, task ∈ history.submitted
  mem_iff : history.submitted.length ≤ 2 ^ 64 →
    ∀ task, task ∈ history.queue.tasks ↔ task ∈ history.pending
  complete : history.submitted.length ≤ 2 ^ 64 →
    ∀ task ∈ history.queue.tasks, history.queue.idMap task.id = some task.uid

variable {history : History} {task : Task}

theorem mem_pending :
    task ∈ history.pending ↔ task ∈ history.submitted ∧ task.uid ∉ history.removed := by
  simp [pending]

theorem sound_initial : Sound {} where
  linked := Queue.linked_empty
  ordered := List.Pairwise.nil
  submissions_eq := rfl
  nextTaskId_eq := rfl
  uid_lt _ := nofun
  id_eq _ := nofun
  removed_lt _ := nofun
  submitted_of_queued _ := nofun
  mem_iff _ _ := Iff.rfl
  complete _ _ := nofun

/-- The ids of the first `2 ^ 64` tasks are different. -/
theorem eq_of_ofNat_succ_eq {left right : Nat} (left_lt : left < 2 ^ 64) (right_lt : right < 2 ^ 64)
    (id_eq : BitVec.ofNat 64 (left + 1) = BitVec.ofNat 64 (right + 1)) : left = right := by
  have values := congrArg BitVec.toNat id_eq
  simp only [BitVec.toNat_ofNat] at values
  omega

section

variable (sound : history.Sound)
include sound

theorem Sound.uid_eq_of_id_eq (bounded : history.submitted.length ≤ 2 ^ 64) {left right : Task}
    (left_submitted : left ∈ history.submitted) (right_submitted : right ∈ history.submitted)
    (id_eq : left.id = right.id) : left.uid = right.uid := by
  rw [sound.id_eq left left_submitted, sound.id_eq right right_submitted] at id_eq
  exact eq_of_ofNat_succ_eq ((sound.uid_lt left left_submitted).trans_le bounded)
    ((sound.uid_lt right right_submitted).trans_le bounded) id_eq

theorem Sound.id_ne_nextTaskId (bounded : history.submitted.length < 2 ^ 64)
    (queued : task ∈ history.queue.tasks) : task.id ≠ history.queue.nextTaskId := by
  intro same
  have submitted := sound.submitted_of_queued task queued
  have uid_lt := sound.uid_lt task submitted
  rw [sound.id_eq task submitted, sound.nextTaskId_eq] at same
  exact Nat.ne_of_lt uid_lt (eq_of_ofNat_succ_eq (uid_lt.trans bounded) bounded same)

theorem Sound.idMap_submitTask (bounded : history.submitted.length < 2 ^ 64) (priority : Priority) :
    (history.queue.submitTask priority).1.idMap =
      Function.update history.queue.idMap history.queue.nextTaskId
        (some history.queue.submissions) := by
  refine if_pos ?_
  cases entry : history.queue.idMap history.queue.nextTaskId with
  | none => rfl
  | some uid =>
    obtain ⟨task, queued, same, _⟩ := sound.linked.mapped _ uid entry
    exact absurd same (sound.id_ne_nextTaskId bounded queued)

theorem Sound.submit (priority : Priority) :
    Sound { history with
      queue := (history.queue.submitTask priority).1
      submitted := history.submitted ++ [(history.queue.submitTask priority).2] } := by
  have length_eq : (history.submitted ++ [(history.queue.submitTask priority).2]).length =
      history.submitted.length + 1 := List.length_append
  have uid_eq : (history.queue.submitTask priority).2.uid = history.submitted.length :=
    sound.submissions_eq
  have id_eq : (history.queue.submitTask priority).2.id =
      BitVec.ofNat 64 (history.submitted.length + 1) := sound.nextTaskId_eq
  have unremoved : history.submitted.length ∉ history.removed := fun member =>
    Nat.lt_irrefl _ (sound.removed_lt _ member)
  constructor
  case linked => exact sound.linked.submitTask priority
  case ordered =>
    refine StableQueue.pairwise_insert sound.ordered ?_
    intro other queued
    exact sound.linked.uid_lt other queued
  case submissions_eq =>
    rw [length_eq]
    exact congrArg (· + 1) sound.submissions_eq
  case nextTaskId_eq =>
    rw [length_eq]
    exact (congrArg (· + 1) sound.nextTaskId_eq).trans (BitVec.ofNat_add ..).symm
  case uid_lt =>
    intro task member
    rw [length_eq]
    cases List.mem_append.mp member with
    | inl old => exact Nat.lt_succ_of_lt (sound.uid_lt task old)
    | inr new =>
      rw [List.mem_singleton.mp new, uid_eq]
      exact Nat.lt_succ_self _
  case id_eq =>
    intro task member
    cases List.mem_append.mp member with
    | inl old => exact sound.id_eq task old
    | inr new => rw [List.mem_singleton.mp new, uid_eq, id_eq]
  case removed_lt =>
    intro uid member
    rw [length_eq]
    exact Nat.lt_succ_of_lt (sound.removed_lt uid member)
  case submitted_of_queued =>
    intro task member
    cases Queue.mem_submitTask.mp member with
    | inl new => exact List.mem_append_right _ (List.mem_singleton.mpr new)
    | inr old => exact List.mem_append_left _ (sound.submitted_of_queued task old)
  case mem_iff =>
    intro bounded task
    rw [length_eq] at bounded
    rw [Queue.mem_submitTask, mem_pending, List.mem_append, List.mem_singleton,
      sound.mem_iff (Nat.le_of_succ_le bounded), mem_pending]
    constructor
    · rintro (rfl | ⟨old, kept⟩)
      · exact ⟨.inr rfl, uid_eq ▸ unremoved⟩
      · exact ⟨.inl old, kept⟩
    · rintro ⟨old | new, kept⟩
      · exact .inr ⟨old, kept⟩
      · exact .inl new
  case complete =>
    intro bounded task member
    rw [length_eq] at bounded
    change (history.queue.submitTask priority).1.idMap task.id = some task.uid
    rw [sound.idMap_submitTask bounded]
    cases Queue.mem_submitTask.mp member with
    | inl new =>
      rw [new]
      exact Function.update_self ..
    | inr old =>
      rw [Function.update_of_ne (sound.id_ne_nextTaskId bounded old)]
      exact sound.complete (Nat.le_of_lt bounded) task old

end

/-- A task leaves the queue and is counted as removed, and no other is while ids are different. -/
theorem Sound.leave {history : History} (sound : history.Sound) {next : Queue} {task : Task}
    (removes : history.queue.Removes next task) {removed : List Nat}
    (removed_lt : ∀ uid ∈ removed, uid < history.submitted.length)
    (removed_iff : history.submitted.length ≤ 2 ^ 64 →
      ∀ uid, uid ∈ removed ↔ uid = task.uid ∨ uid ∈ history.removed) :
    Sound { history with queue := next, removed } := by
  have submitted := sound.submitted_of_queued task removes.queued
  constructor
  case linked => exact removes.linked sound.linked
  case ordered => exact sound.ordered.sublist removes.sublist
  case submissions_eq => exact removes.submissions_eq.trans sound.submissions_eq
  case nextTaskId_eq => exact removes.nextTaskId_eq.trans sound.nextTaskId_eq
  case uid_lt => exact sound.uid_lt
  case id_eq => exact sound.id_eq
  case removed_lt => exact removed_lt
  case submitted_of_queued =>
    exact fun other member => sound.submitted_of_queued other (removes.sublist.mem member)
  case mem_iff =>
    intro bounded other
    rw [removes.mem_iff sound.linked, sound.mem_iff bounded, mem_pending, mem_pending,
      removed_iff bounded, not_or]
    tauto
  case complete =>
    intro bounded other member
    obtain ⟨queued, uid_ne⟩ := (removes.mem_iff sound.linked).mp member
    have id_ne : other.id ≠ task.id := fun same =>
      uid_ne (sound.uid_eq_of_id_eq bounded (sound.submitted_of_queued other queued) submitted same)
    change next.idMap other.id = some other.uid
    rw [removes.idMap_eq, Function.update_of_ne id_ne]
    exact sound.complete bounded other queued

theorem Sound.dequeue (sound : history.Sound) {next : Queue}
    (removes : history.queue.Removes next task) :
    Sound { history with queue := next, removed := task.uid :: history.removed } := by
  refine sound.leave removes (fun uid member => ?_) fun _ _ => List.mem_cons
  cases List.mem_cons.mp member with
  | inl same => exact same ▸ sound.uid_lt task (sound.submitted_of_queued task removes.queued)
  | inr old => exact sound.removed_lt uid old

theorem mem_named {id : BitVec 64} :
    task ∈ history.named id ↔ task ∈ history.pending ∧ task.id = id := by
  simp [named]

/-- `Cancel` takes the tasks with the id out of the queue. -/
theorem Sound.cancel (sound : history.Sound) (id : BitVec 64) :
    Sound { history with
      queue := (history.queue.cancel id).1
      removed := (history.named id).map Task.uid ++ history.removed } := by
  have removed_lt : ∀ uid ∈ (history.named id).map Task.uid ++ history.removed,
      uid < history.submitted.length := by
    intro uid member
    cases List.mem_append.mp member with
    | inl named =>
      obtain ⟨task, task_named, rfl⟩ := List.mem_map.mp named
      exact sound.uid_lt task (mem_pending.mp (mem_named.mp task_named).1).1
    | inr old => exact sound.removed_lt uid old
  rcases sound.linked.cancel_cases id with ⟨entry, cancel_eq⟩ | ⟨task, id_eq, _, removes, _⟩
  · -- No entry leads to a task, so none that is pending has the id.
    rw [cancel_eq]
    refine { sound with removed_lt, mem_iff := fun bounded other => ?_ }
    have named_eq : history.named id = [] := by
      refine List.eq_nil_iff_forall_not_mem.mpr fun task task_named => ?_
      obtain ⟨task_pending, rfl⟩ := mem_named.mp task_named
      have complete := sound.complete bounded task ((sound.mem_iff bounded task).mpr task_pending)
      rw [entry] at complete
      cases complete
    rw [sound.mem_iff bounded, mem_pending, mem_pending, named_eq]
    rfl
  · refine sound.leave removes removed_lt fun bounded uid => ?_
    have task_submitted := sound.submitted_of_queued task removes.queued
    rw [List.mem_append, List.mem_map]
    refine or_congr_left ⟨?_, ?_⟩
    · rintro ⟨other, other_named, rfl⟩
      obtain ⟨other_pending, other_id⟩ := mem_named.mp other_named
      exact sound.uid_eq_of_id_eq bounded (mem_pending.mp other_pending).1 task_submitted
        (other_id.trans id_eq.symm)
    · rintro rfl
      exact ⟨task, mem_named.mpr ⟨(sound.mem_iff bounded task).mp removes.queued, id_eq⟩, rfl⟩

theorem sound_step {before after : History} {action : Action} (sound : before.Sound)
    (step_eq : before.step action = some after) : after.Sound := by
  cases action with
  | submit priority =>
    obtain rfl := Option.some.inj step_eq
    exact sound.submit priority
  | cancel id =>
    obtain rfl := Option.some.inj step_eq
    exact sound.cancel id
  | dequeue =>
    simp only [step, Option.map_eq_some_iff] at step_eq
    obtain ⟨⟨next, dequeued⟩, taken, rfl⟩ := step_eq
    rcases Queue.dequeueTask_cases taken with ⟨_, rfl, rfl⟩ | ⟨_, task, popped, rfl⟩
    · exact sound
    · exact sound.dequeue (Queue.removes_of_popFront popped).1

theorem Sound.best_of_popFront (sound : history.Sound)
    (bounded : history.submitted.length ≤ 2 ^ 64) {next : Queue}
    (popped : history.queue.popFront = some (next, task)) : history.Best task := by
  obtain ⟨removes, later, tasks_eq⟩ := Queue.removes_of_popFront popped
  refine ⟨(sound.mem_iff bounded task).mp removes.queued, ?_⟩
  intro other pending
  have queued := (sound.mem_iff bounded other).mpr pending
  have ordered := sound.ordered
  rw [tasks_eq] at queued ordered
  cases List.mem_cons.mp queued with
  | inl same =>
    subst same
    exact ⟨Nat.le_refl _, fun _ => Nat.le_refl _⟩
  | inr behind =>
    cases StableQueue.before_of_mem_tail ordered behind with
    | inl lower =>
      refine ⟨Nat.le_of_lt lower, ?_⟩
      intro same
      exact absurd (congrArg Priority.rank same) (Nat.ne_of_lt lower)
    | inr equal => exact ⟨Nat.le_of_eq equal.1.symm, fun _ => Nat.le_of_lt equal.2⟩

theorem sound_of_reachable (reachable : Runs.Reachable step {} history) : history.Sound :=
  reachable.invariant sound_initial fun _ _ _ sound step_eq => sound_step sound step_eq

/-- Up to `2 ^ 64` submissions the queue holds the tasks that were neither dequeued nor cancelled,
every dequeued task is the best of them, and the id map is exact. -/
theorem dequeueTask_best_and_idMapExact {history : History}
    (reachable : Runs.Reachable step {} history) (bounded : history.submitted.length ≤ 2 ^ 64) :
    (∀ task, task ∈ history.queue.tasks ↔ task ∈ history.pending) ∧
      (∀ next task, history.queue.dequeueTask = some (next, some task) → history.Best task) ∧
      history.queue.IdMapExact := by
  have sound := sound_of_reachable reachable
  refine ⟨sound.mem_iff bounded, ?_, sound.complete bounded, sound.linked.mapped⟩
  intro next task taken
  rcases Queue.dequeueTask_cases taken with ⟨_, _, dequeued_eq⟩ | ⟨_, first, popped, dequeued_eq⟩
  · cases dequeued_eq
  · cases dequeued_eq
    exact sound.best_of_popFront bounded popped

/-- The later one of two tasks of high priority, after the earlier one was cancelled. -/
theorem dequeueTask_best_and_idMapExact_cancelled :
    ∃ history, Runs.run step {} [.submit .low, .submit .high, .submit .high, .cancel 2] =
        some history ∧
      history.Best { uid := 2, id := 3, priority := .high } ∧ history.queue.IdMapExact := by
  refine ⟨_, rfl, ?_⟩
  have served := dequeueTask_best_and_idMapExact
    ⟨[.submit .low, .submit .high, .submit .high, .cancel 2], rfl⟩ (by decide)
  exact ⟨served.2.1 _ _ rfl, served.2.2⟩

/-- A queue that holds the first task alone, after `rounds` later ones have come and gone. -/
def worn (rounds : Nat) : Queue where
  nextTaskId := BitVec.ofNat 64 (rounds + 2)
  tasks := [{ uid := 0, id := 1, priority := .low }]
  idMap := Function.update (fun _ => none) 1 (some 0)
  submissions := rounds + 1

theorem reachable_submit (reachable : Runs.Reachable step {} history) (priority : Priority) :
    Runs.Reachable step {}
      { history with
        queue := (history.queue.submitTask priority).1
        submitted := history.submitted ++ [(history.queue.submitTask priority).2] } :=
  @Runs.Reachable.next _ _ _ _ _ _ (.submit priority) reachable rfl

/-- One more task of high priority comes and goes. -/
theorem popFront_submitTask_worn {rounds : Nat} (bounded : rounds + 1 < 2 ^ 64) :
    ∃ task, ((worn rounds).submitTask .high).1.popFront = some (worn (rounds + 1), task) := by
  have id_ne : BitVec.ofNat 64 (rounds + 2) ≠ 1 := by
    intro same
    have values := congrArg BitVec.toNat same
    rw [BitVec.toNat_ofNat, show (1 : BitVec 64).toNat = 1 from rfl] at values
    omega
  have free : (worn rounds).idMap (worn rounds).nextTaskId = none := by
    change Function.update (fun _ => none) 1 (some 0) (BitVec.ofNat 64 (rounds + 2)) = none
    rw [Function.update_of_ne id_ne]
  have restored : Function.update (Function.update (worn rounds).idMap (worn rounds).nextTaskId
      (some (rounds + 1))) (worn rounds).nextTaskId none = (worn rounds).idMap := by
    rw [Function.update_idem, ← free, Function.update_eq_self]
  have next_eq : (worn rounds).nextTaskId + 1 = BitVec.ofNat 64 (rounds + 1 + 2) :=
    (BitVec.ofNat_add ..).symm
  refine ⟨((worn rounds).submitTask .high).2, ?_⟩
  have popped : ((worn rounds).submitTask .high).1.popFront =
      some ({ worn rounds with
        nextTaskId := (worn rounds).nextTaskId + 1
        submissions := (worn rounds).submissions + 1
        idMap := Function.update (if (worn rounds).idMap (worn rounds).nextTaskId = none then
          Function.update (worn rounds).idMap (worn rounds).nextTaskId (some (rounds + 1))
          else (worn rounds).idMap) (worn rounds).nextTaskId none },
        ((worn rounds).submitTask .high).2) := rfl
  rw [popped, if_pos free, restored, next_eq]
  rfl

theorem exists_reachable_worn (rounds : Nat) (bounded : rounds < 2 ^ 64) :
    ∃ history, Runs.Reachable step {} history ∧ history.queue = worn rounds := by
  induction rounds with
  | zero => exact ⟨_, ⟨[.submit .low], rfl⟩, rfl⟩
  | succ rounds ih =>
    obtain ⟨history, reachable, queue_eq⟩ := ih (by omega)
    obtain ⟨task, popped⟩ := popFront_submitTask_worn bounded
    have dequeued : ((worn rounds).submitTask .high).1.dequeueTask =
        some (worn (rounds + 1), some task) := by
      rw [Queue.dequeueTask, popped]
      rfl
    have submitted := reachable_submit reachable .high
    rw [queue_eq] at submitted
    have served : step { history with
          queue := ((worn rounds).submitTask .high).1
          submitted := history.submitted ++ [((worn rounds).submitTask .high).2] } .dequeue =
        some { queue := worn (rounds + 1)
               submitted := history.submitted ++ [((worn rounds).submitTask .high).2]
               removed := task.uid :: history.removed } := by
      simp only [step, dequeued, Option.map_some]
      rfl
    exact ⟨_, submitted.next served, rfl⟩

/-- An id that is given out again does not lead to its second task. -/
theorem idMap_incomplete_after_wrap :
    ∃ history, Runs.Reachable step {} history ∧ ¬ history.queue.IdMapExact := by
  obtain ⟨history, reachable, queue_eq⟩ := exists_reachable_worn (2 ^ 64 - 1) (by decide)
  refine ⟨_, reachable_submit reachable .high, ?_⟩
  rw [queue_eq]
  intro exact_map
  have entry := exact_map.complete ((worn (2 ^ 64 - 1)).submitTask .high).2
    (Queue.mem_submitTask.mpr (.inl rfl))
  have stale : ((worn (2 ^ 64 - 1)).submitTask .high).1.idMap 1 = some 0 := rfl
  have again : ((worn (2 ^ 64 - 1)).submitTask .high).2.id = 1 := rfl
  rw [again, stale] at entry
  cases entry

end History
end Fusion.ThreadPool
