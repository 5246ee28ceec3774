import Fusion.Library.Runs
import Fusion.Library.StableQueue

/-!
# The task queue of a thread pool

A queue holds its tasks in a multimap by priority and a map from task ids to the nodes of the
multimap.  A node is identified by the number of tasks submitted before it; the ids of the source
are the 64-bit values of its counter, which wrap around.
-/

namespace Fusion.ThreadPool

inductive Priority
  | low
  | normal
  | high
deriving DecidableEq, Repr

def Priority.rank : Priority → Nat
  | .low => 0
  | .normal => 1
  | .high => 2

/-- A node of the task map. -/
structure Task where
  /-- Identity of the node. -/
  uid : Nat
  id : BitVec 64
  priority : Priority
deriving DecidableEq, Repr

/-- The members of the queue. -/
structure Queue where
  nextTaskId : BitVec 64 := 1
  /-- The task map in the order of its iteration. -/
  tasks : List Task := []
  /-- The node that an id leads to. -/
  idMap : BitVec 64 → Option Nat := fun _ => none
  running : Bool := true
  /-- The number of tasks submitted so far. -/
  submissions : Nat := 0

namespace Queue

/-- The locked section of `ThreadPool::SubmitTask`. -/
def submitTask (queue : Queue) (priority : Priority) : Queue × Task :=
  let task : Task := { uid := queue.submissions, id := queue.nextTaskId, priority }
  ({ queue with
      nextTaskId := queue.nextTaskId + 1
      tasks := StableQueue.insert (fun task => task.priority.rank) task queue.tasks
      -- `emplace` keeps an entry that is there.
      idMap :=
        if queue.idMap task.id = none then Function.update queue.idMap task.id (some task.uid)
        else queue.idMap
      submissions := queue.submissions + 1 },
    task)

/-- `ThreadPool::Cancel` and the task that it completes. -/
def cancel (queue : Queue) (id : BitVec 64) : Queue × Option Task :=
  match queue.idMap id with
  | none => (queue, none)
  | some uid =>
    ({ queue with
        idMap := Function.update queue.idMap id none
        tasks := queue.tasks.eraseP fun task => task.uid == uid },
      queue.tasks.find? fun task => task.uid == uid)

/-- Take the first task out of both maps. -/
def popFront (queue : Queue) : Option (Queue × Task) :=
  match queue.tasks with
  | [] => none
  | task :: tasks =>
    some ({ queue with tasks, idMap := Function.update queue.idMap task.id none }, task)

/-- `ThreadPool::DequeueTask`, which has no result while it waits. -/
def dequeueTask (queue : Queue) : Option (Queue × Option Task) :=
  if queue.running then queue.popFront.map fun (queue, task) => (queue, some task)
  else some (queue, none)

/-- The locked section of `ThreadPool::~ThreadPool`. -/
def shutdown (queue : Queue) : Queue × List Task :=
  ({ queue with running := false, tasks := [], idMap := fun _ => none }, queue.tasks)

/-- The order in which tasks are served. -/
abbrev Before : Task → Task → Prop := StableQueue.Before (fun task => task.priority.rank) Task.uid

/-- Nodes have one identity each, and the id map leads to nodes of the task map. -/
structure Linked (queue : Queue) : Prop where
  nodup : (queue.tasks.map Task.uid).Nodup
  uid_lt : ∀ task ∈ queue.tasks, task.uid < queue.submissions
  mapped : ∀ id uid, queue.idMap id = some uid → ∃ task ∈ queue.tasks, task.id = id ∧ task.uid = uid

theorem linked_empty : Linked {} where
  nodup := List.nodup_nil
  uid_lt _ := nofun
  mapped _ _ := nofun

variable {queue : Queue} {task : Task}

theorem mem_submitTask {priority : Priority} :
    task ∈ (queue.submitTask priority).1.tasks ↔
      task = (queue.submitTask priority).2 ∨ task ∈ queue.tasks :=
  StableQueue.mem_insert _

theorem Linked.submitTask (linked : queue.Linked) (priority : Priority) :
    (queue.submitTask priority).1.Linked where
  nodup := by
    have perm := (StableQueue.perm_insert (fun task : Task => task.priority.rank)
      (queue.submitTask priority).2 queue.tasks).map Task.uid
    refine perm.nodup_iff.mpr (List.nodup_cons.mpr ⟨?_, linked.nodup⟩)
    intro member
    obtain ⟨task, queued, uid_eq⟩ := List.mem_map.mp member
    exact Nat.lt_irrefl _ (uid_eq ▸ linked.uid_lt task queued)
  uid_lt task member := by
    cases mem_submitTask.mp member with
    | inl new => exact new ▸ Nat.lt_succ_self _
    | inr queued => exact Nat.lt_succ_of_lt (linked.uid_lt task queued)
  mapped id uid entry := by
    have kept : queue.idMap id = some uid →
        ∃ task ∈ (queue.submitTask priority).1.tasks, task.id = id ∧ task.uid = uid := by
      intro old_entry
      obtain ⟨task, queued, found⟩ := linked.mapped id uid old_entry
      exact ⟨task, mem_submitTask.mpr (.inr queued), found⟩
    simp only [Queue.submitTask] at entry
    split at entry
    · by_cases same : id = queue.nextTaskId
      · subst same
        rw [Function.update_self] at entry
        exact ⟨(queue.submitTask priority).2, mem_submitTask.mpr (.inl rfl), rfl,
          Option.some.inj entry⟩
      · rw [Function.update_of_ne same] at entry
        exact kept entry
    · exact kept entry

theorem Linked.eq_of_uid_eq (linked : queue.Linked) {left right : Task}
    (left_queued : left ∈ queue.tasks) (right_queued : right ∈ queue.tasks)
    (uid_eq : left.uid = right.uid) : left = right :=
  List.inj_on_of_nodup_map linked.nodup left_queued right_queued uid_eq

/-- `Queue.Removes next task` says that `next` is the queue without the task and its entry. -/
structure Removes (queue next : Queue) (task : Task) : Prop where
  queued : task ∈ queue.tasks
  tasks_eq : next.tasks = queue.tasks.eraseP fun other => other.uid == task.uid
  idMap_eq : next.idMap = Function.update queue.idMap task.id none
  nextTaskId_eq : next.nextTaskId = queue.nextTaskId
  submissions_eq : next.submissions = queue.submissions
  running_eq : next.running = queue.running

variable {next : Queue}

theorem Removes.sublist (removes : queue.Removes next task) : next.tasks.Sublist queue.tasks := by
  rw [removes.tasks_eq]
  exact List.eraseP_sublist

theorem Removes.uids_eq (removes : queue.Removes next task) :
    next.tasks.map Task.uid = (queue.tasks.map Task.uid).erase task.uid := by
  have same : (fun other : Task => other.uid == task.uid) = (task.uid == ·) ∘ Task.uid := by
    funext other
    exact Bool.beq_comm
  rw [removes.tasks_eq, same, List.erase_eq_eraseP, List.eraseP_map]

theorem Removes.mem_iff {other : Task} (linked : queue.Linked) (removes : queue.Removes next task) :
    other ∈ next.tasks ↔ other ∈ queue.tasks ∧ other.uid ≠ task.uid := by
  constructor
  · intro member
    have listed : other.uid ∈ next.tasks.map Task.uid := List.mem_map_of_mem member
    rw [removes.uids_eq, linked.nodup.mem_erase_iff] at listed
    exact ⟨removes.sublist.mem member, listed.1⟩
  · rintro ⟨queued, uid_ne⟩
    rw [removes.tasks_eq]
    exact (List.mem_eraseP_of_neg (by simpa using uid_ne)).mpr queued

theorem Removes.linked (removes : queue.Removes next task) (linked : queue.Linked) :
    next.Linked where
  nodup := linked.nodup.sublist (removes.sublist.map Task.uid)
  uid_lt other member := by
    rw [removes.submissions_eq]
    exact linked.uid_lt other (removes.sublist.mem member)
  mapped id uid entry := by
    rw [removes.idMap_eq] at entry
    by_cases same : id = task.id
    · rw [same, Function.update_self] at entry
      cases entry
    · rw [Function.update_of_ne same] at entry
      obtain ⟨other, queued, id_eq, uid_eq⟩ := linked.mapped id uid entry
      refine ⟨other, (removes.mem_iff linked).mpr ⟨queued, ?_⟩, id_eq, uid_eq⟩
      intro same_uid
      exact same (id_eq ▸ congrArg Task.id (linked.eq_of_uid_eq queued removes.queued same_uid))

/-- `Cancel` does nothing, or removes the task that the id leads to. -/
theorem Linked.cancel_cases (linked : queue.Linked) (id : BitVec 64) :
    queue.idMap id = none ∧ queue.cancel id = (queue, none) ∨
      ∃ task, task.id = id ∧ queue.idMap id = some task.uid ∧
        queue.Removes (queue.cancel id).1 task ∧ (queue.cancel id).2 = some task := by
  cases entry : queue.idMap id with
  | none => exact .inl ⟨rfl, by simp [cancel, entry]⟩
  | some uid =>
    obtain ⟨task, queued, rfl, rfl⟩ := linked.mapped id uid entry
    refine .inr ⟨task, rfl, rfl, ?_, ?_⟩
    · constructor
      case queued => exact queued
      all_goals simp [cancel, entry]
    · simp only [cancel, entry]
      cases found : queue.tasks.find? fun other => other.uid == task.uid with
      | none => simpa using List.find?_eq_none.mp found task queued
      | some other =>
        have uid_eq : other.uid = task.uid := by simpa using List.find?_some found
        rw [linked.eq_of_uid_eq (List.mem_of_find?_eq_some found) queued uid_eq]

/-- `PopFront` removes the first task. -/
theorem removes_of_popFront (popped : queue.popFront = some (next, task)) :
    queue.Removes next task ∧ ∃ later, queue.tasks = task :: later := by
  unfold popFront at popped
  split at popped
  · cases popped
  · rename_i first later tasks_eq
    cases popped
    refine ⟨⟨?_, ?_, rfl, rfl, rfl, rfl⟩, later, tasks_eq⟩
    · rw [tasks_eq]
      exact List.mem_cons_self
    · rw [tasks_eq]
      simp

/-- `DequeueTask` pops a task of a running queue, or finds the queue stopped. -/
theorem dequeueTask_cases {dequeued : Option Task}
    (taken : queue.dequeueTask = some (next, dequeued)) :
    queue.running = false ∧ next = queue ∧ dequeued = none ∨
      queue.running = true ∧ ∃ task, queue.popFront = some (next, task) ∧ dequeued = some task := by
  unfold dequeueTask at taken
  cases running : queue.running with
  | false =>
    rw [running] at taken
    cases taken
    exact .inl ⟨rfl, rfl, rfl⟩
  | true =>
    rw [running] at taken
    cases popped : queue.popFront with
    | none => simp [popped] at taken
    | some outcome =>
      obtain ⟨after, task⟩ := outcome
      simp only [popped, if_true, Option.map_some, Option.some.injEq, Prod.mk.injEq] at taken
      exact .inr ⟨rfl, task, by rw [taken.1], taken.2.symm⟩

end Queue
end Fusion.ThreadPool
