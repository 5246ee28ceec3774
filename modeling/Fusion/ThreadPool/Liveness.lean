import Fusion.ThreadPool.Pool

/-!
# A pool with tasks is not stuck

Before the destructor starts, a queue that holds tasks has a worker to take them: one that is not
blocked, or one that a `SubmitTask` in progress is about to notify.  This fails only if the
constructor starts no thread.
-/

namespace Fusion.ThreadPool

/-- The worker runs a task or is able to take its next dequeue step. -/
def Worker.active : Worker → Bool
  | .ready => true
  | .waiting => false
  | .running _ => true
  | .completed => true
  | .exited => false

namespace Pool

/-- A worker attends to the tasks in the queue, or is about to be notified of them. -/
def Serves (pool : Pool) : Prop :=
  pool.queue.tasks ≠ [] → ∃ worker ∈ pool.workers,
    worker.active = true ∨ worker = .waiting ∧ 0 < pool.notifications

/-- What keeps a pool from getting stuck before the destructor starts. -/
structure Attended (pool : Pool) : Prop where
  running : pool.queue.running = true
  staffed : pool.workers ≠ []
  working : .exited ∉ pool.workers
  served : pool.queue.tasks ≠ [] →
    (∃ worker ∈ pool.workers, worker.active = true) ∨ 0 < pool.notifications

theorem attended_withWorkers {count : Nat} (positive : 0 < count) :
    (withWorkers count).Attended where
  running := rfl
  staffed := by simpa [withWorkers] using Nat.ne_of_gt positive
  working member := by cases List.eq_of_mem_replicate member
  served queued := absurd rfl queued

variable {pool : Pool}

section

variable (attended : pool.Attended)
include attended

theorem Attended.exists_active (none_waits : .waiting ∉ pool.workers) :
    ∃ worker ∈ pool.workers, worker.active = true := by
  obtain ⟨worker, member⟩ := List.exists_mem_of_ne_nil _ attended.staffed
  refine ⟨worker, member, ?_⟩
  cases worker with
  | ready => rfl
  | waiting => exact absurd member none_waits
  | running task => rfl
  | completed => rfl
  | exited => exact absurd member attended.working

theorem Attended.serves : pool.Serves := by
  intro queued
  by_cases waits : .waiting ∈ pool.workers
  · cases attended.served queued with
    | inl active =>
      obtain ⟨worker, member, active⟩ := active
      exact ⟨worker, member, .inl active⟩
    | inr notified => exact ⟨.waiting, waits, .inr ⟨rfl, notified⟩⟩
  · obtain ⟨worker, member, active⟩ := attended.exists_active waits
    exact ⟨worker, member, .inl active⟩

theorem Attended.staffed_set (index : Nat) (new : Worker) : pool.workers.set index new ≠ [] := by
  simpa using attended.staffed

theorem Attended.working_set (index : Nat) {new : Worker} (active : new ≠ .exited) :
    .exited ∉ pool.workers.set index new := by
  intro member
  cases List.mem_or_eq_of_mem_set member with
  | inl old => exact attended.working old
  | inr same => exact active same.symm

theorem Attended.assign {next : Pool} {index : Nat} {old new : Worker}
    (slot : pool.workers[index]? = some old) (active : new.active = true)
    (workers_eq : next.workers = pool.workers.set index new)
    (running_eq : next.queue.running = pool.queue.running) : next.Attended where
  running := running_eq.trans attended.running
  staffed := by
    rw [workers_eq]
    exact attended.staffed_set index new
  working := by
    rw [workers_eq]
    refine attended.working_set index ?_
    rintro rfl
    cases active
  served _ := by
    obtain ⟨in_range, _⟩ := List.getElem?_eq_some_iff.mp slot
    rw [workers_eq]
    exact .inl ⟨new, List.mem_set in_range new, active⟩

/-- A running queue that blocks `DequeueTask` is empty. -/
theorem Attended.tasks_eq_nil (blocked : pool.queue.dequeueTask = none) :
    pool.queue.tasks = [] := by
  rw [Queue.dequeueTask, if_pos attended.running] at blocked
  cases tasks_eq : pool.queue.tasks with
  | nil => rfl
  | cons task tasks =>
    rw [Queue.popFront, tasks_eq] at blocked
    cases blocked

theorem Attended.wait (index : Nat) (blocked : pool.queue.dequeueTask = none) :
    (pool.assign index .waiting).Attended where
  running := attended.running
  staffed := attended.staffed_set index .waiting
  working := attended.working_set index nofun
  served queued := absurd (attended.tasks_eq_nil blocked) queued

theorem Attended.cancel (id : BitVec 64) :
    Attended { pool with
      queue := (pool.queue.cancel id).1
      completed := pool.completed ++ ((pool.queue.cancel id).2.map Task.uid).toList } := by
  cases entry : pool.queue.idMap id with
  | none =>
    rw [Queue.cancel, entry]
    exact ⟨attended.running, attended.staffed, attended.working, attended.served⟩
  | some uid =>
    rw [Queue.cancel, entry]
    refine ⟨attended.running, attended.staffed, attended.working, ?_⟩
    intro queued
    refine attended.served ?_
    intro empty
    simp [empty] at queued

end

theorem alive_of_step {next : Pool} {action : Action} (taken : Step pool action next)
    (alive : next.phase = .alive) : pool.phase = .alive := by
  cases taken with
  | shutdown => cases alive
  | notifyAll => cases alive
  | completeSwapped => cases alive
  | join => cases alive
  | sweep => cases alive
  | leave => cases alive
  | _ => exact alive

theorem Attended.next {pool next : Pool} {action : Action} (attended : pool.Attended)
    (taken : Step pool action next) (alive : next.phase = .alive) : next.Attended := by
  cases taken with
  | submit priority =>
    exact ⟨attended.running, attended.staffed, attended.working,
      fun _ => .inr (Nat.succ_pos pool.notifications)⟩
  | notify waits => exact attended.assign waits (rfl : Worker.ready.active = true) rfl rfl
  | notifyNobody none_waits =>
    exact ⟨attended.running, attended.staffed, attended.working,
      fun _ => .inl (attended.exists_active none_waits)⟩
  | cancel id => exact attended.cancel id
  | wait _ blocked => exact attended.wait _ blocked
  | exit _ stopped => exact absurd attended.running (by simp [stopped])
  | take ready popped =>
    exact attended.assign ready (rfl : (Worker.running _).active = true) rfl
      (Queue.removes_of_popFront popped).1.running_eq
  | complete runs => exact attended.assign runs (rfl : Worker.completed.active = true) rfl rfl
  | finish done => exact attended.assign done (rfl : Worker.ready.active = true) rfl rfl
  | wake waits => exact attended.assign waits (rfl : Worker.ready.active = true) rfl rfl
  | shutdown => cases alive
  | notifyAll => cases alive
  | completeSwapped => cases alive
  | join => cases alive
  | sweep => cases alive
  | leave => cases alive

theorem attended_of_reachable {count : Nat} (positive : 0 < count)
    (reachable : Runs.Reachable step (withWorkers count) pool) (alive : pool.phase = .alive) :
    pool.Attended := by
  refine @Runs.Reachable.invariant _ _ _ _ (fun pool => pool.phase = .alive → pool.Attended)
    (fun _ => attended_withWorkers positive) ?_ _ reachable alive
  intro before action after attended step_eq alive
  have taken := (step_of_step_eq step_eq).2
  exact (attended (alive_of_step taken alive)).next taken alive

theorem clamp_pos {value high : Nat} (high_pos : 1 ≤ high) : 0 < clamp value 1 high := by
  unfold clamp
  split_ifs <;> omega

theorem threadCount_pos_iff {options : Options} (hardwareConcurrency : UInt32)
    (maxThreads_pos : 1 ≤ options.maxThreads) :
    0 < options.threadCount hardwareConcurrency ↔ options.threads ≠ 0 := by
  unfold Options.threadCount
  constructor
  · rintro positive none_asked
    rw [if_neg (not_not.mpr none_asked), none_asked] at positive
    cases positive
  · intro asked
    rw [if_pos asked]
    exact clamp_pos (UInt8.le_iff_toNat_le.mp maxThreads_pos)

theorem not_serves_of_no_workers :
    ∃ pool, Runs.Reachable step (withWorkers 0) pool ∧ pool.phase = .alive ∧ ¬ pool.Serves := by
  refine ⟨_, ⟨[.submit .normal], rfl⟩, rfl, ?_⟩
  intro serves
  obtain ⟨worker, member, _⟩ := serves (List.cons_ne_nil _ _)
  cases member

/-- Whatever the hardware, no pool gets stuck before its destructor starts if and only if its
options ask for threads. -/
theorem serves_iff_threads_ne_zero (options : Options) (hardwareConcurrency : UInt32)
    (maxThreads_pos : 1 ≤ options.maxThreads) :
    (∀ pool, Runs.Reachable step (create options hardwareConcurrency) pool →
        pool.phase = .alive → pool.Serves) ↔
      options.threads ≠ 0 := by
  rw [← threadCount_pos_iff hardwareConcurrency maxThreads_pos]
  constructor
  · intro serves
    refine Nat.pos_of_ne_zero ?_
    intro no_threads
    obtain ⟨pool, reachable, alive, stuck⟩ := not_serves_of_no_workers
    rw [create, no_threads] at serves
    exact stuck (serves pool reachable alive)
  · intro positive pool reachable alive
    exact (attended_of_reachable positive reachable alive).serves

/-- Two threads are asked for, and one is started. -/
theorem serves_two_threads :
    ({ threads := 2, maxThreads := 1 } : Options).threadCount 8 = 1 ∧
      ∀ pool, Runs.Reachable step (create { threads := 2, maxThreads := 1 } 8) pool →
        pool.phase = .alive → pool.Serves := by
  refine ⟨rfl, ?_⟩
  exact (serves_iff_threads_ne_zero { threads := 2, maxThreads := 1 } 8 (by decide)).mpr (by decide)

/-- With the default options the constructor starts no thread, and the first task waits forever. -/
theorem not_serves_default_options :
    ∃ pool, Runs.Reachable step (create {} 8) pool ∧ pool.phase = .alive ∧ ¬ pool.Serves :=
  not_serves_of_no_workers

end Pool
end Fusion.ThreadPool
