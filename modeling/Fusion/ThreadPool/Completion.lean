import Fusion.Library.Ledger
import Fusion.ThreadPool.Pool

/-!
# Every task is completed once

A task that was submitted is in the queue, among the tasks that the destructor swapped out, or with
a worker, until its completer is called.  The final loop of the destructor leaves the tasks that it
completes in the queue and in the id map, where `Cancel` still finds them.
-/

namespace Fusion.ThreadPool

/-- The task that a worker has yet to complete. -/
def Worker.holds : Worker → List Nat
  | .running task => [task.uid]
  | _ => []

namespace Phase

/-- The destructor has joined the workers. -/
def Joined : Phase → Prop
  | .sweeping _ => True
  | .returned => True
  | _ => False

/-- The queued tasks that have yet to be completed. -/
def unswept (tasks : List Task) : Phase → List Nat
  | .sweeping swept => (tasks.map Task.uid).filter (· ∉ swept)
  | .returned => []
  | _ => tasks.map Task.uid

/-- The tasks that the destructor has yet to complete outside the queue. -/
def swapped : Phase → List Nat
  | .stopping tasks => tasks.map Task.uid
  | .completing tasks => tasks.map Task.uid
  | _ => []

theorem unswept_of_not_joined {phase : Phase} (working : ¬ phase.Joined) (tasks : List Task) :
    phase.unswept tasks = tasks.map Task.uid := by
  cases phase with
  | alive => rfl
  | stopping swapped => rfl
  | completing swapped => rfl
  | sweeping swept => exact absurd trivial working
  | returned => exact absurd trivial working

end Phase

namespace Pool

/-- The tasks that were submitted and not completed, by their places. -/
def outstanding (pool : Pool) : List Nat :=
  pool.phase.unswept pool.queue.tasks ++ (pool.phase.swapped ++ pool.workers.flatMap Worker.holds)

/-- Every task that was submitted is in one place or completed. -/
structure Accounted (pool : Pool) : Prop where
  linked : pool.queue.Linked
  joined : pool.phase.Joined → ∀ worker ∈ pool.workers, worker = .exited
  balanced : Ledger.Balanced (List.range pool.queue.submissions) pool.outstanding pool.completed

theorem flatMap_holds_of_forall {workers : List Worker}
    (empty : ∀ worker ∈ workers, worker.holds = []) : workers.flatMap Worker.holds = [] :=
  List.flatMap_eq_nil_iff.mpr empty

theorem accounted_withWorkers (count : Nat) : (withWorkers count).Accounted where
  linked := Queue.linked_empty
  joined := nofun
  balanced := by
    have idle : (withWorkers count).workers.flatMap Worker.holds = [] := by
      refine flatMap_holds_of_forall ?_
      intro worker member
      rw [List.eq_of_mem_replicate member]
      rfl
    have empty : (withWorkers count).outstanding = [] := idle
    rw [empty]
    exact Ledger.balanced_nil

variable {pool : Pool}

theorem Accounted.not_joined (accounted : pool.Accounted) {index : Nat} {worker : Worker}
    (slot : pool.workers[index]? = some worker) (active : worker ≠ .exited) : ¬ pool.phase.Joined :=
  fun joined => active (accounted.joined joined worker (List.mem_of_getElem? slot))

theorem Accounted.assign (accounted : pool.Accounted) {index : Nat} {old new : Worker}
    (slot : pool.workers[index]? = some old) (active : old ≠ .exited) (old_holds : old.holds = [])
    (new_holds : new.holds = []) :
    (pool.assign index new).Accounted where
  linked := accounted.linked
  joined joined := absurd joined (accounted.not_joined slot active)
  balanced := by
    have workers_perm := @Ledger.perm_flatMap_set _ _ Worker.holds _ _ _ new slot
    rw [old_holds, new_holds] at workers_perm
    exact accounted.balanced.move ((workers_perm.append_left _).append_left _)

theorem Accounted.submit (accounted : pool.Accounted) (priority : Priority)
    (working : ¬ pool.phase.Joined) :
    Accounted { pool with
      queue := (pool.queue.submitTask priority).1
      notifications := pool.notifications + 1 } where
  linked := accounted.linked.submitTask priority
  joined := accounted.joined
  balanced := by
    have placed := (StableQueue.perm_insert (fun task : Task => task.priority.rank)
      (pool.queue.submitTask priority).2 pool.queue.tasks).map Task.uid
    have issued : List.range (pool.queue.submitTask priority).1.submissions =
        List.range pool.queue.submissions ++ [pool.queue.submissions] := List.range_succ
    rw [issued]
    refine accounted.balanced.issue List.not_mem_range_self ?_
    simp only [outstanding, Phase.unswept_of_not_joined working]
    exact placed.append_right _

variable {task : Task}

theorem perm_uids_of_removes {queue next : Queue} (removes : queue.Removes next task) :
    (queue.tasks.map Task.uid).Perm (task.uid :: next.tasks.map Task.uid) := by
  rw [removes.uids_eq]
  exact List.perm_cons_erase (List.mem_map_of_mem removes.queued)

theorem Accounted.take {pool : Pool} (accounted : pool.Accounted) {index : Nat} {queue : Queue}
    {task : Task} (ready : pool.workers[index]? = some .ready)
    (popped : pool.queue.popFront = some (queue, task)) :
    ({ pool with queue }.assign index (.running task)).Accounted where
  linked := (Queue.removes_of_popFront popped).1.linked accounted.linked
  joined joined := absurd joined (accounted.not_joined ready nofun)
  balanced := by
    have removes := (Queue.removes_of_popFront popped).1
    have working := accounted.not_joined ready nofun
    have queue_perm := perm_uids_of_removes removes
    have workers_perm := @Ledger.perm_flatMap_set _ _ Worker.holds _ _ _ (.running task) ready
    have issued : List.range queue.submissions = List.range pool.queue.submissions := by
      rw [removes.submissions_eq]
    change Ledger.Balanced (List.range queue.submissions) _ _
    rw [issued]
    refine accounted.balanced.move ?_
    simp only [outstanding, Pool.assign, Phase.unswept_of_not_joined working]
    calc
      List.Perm _ (queue.tasks.map Task.uid ++ (pool.phase.swapped ++
          task.uid :: pool.workers.flatMap Worker.holds)) :=
        (workers_perm.append_left _).append_left _
      List.Perm _ (task.uid :: queue.tasks.map Task.uid ++
          (pool.phase.swapped ++ pool.workers.flatMap Worker.holds)) := Ledger.perm_cons_of_third
      List.Perm _ _ := queue_perm.symm.append_right _

theorem Accounted.complete {pool : Pool} (accounted : pool.Accounted) {index : Nat} {task : Task}
    (runs : pool.workers[index]? = some (.running task)) :
    ({ pool with completed := pool.completed ++ [task.uid] }.assign
      index .completed).Accounted where
  linked := accounted.linked
  joined joined := absurd joined (accounted.not_joined runs nofun)
  balanced := by
    have workers_perm := @Ledger.perm_flatMap_set _ _ Worker.holds _ _ _ .completed runs
    refine accounted.balanced.settle ?_
    calc
      List.Perm _ (pool.phase.unswept pool.queue.tasks ++ (pool.phase.swapped ++
          task.uid :: (pool.workers.set index .completed).flatMap Worker.holds)) :=
        (workers_perm.symm.append_left _).append_left _
      List.Perm _ _ := Ledger.perm_cons_of_third

/-- A `Cancel` completes the task that it removes, which no loop has completed. -/
theorem Accounted.cancel (accounted : pool.Accounted) (id : BitVec 64)
    (untouched : pool.phase.Joined → pool.queue.idMap id = none) :
    Accounted { pool with
      queue := (pool.queue.cancel id).1
      completed := pool.completed ++ ((pool.queue.cancel id).2.map Task.uid).toList } := by
  rcases accounted.linked.cancel_cases id with ⟨_, cancel_eq⟩ | ⟨task, _, entry, removes, found⟩
  · rw [cancel_eq]
    refine ⟨accounted.linked, accounted.joined, ?_⟩
    simpa using accounted.balanced
  · have working : ¬ pool.phase.Joined := by
      intro joined
      rw [untouched joined] at entry
      cases entry
    rw [found]
    refine ⟨removes.linked accounted.linked, accounted.joined, ?_⟩
    change Ledger.Balanced (List.range (pool.queue.cancel id).1.submissions) _ _
    rw [removes.submissions_eq]
    refine accounted.balanced.settle ?_
    simp only [outstanding, Phase.unswept_of_not_joined working]
    exact (perm_uids_of_removes removes).append_right _

theorem Accounted.shutdown (accounted : pool.Accounted) (alive : pool.phase = .alive) :
    Accounted { pool with
      queue := pool.queue.shutdown.1
      phase := .stopping pool.queue.shutdown.2 } where
  linked := ⟨List.nodup_nil, fun _ => nofun, fun _ _ => nofun⟩
  joined := nofun
  balanced := by
    have balanced := accounted.balanced
    simp only [outstanding, alive] at balanced
    exact balanced

theorem flatMap_holds_notified (workers : List Worker) :
    (workers.map Worker.notified).flatMap Worker.holds = workers.flatMap Worker.holds := by
  rw [List.flatMap_map]
  congr 1
  funext worker
  cases worker <;> rfl

theorem Accounted.notifyAll (accounted : pool.Accounted) {tasks : List Task}
    (stopping : pool.phase = .stopping tasks) :
    Accounted { pool with
      workers := pool.workers.map Worker.notified
      phase := .completing tasks } where
  linked := accounted.linked
  joined := nofun
  balanced := by
    have balanced := accounted.balanced
    simp only [outstanding, stopping] at balanced
    simp only [outstanding, flatMap_holds_notified]
    exact balanced

theorem Accounted.completeSwapped (accounted : pool.Accounted) {tasks : List Task}
    (completing : pool.phase = .completing (task :: tasks)) :
    Accounted { pool with
      phase := .completing tasks
      completed := pool.completed ++ [task.uid] } where
  linked := accounted.linked
  joined := nofun
  balanced := by
    refine accounted.balanced.settle ?_
    simp only [outstanding, completing]
    exact List.perm_middle

theorem Accounted.join {pool : Pool} (accounted : pool.Accounted)
    (completing : pool.phase = .completing [])
    (exited : ∀ worker ∈ pool.workers, worker = .exited) :
    Accounted { pool with phase := .sweeping [] } where
  linked := accounted.linked
  joined _ := exited
  balanced := by
    have balanced := accounted.balanced
    simp only [outstanding, completing] at balanced
    simpa [outstanding, Phase.unswept, Phase.swapped] using balanced

theorem Accounted.sweep (accounted : pool.Accounted) {swept : List Nat}
    (sweeping : pool.phase = .sweeping swept)
    (found : (pool.queue.tasks.find? fun task => task.uid ∉ swept) = some task) :
    Accounted { pool with
      phase := .sweeping (task.uid :: swept)
      completed := pool.completed ++ [task.uid] } where
  linked := accounted.linked
  joined _ := accounted.joined (sweeping ▸ trivial)
  balanced := by
    refine accounted.balanced.settle ?_
    have queued : task.uid ∈ pool.queue.tasks.map Task.uid :=
      List.mem_map_of_mem (List.mem_of_find?_eq_some found)
    have unmarked : task.uid ∉ swept := by simpa using List.find?_some found
    have marked := Ledger.perm_filter_notMem accounted.linked.nodup queued unmarked
    simp only [outstanding, sweeping]
    exact marked.append_right _

theorem Accounted.leave {pool : Pool} (accounted : pool.Accounted) {swept : List Nat}
    (sweeping : pool.phase = .sweeping swept) (done : ∀ task ∈ pool.queue.tasks, task.uid ∈ swept) :
    Accounted { pool with phase := .returned } where
  linked := accounted.linked
  joined _ := accounted.joined (sweeping ▸ trivial)
  balanced := by
    have none_left : (pool.queue.tasks.map Task.uid).filter (· ∉ swept) = [] := by
      simpa using done
    have balanced := accounted.balanced
    simp only [outstanding, sweeping, Phase.unswept, none_left] at balanced
    exact balanced

/-- A `Cancel` made during the final loop finds no task. -/
def Quiet (pool : Pool) : Action → Prop
  | .cancel id => pool.phase.Joined → pool.queue.idMap id = none
  | _ => True

theorem Accounted.next {pool next : Pool} {action : Action} (accounted : pool.Accounted)
    (step_eq : pool.step action = some next) (quiet : pool.Quiet action) : next.Accounted := by
  obtain ⟨not_returned, taken⟩ := step_of_step_eq step_eq
  cases taken with
  | submit priority not_sweeping =>
    refine accounted.submit priority ?_
    cases phase_eq : pool.phase with
    | alive => exact id
    | stopping tasks => exact id
    | completing tasks => exact id
    | sweeping swept => exact absurd phase_eq (not_sweeping swept)
    | returned => exact absurd phase_eq not_returned
  | notify waits =>
    have assigned := accounted.assign waits nofun rfl (rfl : Worker.ready.holds = [])
    exact ⟨assigned.linked, assigned.joined, assigned.balanced⟩
  | notifyNobody => exact ⟨accounted.linked, accounted.joined, accounted.balanced⟩
  | cancel id => exact accounted.cancel id quiet
  | wait ready => exact accounted.assign ready nofun rfl rfl
  | exit ready => exact accounted.assign ready nofun rfl rfl
  | take ready popped => exact accounted.take ready popped
  | complete runs => exact accounted.complete runs
  | finish done => exact accounted.assign done nofun rfl rfl
  | wake waits => exact accounted.assign waits nofun rfl rfl
  | shutdown alive => exact accounted.shutdown alive
  | notifyAll stopping => exact accounted.notifyAll stopping
  | completeSwapped completing => exact accounted.completeSwapped completing
  | join completing exited => exact accounted.join completing exited
  | sweep sweeping found => exact accounted.sweep sweeping found
  | leave sweeping done => exact accounted.leave sweeping done

/-- No completer was called twice, and none was left out when the destructor has returned. -/
def CompletesOnce (pool : Pool) : Prop :=
  (∀ uid, pool.completed.count uid ≤ 1) ∧
    (pool.phase = .returned → ∀ uid < pool.queue.submissions, pool.completed.count uid = 1)

theorem Accounted.completesOnce (accounted : pool.Accounted) : pool.CompletesOnce := by
  have nodup := accounted.balanced.nodup_settled
  constructor
  · exact List.nodup_iff_count_le_one.mp nodup
  · intro returned uid submitted
    have idle : pool.workers.flatMap Worker.holds = [] := by
      refine flatMap_holds_of_forall ?_
      intro worker member
      rw [accounted.joined (returned ▸ trivial) worker member]
      rfl
    have balanced := accounted.balanced
    simp only [outstanding, returned, idle] at balanced
    exact List.count_eq_one_of_mem nodup (balanced.mem_settled (List.mem_range.mpr submitted))

/-- Whatever the number of workers and the interleaving, every task is completed once if no
`Cancel` finds a task while the final loop runs. -/
theorem completesOnce_of_quiet (count : Nat) (actions : List Action)
    (quiet : Runs.EveryStep step (withWorkers count) (fun _ pool action _ => pool.Quiet action)
      actions) :
    Runs.EveryState step (withWorkers count) (fun _ pool => pool.CompletesOnce) actions := by
  rintro front back pool rfl execution
  have accounted : pool.Accounted := by
    refine @Runs.EveryStep.invariant _ _ _ _ _ (fun _ pool => pool.Accounted)
      (accounted_withWorkers count) ?_ _ quiet.of_append _ execution
    intro front before action after accounted step_eq holds
    exact accounted.next step_eq holds
  exact accounted.completesOnce

/-- One task each for `Cancel`, a worker, the swapped map and the final loop. -/
def fourWays : List Action :=
  [.submit .normal, .submit .high, .submit .low, .cancel 1, .dequeue 0, .shutdown, .notifyAll,
    .submit .normal, .completeSwapped, .complete 0, .finish 0, .dequeue 0, .join, .sweep, .sweep]

theorem completesOnce_of_quiet_fourWays :
    ∃ pool, Runs.run step (withWorkers 1) fourWays = some pool ∧ pool.phase = .returned ∧
      pool.queue.submissions = 4 ∧ pool.CompletesOnce := by
  have once := completesOnce_of_quiet 1 fourWays (by
    iterate 3 refine Runs.everyStep_cons rfl trivial ?_
    refine Runs.everyStep_cons rfl nofun ?_
    iterate 11 refine Runs.everyStep_cons rfl trivial ?_
    exact Runs.everyStep_nil _ _ _)
  exact ⟨_, rfl, rfl, rfl, once fourWays [] _ (List.append_nil _).symm rfl⟩

/-- A task submitted while the destructor waits for the worker is completed by the final loop, and
once more by a `Cancel` that comes before the destructor returns. -/
theorem not_completesOnce_cancel_swept :
    ¬ Runs.EveryState step (withWorkers 1) (fun _ pool => pool.CompletesOnce)
      [.shutdown, .notifyAll, .submit .normal, .dequeue 0, .join, .sweep, .cancel 1] := by
  intro every
  have once := every _ [] _ (List.append_nil _).symm rfl
  exact absurd (once.1 0) (by decide)

end Pool
end Fusion.ThreadPool
