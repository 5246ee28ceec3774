import Fusion.ThreadPool.Queue

/-!
# A thread pool and its workers

The pool is a queue with its worker threads, the calls that other threads make, and the destructor.
Each locked section is one step, and so is each call of a completer, each notification of the
condition variable and each return of a task function.
-/

namespace Fusion.ThreadPool

/-- What sets the number of threads. -/
structure Options where
  threads : UInt32 := 0
  maxThreads : UInt8 := 255

def clamp (value low high : Nat) : Nat :=
  if value < low then low else if high < value then high else value

/-- The number of threads that the constructor starts. -/
def Options.threadCount (options : Options) (hardwareConcurrency : UInt32) : Nat :=
  if options.threads ≠ 0 then clamp hardwareConcurrency.toNat 1 options.maxThreads.toNat
  else options.threads.toNat

/-- Where a thread is in `ThreadPool::RunThread`. -/
inductive Worker
  /-- About to take the lock in `DequeueTask`. -/
  | ready
  /-- Blocked on the condition variable. -/
  | waiting
  | running (task : Task)
  /-- In a task function that has called its completer. -/
  | completed
  | exited
deriving DecidableEq, Repr

/-- Where `ThreadPool::~ThreadPool` is. -/
inductive Phase
  | alive
  /-- The queue is shut down; these tasks were swapped out. -/
  | stopping (tasks : List Task)
  /-- The workers are notified; these tasks have yet to be completed. -/
  | completing (tasks : List Task)
  /-- In the final loop, which has completed these tasks. -/
  | sweeping (swept : List Nat)
  | returned
deriving DecidableEq, Repr

/-- The queue and the threads of a pool. -/
structure Pool where
  queue : Queue := {}
  workers : List Worker
  /-- Calls of `SubmitTask` that have yet to notify a worker. -/
  notifications : Nat := 0
  phase : Phase := .alive
  /-- The tasks whose completers were called, in order. -/
  completed : List Nat := []

/-- Steps of the pool's users, its workers and its destructor. -/
inductive Action
  | submit (priority : Priority)
  /-- The `notify_one` of a `SubmitTask`, which wakes one worker if any is waiting. -/
  | notify (woken : Option Nat)
  | cancel (id : BitVec 64)
  | dequeue (worker : Nat)
  | complete (worker : Nat)
  | finish (worker : Nat)
  /-- A wakeup of the condition variable that no notification caused. -/
  | wake (worker : Nat)
  | shutdown
  | notifyAll
  | completeSwapped
  | join
  | sweep

/-- `notify_all` for one worker. -/
def Worker.notified : Worker → Worker
  | .waiting => .ready
  | worker => worker

namespace Pool

/-- A pool of workers that look for tasks. -/
def withWorkers (count : Nat) : Pool where
  workers := List.replicate count .ready

/-- `ThreadPool::ThreadPool`. -/
def create (options : Options) (hardwareConcurrency : UInt32) : Pool :=
  withWorkers (options.threadCount hardwareConcurrency)

def assign (pool : Pool) (index : Nat) (worker : Worker) : Pool :=
  { pool with workers := pool.workers.set index worker }

/-- The effect of an action, where it is possible.  No task is submitted once the final loop has
begun. -/
def act (pool : Pool) : Action → Option Pool
  | .submit priority =>
    match pool.phase with
    | .sweeping _ => none
    | _ => some { pool with
        queue := (pool.queue.submitTask priority).1
        notifications := pool.notifications + 1 }
  | .notify (some index) =>
    if 0 < pool.notifications ∧ pool.workers[index]? = some .waiting then
      some ({ pool with notifications := pool.notifications - 1 }.assign index .ready)
    else none
  | .notify none =>
    if 0 < pool.notifications ∧ .waiting ∉ pool.workers then
      some { pool with notifications := pool.notifications - 1 }
    else none
  | .cancel id => some { pool with
      queue := (pool.queue.cancel id).1
      completed := pool.completed ++ ((pool.queue.cancel id).2.map Task.uid).toList }
  | .dequeue index =>
    match pool.workers[index]?, pool.queue.dequeueTask with
    | some .ready, none => some (pool.assign index .waiting)
    | some .ready, some (queue, none) => some ({ pool with queue }.assign index .exited)
    | some .ready, some (queue, some task) =>
      some ({ pool with queue }.assign index (.running task))
    | _, _ => none
  | .complete index =>
    match pool.workers[index]? with
    | some (.running task) => some
        ({ pool with completed := pool.completed ++ [task.uid] }.assign index .completed)
    | _ => none
  | .finish index =>
    if pool.workers[index]? = some .completed then some (pool.assign index .ready) else none
  | .wake index =>
    if pool.workers[index]? = some .waiting then some (pool.assign index .ready) else none
  | .shutdown =>
    match pool.phase with
    | .alive => some { pool with
        queue := pool.queue.shutdown.1
        phase := .stopping pool.queue.shutdown.2 }
    | _ => none
  | .notifyAll =>
    match pool.phase with
    | .stopping tasks => some { pool with
        workers := pool.workers.map Worker.notified
        phase := .completing tasks }
    | _ => none
  | .completeSwapped =>
    match pool.phase with
    | .completing (task :: tasks) => some { pool with
        phase := .completing tasks
        completed := pool.completed ++ [task.uid] }
    | _ => none
  | .join =>
    match pool.phase with
    | .completing [] =>
      if ∀ worker ∈ pool.workers, worker = .exited then
        some { pool with phase := .sweeping [] }
      else none
    | _ => none
  | .sweep =>
    match pool.phase with
    | .sweeping swept =>
      match pool.queue.tasks.find? fun task => task.uid ∉ swept with
      | some task => some { pool with
          phase := .sweeping (task.uid :: swept)
          completed := pool.completed ++ [task.uid] }
      | none => some { pool with phase := .returned }
    | _ => none

/-- Take one step; a pool that is destroyed takes none. -/
def step (pool : Pool) (action : Action) : Option Pool :=
  if pool.phase = .returned then none else pool.act action

/-- What each step does, where it is possible. -/
inductive Step (pool : Pool) : Action → Pool → Prop
  | submit (priority : Priority) (open_phase : ∀ swept, pool.phase ≠ .sweeping swept) :
      Step pool (.submit priority) { pool with
        queue := (pool.queue.submitTask priority).1
        notifications := pool.notifications + 1 }
  | notify {index : Nat} (waits : pool.workers[index]? = some .waiting) :
      Step pool (.notify (some index))
        ({ pool with notifications := pool.notifications - 1 }.assign index .ready)
  | notifyNobody (none_waits : .waiting ∉ pool.workers) :
      Step pool (.notify none) { pool with notifications := pool.notifications - 1 }
  | cancel (id : BitVec 64) :
      Step pool (.cancel id) { pool with
        queue := (pool.queue.cancel id).1
        completed := pool.completed ++ ((pool.queue.cancel id).2.map Task.uid).toList }
  | wait {index : Nat} (ready : pool.workers[index]? = some .ready)
      (blocked : pool.queue.dequeueTask = none) :
      Step pool (.dequeue index) (pool.assign index .waiting)
  | exit {index : Nat} (ready : pool.workers[index]? = some .ready)
      (stopped : pool.queue.running = false) :
      Step pool (.dequeue index) (pool.assign index .exited)
  | take {index : Nat} {queue : Queue} {task : Task}
      (ready : pool.workers[index]? = some .ready)
      (popped : pool.queue.popFront = some (queue, task)) :
      Step pool (.dequeue index) ({ pool with queue }.assign index (.running task))
  | complete {index : Nat} {task : Task} (runs : pool.workers[index]? = some (.running task)) :
      Step pool (.complete index)
        ({ pool with completed := pool.completed ++ [task.uid] }.assign index .completed)
  | finish {index : Nat} (done : pool.workers[index]? = some .completed) :
      Step pool (.finish index) (pool.assign index .ready)
  | wake {index : Nat} (waits : pool.workers[index]? = some .waiting) :
      Step pool (.wake index) (pool.assign index .ready)
  | shutdown (alive : pool.phase = .alive) :
      Step pool .shutdown { pool with
        queue := pool.queue.shutdown.1
        phase := .stopping pool.queue.shutdown.2 }
  | notifyAll {tasks : List Task} (stopping : pool.phase = .stopping tasks) :
      Step pool .notifyAll { pool with
        workers := pool.workers.map Worker.notified
        phase := .completing tasks }
  | completeSwapped {task : Task} {tasks : List Task}
      (completing : pool.phase = .completing (task :: tasks)) :
      Step pool .completeSwapped { pool with
        phase := .completing tasks
        completed := pool.completed ++ [task.uid] }
  | join (completing : pool.phase = .completing [])
      (exited : ∀ worker ∈ pool.workers, worker = .exited) :
      Step pool .join { pool with phase := .sweeping [] }
  | sweep {swept : List Nat} {task : Task} (sweeping : pool.phase = .sweeping swept)
      (found : (pool.queue.tasks.find? fun task => task.uid ∉ swept) = some task) :
      Step pool .sweep { pool with
        phase := .sweeping (task.uid :: swept)
        completed := pool.completed ++ [task.uid] }
  | leave {swept : List Nat} (sweeping : pool.phase = .sweeping swept)
      (done : ∀ task ∈ pool.queue.tasks, task.uid ∈ swept) :
      Step pool .sweep { pool with phase := .returned }

variable {next pool : Pool}

theorem step_of_dequeue {index : Nat} (act_eq : pool.act (.dequeue index) = some next) :
    Step pool (.dequeue index) next := by
  simp only [act] at act_eq
  split at act_eq
  · rename_i ready blocked
    obtain rfl := Option.some.inj act_eq
    exact .wait ready blocked
  · rename_i queue ready taken
    obtain rfl := Option.some.inj act_eq
    rcases Queue.dequeueTask_cases taken with ⟨stopped, rfl, _⟩ | ⟨_, task, _, dequeued_eq⟩
    · exact .exit ready stopped
    · cases dequeued_eq
  · rename_i queue task ready taken
    obtain rfl := Option.some.inj act_eq
    rcases Queue.dequeueTask_cases taken with ⟨_, _, dequeued_eq⟩ | ⟨_, first, popped, dequeued_eq⟩
    · cases dequeued_eq
    · cases dequeued_eq
      exact .take ready popped
  · cases act_eq

theorem step_of_sweep (act_eq : pool.act .sweep = some next) : Step pool .sweep next := by
  simp only [act] at act_eq
  split at act_eq
  · rename_i swept sweeping
    split at act_eq
    · rename_i task found
      obtain rfl := Option.some.inj act_eq
      exact .sweep sweeping found
    · rename_i none_left
      obtain rfl := Option.some.inj act_eq
      refine .leave sweeping ?_
      intro task queued
      simpa using List.find?_eq_none.mp none_left task queued
  · cases act_eq

theorem step_of_act_eq {action : Action} (act_eq : pool.act action = some next) :
    Step pool action next := by
  cases action with
  | dequeue index => exact step_of_dequeue act_eq
  | sweep => exact step_of_sweep act_eq
  | submit priority =>
    simp only [act] at act_eq
    split at act_eq
    · cases act_eq
    · rename_i not_sweeping
      obtain rfl := Option.some.inj act_eq
      exact .submit priority not_sweeping
  | notify woken =>
    cases woken with
    | none =>
      simp only [act] at act_eq
      split_ifs at act_eq with enabled
      obtain rfl := Option.some.inj act_eq
      exact .notifyNobody enabled.2
    | some index =>
      simp only [act] at act_eq
      split_ifs at act_eq with enabled
      obtain rfl := Option.some.inj act_eq
      exact .notify enabled.2
  | cancel id =>
    obtain rfl := Option.some.inj act_eq
    exact .cancel id
  | complete index =>
    simp only [act] at act_eq
    split at act_eq
    · rename_i task runs
      obtain rfl := Option.some.inj act_eq
      exact .complete runs
    · cases act_eq
  | finish index =>
    simp only [act] at act_eq
    split_ifs at act_eq with done
    obtain rfl := Option.some.inj act_eq
    exact .finish done
  | wake index =>
    simp only [act] at act_eq
    split_ifs at act_eq with waits
    obtain rfl := Option.some.inj act_eq
    exact .wake waits
  | shutdown =>
    simp only [act] at act_eq
    split at act_eq
    · rename_i alive
      obtain rfl := Option.some.inj act_eq
      exact .shutdown alive
    · cases act_eq
  | notifyAll =>
    simp only [act] at act_eq
    split at act_eq
    · rename_i tasks stopping
      obtain rfl := Option.some.inj act_eq
      exact .notifyAll stopping
    · cases act_eq
  | completeSwapped =>
    simp only [act] at act_eq
    split at act_eq
    · rename_i task tasks completing
      obtain rfl := Option.some.inj act_eq
      exact .completeSwapped completing
    · cases act_eq
  | join =>
    simp only [act] at act_eq
    split at act_eq
    · rename_i completing
      split_ifs at act_eq with exited
      obtain rfl := Option.some.inj act_eq
      exact .join completing exited
    · cases act_eq

theorem step_of_step_eq {action : Action} (step_eq : pool.step action = some next) :
    pool.phase ≠ .returned ∧ Step pool action next := by
  simp only [step] at step_eq
  split_ifs at step_eq with destroyed
  exact ⟨destroyed, step_of_act_eq step_eq⟩

end Pool
end Fusion.ThreadPool
