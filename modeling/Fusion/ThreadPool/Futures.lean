import Fusion.ThreadPool.Completion

/-!
# Futures of a thread pool

`Await` submits a function with a completer that stores the answer in a promise, and returns a
`Future` for it.  The pool is the one of the other modules; here its tasks have functions, its
completers store answers, and the futures are cancelled, released, read and destroyed.
-/

namespace Fusion.ThreadPool

/-- The codes of the failures that completers are given. -/
inductive Code
  | success
  | cancelled
deriving DecidableEq, Repr

/-- The `Result` in a promise.  One that holds a `Failure` has failed, whatever the code. -/
abbrev Answer (ρ : Type) := Except Code ρ

/-- A function passed to `Await`. -/
inductive Body (ρ : Type)
  | returns (value : ρ)
  | void
deriving DecidableEq, Repr

namespace Body

variable {ρ : Type}

/-- The completion handler that `Await` makes.  Its arguments are pointers, null where there is no
value; it has no answer where it reads through a null pointer. -/
def completer : Body ρ → Option ρ → Option Code → Option (Answer ρ)
  | _, _, some error => some (.error error)
  | .void, _, none => some (.error .success)
  | .returns _, result, none => result.map .ok

/-- What the task function hands to its completer when the function has returned. -/
def reports : Body ρ → Option ρ × Option Code
  | .void => (none, some .success)
  | .returns value => (some value, none)

/-- The answer of a function that has run. -/
def answer (body : Body ρ) : Option (Answer ρ) := body.completer body.reports.1 body.reports.2

@[simp]
theorem answer_returns (value : ρ) : (returns value).answer = some (.ok value) := rfl

@[simp]
theorem answer_void : (void : Body ρ).answer = some (.error .success) := rfl

theorem answer_eq_ok_iff {body : Body ρ} {value : ρ} :
    body.answer = some (.ok value) ↔ body = .returns value := by
  cases body <;> simp

theorem exists_answer (body : Body ρ) : ∃ answer, body.answer = some answer := by
  cases body with
  | returns value => exact ⟨_, rfl⟩
  | void => exact ⟨_, rfl⟩

end Body

/-- What has become of a `Future`. -/
inductive Handle
  | held
  /-- Its destructor waits for the answer. -/
  | waiting
  /-- The shared state was released or read, or the future is destroyed. -/
  | gone
deriving DecidableEq, Repr

/-- A task and what became of its future. -/
structure Future where
  id : BitVec 64
  handle : Handle := .held
deriving DecidableEq, Repr

/-- A pool with the functions and futures of its tasks, which are numbered in the order of their
submission. -/
structure Awaits (ρ : Type) where
  pool : Pool
  bodies : List (Body ρ) := []
  futures : List Future := []
  /-- The tasks whose functions a worker has begun to run. -/
  started : List Nat := []
  /-- The answers stored in promises, in order. -/
  stored : List (Nat × Answer ρ) := []

variable {action : Action}

namespace Awaits

variable {ρ : Type}

/-- What a program does with futures. -/
inductive Call (ρ : Type)
  | await (body : Body ρ) (priority : Priority)
  /-- A step of the pool other than `SubmitTask`. -/
  | run (action : Action)
  /-- `Future::Cancel`. -/
  | cancel (uid : Nat)
  /-- `Future::Release`. -/
  | release (uid : Nat)
  /-- `get` on the future, which waits for the answer. -/
  | get (uid : Nat)
  /-- `Future::~Future` up to its wait. -/
  | destroy (uid : Nat)
  /-- The wait of `Future::~Future` is over. -/
  | leave (uid : Nat)

/-- The task whose function begins with this step. -/
def begins (pool : Pool) : Action → List Nat
  | .dequeue index =>
    match pool.workers[index]? with
    | some (.running task) => [task.uid]
    | _ => []
  | _ => []

/-- What the completer of a task stores.  A worker calls it after the function; every other call is
for a task that is cancelled. -/
def stores (bodies : List (Body ρ)) (action : Action) (uid : Nat) : Option (Nat × Answer ρ) := do
  let body ← bodies[uid]?
  let answer ←
    match action with
    | .complete _ => body.answer
    | _ => body.completer none (some .cancelled)
  return (uid, answer)

/-- A step of the pool with the answers that it stores. -/
def advance (state : Awaits ρ) (action : Action) : Option (Awaits ρ) :=
  (state.pool.step action).map fun pool => { state with
    pool
    started := state.started ++ begins pool action
    stored := state.stored ++
      (pool.completed.drop state.pool.completed.length).filterMap (stores state.bodies action) }

def setHandle (state : Awaits ρ) (uid : Nat) (handle : Handle) : Awaits ρ :=
  { state with futures := state.futures.modify uid fun future => { future with handle } }

/-- The promise of the task has its answer. -/
def Answered (state : Awaits ρ) (uid : Nat) : Prop := uid ∈ state.stored.map Prod.fst

instance (state : Awaits ρ) (uid : Nat) : Decidable (state.Answered uid) :=
  inferInstanceAs (Decidable (_ ∈ _))

def step (state : Awaits ρ) : Call ρ → Option (Awaits ρ)
  | .await body priority =>
    (state.advance (.submit priority)).map fun next => { next with
      bodies := state.bodies ++ [body]
      futures := state.futures ++ [{ id := state.pool.queue.nextTaskId }] }
  | .run (.submit _) => none
  | .run action => state.advance action
  | .cancel uid =>
    match state.futures[uid]? with
    | some ⟨id, .held⟩ => state.advance (.cancel id)
    | some ⟨_, .gone⟩ => some state
    | _ => none
  | .release uid =>
    match state.futures[uid]? with
    | some ⟨_, .held⟩ => some (state.setHandle uid .gone)
    | _ => none
  | .get uid =>
    match state.futures[uid]? with
    | some ⟨_, .held⟩ => if state.Answered uid then some (state.setHandle uid .gone) else none
    | _ => none
  | .destroy uid =>
    match state.futures[uid]? with
    | some ⟨id, .held⟩ => (state.advance (.cancel id)).map (setHandle · uid .waiting)
    | some ⟨_, .gone⟩ => some state
    | _ => none
  | .leave uid =>
    match state.futures[uid]? with
    | some ⟨_, .waiting⟩ => if state.Answered uid then some (state.setHandle uid .gone) else none
    | _ => none

def withWorkers (count : Nat) : Awaits ρ where
  pool := Pool.withWorkers count

/-- The step of the pool that a call makes, if it makes one. -/
def poolAction (state : Awaits ρ) : Call ρ → Option Action
  | .await _ priority => some (.submit priority)
  | .run action => some action
  | .cancel uid =>
    match state.futures[uid]? with
    | some ⟨id, .held⟩ => some (.cancel id)
    | _ => none
  | .destroy uid =>
    match state.futures[uid]? with
    | some ⟨id, .held⟩ => some (.cancel id)
    | _ => none
  | _ => none

/-- No `Cancel` finds a task while the final loop of the pool's destructor runs. -/
def Quiet (state : Awaits ρ) (call : Call ρ) : Prop :=
  ∀ action, state.poolAction call = some action → state.pool.Quiet action

/-! ## What a call does -/

theorem advance_eq_some {state next : Awaits ρ} (advanced : state.advance action = some next) :
    ∃ pool, state.pool.step action = some pool ∧
      next = { state with
        pool
        started := state.started ++ begins pool action
        stored := state.stored ++
          (pool.completed.drop state.pool.completed.length).filterMap
            (stores state.bodies action) } := by
  obtain ⟨pool, stepped, rfl⟩ := Option.map_eq_some_iff.mp advanced
  exact ⟨pool, stepped, rfl⟩

/-- A call edits one handle, submits a function, or takes another step of the pool and may then
edit one handle. -/
inductive Effect (before : Awaits ρ) (after : Awaits ρ) : Call ρ → Prop
  | edit {call : Call ρ} (uid : Nat) (after_eq : after = before.setHandle uid .gone) :
      Effect before after call
  | none {call : Call ρ} (after_eq : after = before) : Effect before after call
  | await (body : Body ρ) (priority : Priority) {next : Awaits ρ}
      (advanced : before.advance (.submit priority) = some next)
      (after_eq : after = { next with
        bodies := before.bodies ++ [body]
        futures := before.futures ++ [{ id := before.pool.queue.nextTaskId }] }) :
      Effect before after (.await body priority)
  | advance {call : Call ρ} (action : Action) (not_submit : ∀ priority, action ≠ .submit priority)
      (made : before.poolAction call = some action)
      (advanced : before.advance action = some after) : Effect before after call
  | destroy (uid : Nat) (id : BitVec 64) {next : Awaits ρ}
      (held : before.futures[uid]? = some ⟨id, .held⟩)
      (advanced : before.advance (.cancel id) = some next)
      (after_eq : after = next.setHandle uid .waiting) : Effect before after (.destroy uid)

theorem effect_of_step {before after : Awaits ρ} {call : Call ρ}
    (step_eq : before.step call = some after) : Effect before after call := by
  cases call with
  | await body priority =>
    obtain ⟨next, advanced, rfl⟩ := Option.map_eq_some_iff.mp step_eq
    exact .await body priority advanced rfl
  | run action =>
    have not_submit : ∀ priority, action ≠ .submit priority := by
      rintro priority rfl
      cases step_eq
    refine .advance action not_submit rfl ?_
    cases action with
    | submit priority => exact absurd rfl (not_submit priority)
    | _ => exact step_eq
  | cancel uid =>
    simp only [step] at step_eq
    split at step_eq
    · rename_i id held
      exact .advance (.cancel id) nofun (by simp only [poolAction, held]) step_eq
    · exact .none (Option.some.inj step_eq).symm
    · cases step_eq
  | release uid =>
    simp only [step] at step_eq
    split at step_eq
    · exact .edit uid (Option.some.inj step_eq).symm
    · cases step_eq
  | get uid =>
    simp only [step] at step_eq
    split at step_eq
    · split_ifs at step_eq
      exact .edit uid (Option.some.inj step_eq).symm
    · cases step_eq
  | destroy uid =>
    simp only [step] at step_eq
    split at step_eq
    · rename_i id held
      obtain ⟨next, advanced, rfl⟩ := Option.map_eq_some_iff.mp step_eq
      exact .destroy uid id held advanced rfl
    · exact .none (Option.some.inj step_eq).symm
    · cases step_eq
  | leave uid =>
    simp only [step] at step_eq
    split at step_eq
    · split_ifs at step_eq
      exact .edit uid (Option.some.inj step_eq).symm
    · cases step_eq

end Awaits

/-! ## Running tasks and completions -/

variable {uid : Nat}

namespace Pool

/-- A worker runs the function of the task. -/
def Runs (pool : Pool) (uid : Nat) : Prop := uid ∈ pool.workers.flatMap Worker.holds

variable {pool : Pool}

theorem runs_iff :
    pool.Runs uid ↔ ∃ (index : Nat) (task : Task),
      pool.workers[index]? = some (.running task) ∧ task.uid = uid := by
  unfold Runs
  rw [List.mem_flatMap]
  constructor
  · rintro ⟨worker, member, held⟩
    obtain ⟨index, slot⟩ := List.mem_iff_getElem?.mp member
    cases worker with
    | running task => exact ⟨index, task, slot, (List.mem_singleton.mp held).symm⟩
    | _ => cases held
  · rintro ⟨index, task, slot, rfl⟩
    exact ⟨_, List.mem_of_getElem? slot, List.mem_singleton_self _⟩

theorem runs_assign {pool : Pool} {index : Nat} {old : Worker} (new : Worker)
    (slot : pool.workers[index]? = some old) (uid : Nat) :
    (uid ∈ old.holds ∨ (pool.assign index new).Runs uid) ↔ (uid ∈ new.holds ∨ pool.Runs uid) := by
  have moved := (@Ledger.perm_flatMap_set _ _ Worker.holds _ _ _ new slot).mem_iff (a := uid)
  rwa [List.mem_append, List.mem_append] at moved

variable {index : Nat}

theorem runs_assign_idle {old new : Worker} (slot : pool.workers[index]? = some old)
    (old_holds : old.holds = []) (new_holds : new.holds = []) (uid : Nat) :
    (pool.assign index new).Runs uid ↔ pool.Runs uid := by
  have moved := runs_assign new slot uid
  rw [old_holds, new_holds] at moved
  simpa using moved

theorem Accounted.disjoint (accounted : pool.Accounted) (completed : uid ∈ pool.completed) :
    uid ∉ pool.outstanding := by
  have nodup := accounted.balanced.perm.nodup_iff.mpr accounted.balanced.nodup
  intro outstanding
  exact (List.nodup_append.mp nodup).2.2 uid outstanding uid completed rfl

theorem Accounted.not_runs (accounted : pool.Accounted) (completed : uid ∈ pool.completed) :
    ¬ pool.Runs uid := by
  intro runs
  refine accounted.disjoint completed ?_
  exact List.mem_append_right _ (List.mem_append_right _ runs)

theorem Accounted.lt_of_completed (accounted : pool.Accounted) (completed : uid ∈ pool.completed) :
    uid < pool.queue.submissions :=
  List.mem_range.mp (accounted.balanced.perm.mem_iff.mp (List.mem_append_right _ completed))

/-- What a step other than `SubmitTask` does to the tasks that run and to the completions. -/
inductive Progress (pool next : Pool) : Action → Prop
  | same {action : Action} (begins_eq : Awaits.begins next action = [])
      (completed_eq : next.completed = pool.completed)
      (runs_iff : ∀ uid, next.Runs uid ↔ pool.Runs uid) : Progress pool next action
  | begin {action : Action} (uid : Nat) (begins_eq : Awaits.begins next action = [uid])
      (completed_eq : next.completed = pool.completed) (fresh : ¬ pool.Runs uid)
      (runs_iff : ∀ other, next.Runs other ↔ other = uid ∨ pool.Runs other) :
      Progress pool next action
  | finish (index uid : Nat) (completed_eq : next.completed = pool.completed ++ [uid])
      (ran : pool.Runs uid)
      (runs_iff : ∀ other, other = uid ∨ next.Runs other ↔ pool.Runs other) :
      Progress pool next (.complete index)
  | drop {action : Action} (uid : Nat) (begins_eq : Awaits.begins next action = [])
      (not_complete : ∀ index, action ≠ .complete index)
      (completed_eq : next.completed = pool.completed ++ [uid])
      (runs_iff : ∀ other, next.Runs other ↔ pool.Runs other) : Progress pool next action

theorem begins_assign {pool : Pool} {index : Nat} {old : Worker} (new : Worker)
    (slot : pool.workers[index]? = some old) :
    Awaits.begins (pool.assign index new) (.dequeue index) = new.holds := by
  obtain ⟨in_range, _⟩ := List.getElem?_eq_some_iff.mp slot
  simp only [Awaits.begins, assign, List.getElem?_set_self in_range]
  cases new <;> rfl

theorem Accounted.not_runs_taken {queue : Queue} {task : Task} (accounted : pool.Accounted)
    (ready : pool.workers[index]? = some .ready)
    (popped : pool.queue.popFront = some (queue, task)) : ¬ pool.Runs task.uid := by
  have nodup := accounted.balanced.perm.nodup_iff.mpr accounted.balanced.nodup
  have queued := (Queue.removes_of_popFront popped).1.queued
  have working := accounted.not_joined ready nofun
  simp only [outstanding, Phase.unswept_of_not_joined working] at nodup
  intro runs
  exact (List.nodup_append.mp (List.nodup_append.mp nodup).1).2.2 _ (List.mem_map_of_mem queued) _
    (List.mem_append_right _ runs) rfl

variable {next : Pool}

theorem progress_of_step (accounted : pool.Accounted) (taken : Step pool action next)
    (not_submit : ∀ priority, action ≠ .submit priority) : Progress pool next action := by
  cases taken with
  | submit priority => exact absurd rfl (not_submit priority)
  | notify waits => exact .same rfl rfl (runs_assign_idle waits rfl rfl)
  | notifyNobody => exact .same rfl rfl fun _ => Iff.rfl
  | cancel id =>
    rcases accounted.linked.cancel_cases id with ⟨_, cancel_eq⟩ | ⟨task, _, _, _, found⟩
    · rw [cancel_eq]
      exact .same rfl (List.append_nil _) fun _ => Iff.rfl
    · rw [found]
      exact .drop task.uid rfl (fun _ same => by cases same) rfl fun _ => Iff.rfl
  | wait ready =>
    exact .same (begins_assign .waiting ready) rfl (runs_assign_idle ready rfl rfl)
  | exit ready => exact .same (begins_assign .exited ready) rfl (runs_assign_idle ready rfl rfl)
  | @take index queue task ready popped =>
    refine .begin task.uid (@begins_assign { pool with queue } _ _ (.running task) ready) rfl
      (accounted.not_runs_taken ready popped) ?_
    intro other
    have moved := @runs_assign { pool with queue } _ _ (.running task) ready other
    simpa [Worker.holds, Runs] using moved
  | @complete index task runs =>
    refine .finish index task.uid rfl (runs_iff.mpr ⟨index, task, runs, rfl⟩) ?_
    intro other
    have moved := @runs_assign pool _ _ .completed runs other
    simpa [Worker.holds, Runs, assign] using moved
  | finish done => exact .same rfl rfl (runs_assign_idle done rfl rfl)
  | wake waits => exact .same rfl rfl (runs_assign_idle waits rfl rfl)
  | shutdown => exact .same rfl rfl fun _ => Iff.rfl
  | notifyAll =>
    refine .same rfl rfl ?_
    intro uid
    unfold Runs
    rw [flatMap_holds_notified]
  | completeSwapped => exact .drop _ rfl (fun _ same => by cases same) rfl fun _ => Iff.rfl
  | join => exact .same rfl rfl fun _ => Iff.rfl
  | sweep => exact .drop _ rfl (fun _ same => by cases same) rfl fun _ => Iff.rfl
  | leave => exact .same rfl rfl fun _ => Iff.rfl

theorem submissions_eq (taken : Step pool action next)
    (not_submit : ∀ priority, action ≠ .submit priority) :
    next.queue.submissions = pool.queue.submissions := by
  cases taken with
  | submit priority => exact absurd rfl (not_submit priority)
  | cancel id =>
    simp only [Queue.cancel]
    split <;> rfl
  | take _ popped => exact (Queue.removes_of_popFront popped).1.submissions_eq
  | _ => rfl

theorem submitted {priority : Priority} (stepped : pool.step (.submit priority) = some next) :
    next.completed = pool.completed ∧ next.workers = pool.workers ∧
      next.queue = (pool.queue.submitTask priority).1 := by
  obtain ⟨-, taken⟩ := step_of_step_eq stepped
  cases taken with
  | submit => exact ⟨rfl, rfl, rfl⟩

end Pool

/-! ## Answers -/

namespace Awaits

variable {ρ : Type}

/-- A function is run at most once and its promise gets at most one answer: that of the function if
it was run, and a cancellation if it was not.  When the pool is destroyed every promise has one. -/
structure Answers (state : Awaits ρ) : Prop where
  ran_once : state.started.Nodup
  stored_once : (state.stored.map Prod.fst).Nodup
  answer : ∀ uid answer, (uid, answer) ∈ state.stored →
    ∃ body, state.bodies[uid]? = some body ∧
      (uid ∈ state.started ∧ body.answer = some answer ∨
        uid ∉ state.started ∧ answer = .error .cancelled)
  succeeded : ∀ uid value, (uid, .ok value) ∈ state.stored ↔
    state.Answered uid ∧ uid ∈ state.started ∧ state.bodies[uid]? = some (.returns value)
  all_stored : state.pool.phase = .returned → ∀ uid < state.bodies.length, state.Answered uid

/-- What ties the answers to the pool. -/
structure Told (state : Awaits ρ) : Prop where
  accounted : state.pool.Accounted
  bodies_length : state.bodies.length = state.pool.queue.submissions
  stored_eq : state.stored.map Prod.fst = state.pool.completed
  started_nodup : state.started.Nodup
  started_iff : ∀ uid, uid ∈ state.started → state.pool.Runs uid ∨ uid ∈ state.pool.completed
  started_of_runs : ∀ uid, state.pool.Runs uid → uid ∈ state.started
  answer : ∀ uid answer, (uid, answer) ∈ state.stored →
    ∃ body, state.bodies[uid]? = some body ∧
      (uid ∈ state.started ∧ body.answer = some answer ∨
        uid ∉ state.started ∧ answer = .error .cancelled)

theorem Told.completed_of_stored {state : Awaits ρ} (told : state.Told) {uid : Nat}
    {answer : Answer ρ} (stored : (uid, answer) ∈ state.stored) : uid ∈ state.pool.completed := by
  rw [← told.stored_eq]
  exact List.mem_map_of_mem stored

variable {state : Awaits ρ}

theorem Told.answers (told : state.Told) : state.Answers where
  ran_once := told.started_nodup
  stored_once := by
    rw [told.stored_eq]
    exact told.accounted.balanced.nodup_settled
  answer := told.answer
  succeeded uid value := by
    constructor
    · intro stored
      obtain ⟨body, body_eq, ⟨ran, answer_eq⟩ | ⟨_, cancelled⟩⟩ := told.answer uid _ stored
      · rw [Body.answer_eq_ok_iff.mp answer_eq] at body_eq
        exact ⟨List.mem_map_of_mem stored, ran, body_eq⟩
      · cases cancelled
    · rintro ⟨answered, ran, body_eq⟩
      obtain ⟨⟨_, answer⟩, stored, rfl⟩ := List.mem_map.mp answered
      obtain ⟨body, found, ⟨_, answer_eq⟩ | ⟨not_ran, _⟩⟩ := told.answer _ _ stored
      · obtain rfl := Option.some.inj (body_eq.symm.trans found)
        rw [Body.answer_returns] at answer_eq
        obtain rfl := Option.some.inj answer_eq
        exact stored
      · exact absurd ran not_ran
  all_stored returned uid submitted := by
    have once := told.accounted.completesOnce.2 returned uid (told.bodies_length ▸ submitted)
    unfold Answered
    rw [told.stored_eq]
    exact List.count_pos_iff.mp (once ▸ Nat.one_pos)

theorem told_withWorkers (count : Nat) : (withWorkers count : Awaits ρ).Told where
  accounted := Pool.accounted_withWorkers count
  bodies_length := rfl
  stored_eq := rfl
  started_nodup := List.nodup_nil
  started_iff _ := nofun
  started_of_runs uid runs := by
    have idle : (Pool.withWorkers count).workers.flatMap Worker.holds = [] := by
      refine Pool.flatMap_holds_of_forall ?_
      intro worker member
      rw [List.eq_of_mem_replicate member]
      rfl
    unfold Pool.Runs at runs
    rw [show (withWorkers count : Awaits ρ).pool = Pool.withWorkers count from rfl, idle] at runs
    cases runs
  answer _ _ := nofun

/-- A submission adds a function and stores nothing. -/
theorem Told.submit {state next : Awaits ρ} (told : state.Told) (body : Body ρ)
    (priority : Priority) (futures : List Future)
    (advanced : state.advance (.submit priority) = some next) :
    Told { next with bodies := state.bodies ++ [body], futures } := by
  obtain ⟨pool, stepped, rfl⟩ := advance_eq_some advanced
  obtain ⟨completed_eq, workers_eq, queue_eq⟩ := Pool.submitted stepped
  have runs_eq : pool.Runs = state.pool.Runs := by
    unfold Pool.Runs
    rw [workers_eq]
  have nothing : pool.completed.drop state.pool.completed.length = [] := by
    rw [completed_eq, List.drop_length]
  constructor
  case accounted => exact told.accounted.next stepped trivial
  case bodies_length =>
    change (state.bodies ++ [body]).length = pool.queue.submissions
    rw [queue_eq, List.length_append, told.bodies_length]
    rfl
  case stored_eq =>
    simp only [nothing, List.filterMap_nil, List.append_nil]
    exact told.stored_eq.trans completed_eq.symm
  case started_nodup =>
    simpa [begins] using told.started_nodup
  case started_iff =>
    intro uid started
    simp only [begins, List.append_nil] at started
    simp only [runs_eq, completed_eq]
    exact told.started_iff uid started
  case started_of_runs =>
    intro uid runs
    simp only [runs_eq] at runs
    simpa [begins] using told.started_of_runs uid runs
  case answer =>
    intro uid answer stored
    simp only [nothing, List.filterMap_nil, List.append_nil] at stored
    obtain ⟨found, found_eq, outcome⟩ := told.answer uid answer stored
    refine ⟨found, ?_, by simpa [begins] using outcome⟩
    exact List.getElem?_append_left (List.getElem?_eq_some_iff.mp found_eq).1 ▸ found_eq

theorem Told.exists_body (told : state.Told) (submitted : uid < state.pool.queue.submissions) :
    ∃ body, state.bodies[uid]? = some body := by
  rw [← told.bodies_length] at submitted
  exact ⟨_, List.getElem?_eq_getElem submitted⟩

theorem Told.stores_eq (told : state.Told) (action : Action)
    (submitted : uid < state.pool.queue.submissions) :
    ∃ body answer, state.bodies[uid]? = some body ∧
      stores state.bodies action uid = some (uid, answer) ∧
      ((∃ index, action = .complete index) → body.answer = some answer) ∧
      ((∀ index, action ≠ .complete index) → answer = .error .cancelled) := by
  obtain ⟨body, body_eq⟩ := told.exists_body submitted
  obtain ⟨answer, answer_eq⟩ := body.exists_answer
  cases action with
  | complete index =>
    refine ⟨body, answer, body_eq, ?_, fun _ => answer_eq, fun other => absurd rfl (other index)⟩
    simp [stores, body_eq, answer_eq]
  | _ =>
    refine ⟨body, .error .cancelled, body_eq, ?_, ?_, fun _ => rfl⟩
    · simp [stores, body_eq, Body.completer]
    · rintro ⟨index, equal⟩
      cases equal

/-- Any other step of the pool. -/
theorem Told.advance {state next : Awaits ρ} {action : Action} (told : state.Told)
    (not_submit : ∀ priority, action ≠ .submit priority)
    (advanced : state.advance action = some next) (quiet : state.pool.Quiet action) :
    next.Told := by
  obtain ⟨pool, stepped, rfl⟩ := advance_eq_some advanced
  have accounted := told.accounted.next stepped quiet
  have taken := (Pool.step_of_step_eq stepped).2
  have submissions_eq := Pool.submissions_eq taken not_submit
  have bodies_length : state.bodies.length = pool.queue.submissions :=
    told.bodies_length.trans submissions_eq.symm
  cases Pool.progress_of_step told.accounted taken not_submit with
  | same begins_eq completed_eq runs_iff =>
    have nothing : pool.completed.drop state.pool.completed.length = [] := by
      rw [completed_eq, List.drop_length]
    simp only [nothing, begins_eq, List.filterMap_nil, List.append_nil]
    exact
      { accounted, bodies_length
        stored_eq := told.stored_eq.trans completed_eq.symm
        started_nodup := told.started_nodup
        started_iff := fun uid started => by
          simpa only [runs_iff, completed_eq] using told.started_iff uid started
        started_of_runs := fun uid runs => told.started_of_runs uid ((runs_iff uid).mp runs)
        answer := told.answer }
  | begin uid begins_eq completed_eq fresh runs_iff =>
    have nothing : pool.completed.drop state.pool.completed.length = [] := by
      rw [completed_eq, List.drop_length]
    simp only [nothing, begins_eq, List.filterMap_nil, List.append_nil]
    have not_completed : uid ∉ state.pool.completed := fun completed =>
      accounted.not_runs (completed_eq ▸ completed) ((runs_iff uid).mpr (.inl rfl))
    have not_started : uid ∉ state.started := fun started =>
      (told.started_iff uid started).elim fresh not_completed
    exact
      { accounted, bodies_length
        stored_eq := told.stored_eq.trans completed_eq.symm
        started_nodup := by
          refine (List.perm_append_singleton uid state.started).nodup_iff.mpr ?_
          exact List.nodup_cons.mpr ⟨not_started, told.started_nodup⟩
        started_iff := fun other started => by
          simp only [runs_iff, completed_eq]
          cases List.mem_append.mp started with
          | inl old => exact (told.started_iff other old).imp_left .inr
          | inr new => exact .inl (.inl (List.mem_singleton.mp new))
        started_of_runs := fun other runs => by
          rw [List.mem_append, List.mem_singleton]
          exact ((runs_iff other).mp runs).symm.imp_left (told.started_of_runs other)
        answer := fun other answer stored => by
          have other_ne : other ≠ uid := by
            rintro rfl
            exact not_completed (told.completed_of_stored stored)
          simpa [other_ne] using told.answer other answer stored }
  | finish index uid completed_eq ran runs_iff =>
    have new_completion : pool.completed.drop state.pool.completed.length = [uid] := by
      rw [completed_eq, List.drop_left]
    have submitted : uid < state.pool.queue.submissions := by
      rw [← submissions_eq]
      exact accounted.lt_of_completed (by simp [completed_eq])
    obtain ⟨body, answer, body_eq, stores_eq, answered, -⟩ :=
      told.stores_eq (.complete index) submitted
    simp only [new_completion, begins, List.filterMap_cons, List.filterMap_nil, stores_eq,
      List.append_nil]
    exact
      { accounted, bodies_length
        stored_eq := by
          rw [List.map_append, told.stored_eq, completed_eq]
          rfl
        started_nodup := told.started_nodup
        started_iff := fun other started => by
          rw [completed_eq, List.mem_append, List.mem_singleton]
          rcases told.started_iff other started with runs | completed
          · exact ((runs_iff other).mpr runs).elim (fun same => .inr (.inr same)) .inl
          · exact .inr (.inl completed)
        started_of_runs := fun other runs =>
          told.started_of_runs other ((runs_iff other).mp (.inr runs))
        answer := fun other found stored => by
          cases List.mem_append.mp stored with
          | inl old => exact told.answer other found old
          | inr new =>
            obtain ⟨rfl, rfl⟩ := Prod.mk.inj (List.mem_singleton.mp new)
            exact ⟨body, body_eq, .inl ⟨told.started_of_runs _ ran, answered ⟨index, rfl⟩⟩⟩ }
  | drop uid begins_eq not_complete completed_eq runs_iff =>
    have new_completion : pool.completed.drop state.pool.completed.length = [uid] := by
      rw [completed_eq, List.drop_left]
    have completed : uid ∈ pool.completed := by simp [completed_eq]
    have submitted : uid < state.pool.queue.submissions := by
      rw [← submissions_eq]
      exact accounted.lt_of_completed completed
    have not_started : uid ∉ state.started := by
      intro started
      rcases told.started_iff uid started with runs | earlier
      · exact accounted.not_runs completed ((runs_iff uid).mpr runs)
      · have nodup := accounted.balanced.nodup_settled
        rw [completed_eq] at nodup
        exact (List.nodup_append.mp nodup).2.2 uid earlier uid (List.mem_singleton_self uid) rfl
    obtain ⟨body, answer, body_eq, stores_eq, -, cancelled⟩ := told.stores_eq action submitted
    simp only [new_completion, begins_eq, List.filterMap_cons, List.filterMap_nil, stores_eq,
      List.append_nil]
    exact
      { accounted, bodies_length
        stored_eq := by
          rw [List.map_append, told.stored_eq, completed_eq]
          rfl
        started_nodup := told.started_nodup
        started_iff := fun other started => by
          rw [completed_eq, runs_iff, List.mem_append]
          exact (told.started_iff other started).imp_right .inl
        started_of_runs := fun other runs =>
          told.started_of_runs other ((runs_iff other).mp runs)
        answer := fun other found stored => by
          cases List.mem_append.mp stored with
          | inl old => exact told.answer other found old
          | inr new =>
            obtain ⟨rfl, rfl⟩ := Prod.mk.inj (List.mem_singleton.mp new)
            exact ⟨body, body_eq, .inr ⟨not_started, cancelled not_complete⟩⟩ }

theorem Told.setHandle (told : state.Told) (uid : Nat) (handle : Handle) :
    (state.setHandle uid handle).Told :=
  ⟨told.accounted, told.bodies_length, told.stored_eq, told.started_nodup, told.started_iff,
    told.started_of_runs, told.answer⟩

theorem Told.next {before after : Awaits ρ} {call : Call ρ} (told : before.Told)
    (step_eq : before.step call = some after) (quiet : before.Quiet call) : after.Told := by
  cases effect_of_step step_eq with
  | edit uid after_eq =>
    rw [after_eq]
    exact told.setHandle uid .gone
  | none after_eq =>
    rw [after_eq]
    exact told
  | await body priority advanced after_eq =>
    rw [after_eq]
    exact told.submit body priority _ advanced
  | advance action not_submit made advanced =>
    exact told.advance not_submit advanced (quiet action made)
  | destroy uid id held advanced after_eq =>
    have not_submit : ∀ priority, Action.cancel id ≠ .submit priority := nofun
    have made : before.poolAction (.destroy uid) = some (.cancel id) := by
      simp only [poolAction, held]
    rw [after_eq]
    exact (told.advance not_submit advanced (quiet _ made)).setHandle uid .waiting

/-- A function that runs while its future is destroyed, and one that is cancelled. -/
def runningAndQueued : List (Call Nat) :=
  [.await (.returns 7) .normal, .await .void .normal, .run (.dequeue 0), .destroy 1, .destroy 0]

theorem quiet_runningAndQueued :
    Runs.EveryStep step (withWorkers 1) (fun _ state call _ => state.Quiet call)
      runningAndQueued := by
  have no_pool_loop : ∀ {state : Awaits Nat} {call : Call Nat}, state.pool.phase = .alive →
      state.Quiet call := by
    intro state call alive action _
    cases action with
    | cancel id =>
      intro joined
      rw [alive] at joined
      exact joined.elim
    | _ => trivial
  iterate 5 refine Runs.everyStep_cons rfl (no_pool_loop rfl) ?_
  exact Runs.everyStep_nil _ _ _

end Awaits
end Fusion.ThreadPool
