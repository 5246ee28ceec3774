import Fusion.ThreadPool.Futures
import Fusion.ThreadPool.Ordering

/-!
# The destructor of a future

`Future::~Future` cancels its task and waits for the answer.  As long as no id is given out twice,
the task is not in the queue from then on, so that the wait is for a function that is running or
for the destructor of the pool, and for no task that is still to be taken.
-/

namespace Fusion.ThreadPool

namespace History

theorem Sound.shutdown {history : History} (sound : history.Sound) :
    Sound { history with
      queue := history.queue.shutdown.1
      removed := history.submitted.map Task.uid } where
  linked := ⟨List.nodup_nil, fun _ => nofun, fun _ _ => nofun⟩
  ordered := List.Pairwise.nil
  submissions_eq := sound.submissions_eq
  nextTaskId_eq := sound.nextTaskId_eq
  uid_lt := sound.uid_lt
  id_eq := sound.id_eq
  removed_lt uid member := by
    obtain ⟨task, submitted, rfl⟩ := List.mem_map.mp member
    exact sound.uid_lt task submitted
  submitted_of_queued _ := nofun
  mem_iff _ task := by
    rw [mem_pending]
    constructor
    · intro queued
      cases queued
    · rintro ⟨submitted, kept⟩
      exact absurd (List.mem_map_of_mem submitted) kept
  complete _ _ := nofun

end History

variable {pool : Pool} {uid : Nat}

namespace Pool

/-- The queue is one that calls on a queue lead to. -/
def Ordered (pool : Pool) : Prop := ∃ history : History, history.queue = pool.queue ∧ history.Sound

theorem Ordered.next {pool next : Pool} {action : Action} (ordered : pool.Ordered)
    (taken : Step pool action next) : next.Ordered := by
  obtain ⟨history, queue_eq, sound⟩ := ordered
  cases taken with
  | submit priority =>
    refine ⟨_, ?_, sound.submit priority⟩
    rw [queue_eq]
  | cancel id =>
    refine ⟨_, ?_, sound.cancel id⟩
    rw [queue_eq]
  | take _ popped =>
    have removes := (Queue.removes_of_popFront popped).1
    rw [← queue_eq] at removes
    exact ⟨_, rfl, sound.dequeue removes⟩
  | shutdown =>
    refine ⟨_, ?_, sound.shutdown⟩
    rw [queue_eq]
  | _ => exact ⟨history, queue_eq, sound⟩

theorem ordered_withWorkers (count : Nat) : (withWorkers count).Ordered :=
  ⟨{}, rfl, History.sound_initial⟩

variable {task : Task}

theorem queued_of_step {next : Pool} {action : Action} (accounted : pool.Accounted)
    (taken : Step pool action next) (not_submit : ∀ priority, action ≠ .submit priority)
    (queued : task ∈ next.queue.tasks) : task ∈ pool.queue.tasks := by
  cases taken with
  | submit priority => exact absurd rfl (not_submit priority)
  | cancel id =>
    rcases accounted.linked.cancel_cases id with ⟨_, cancel_eq⟩ | ⟨_, _, _, removes, _⟩
    · rwa [cancel_eq] at queued
    · exact removes.sublist.mem queued
  | take _ popped => exact (Queue.removes_of_popFront popped).1.sublist.mem queued
  | shutdown => cases queued
  | _ => exact queued

/-- As long as no id is given out twice, `Cancel` leaves no task with the id in the queue. -/
theorem Ordered.not_queued_of_cancel (ordered : pool.Ordered)
    (bounded : pool.queue.submissions ≤ 2 ^ 64)
    (queued : task ∈ (pool.queue.cancel (BitVec.ofNat 64 (uid + 1))).1.tasks) : task.uid ≠ uid := by
  obtain ⟨history, queue_eq, sound⟩ := ordered
  rw [← queue_eq] at queued bounded
  rw [sound.submissions_eq] at bounded
  rintro rfl
  rcases sound.linked.cancel_cases (BitVec.ofNat 64 (task.uid + 1)) with
    ⟨entry, cancel_eq⟩ | ⟨found, _, entry, removes, _⟩
  · rw [cancel_eq] at queued
    have id_eq := sound.id_eq task (sound.submitted_of_queued task queued)
    have complete := sound.complete bounded task queued
    rw [id_eq, entry] at complete
    cases complete
  · obtain ⟨earlier, uid_ne⟩ := (removes.mem_iff sound.linked).mp queued
    have id_eq := sound.id_eq task (sound.submitted_of_queued task earlier)
    have complete := sound.complete bounded task earlier
    rw [id_eq, entry] at complete
    exact uid_ne (Option.some.inj complete).symm

theorem Ordered.nextTaskId_eq (ordered : pool.Ordered) :
    pool.queue.nextTaskId = BitVec.ofNat 64 (pool.queue.submissions + 1) := by
  obtain ⟨history, queue_eq, sound⟩ := ordered
  rw [← queue_eq, sound.nextTaskId_eq, sound.submissions_eq]

end Pool

namespace Awaits

variable {ρ : Type} {state : Awaits ρ} {id : BitVec 64}

/-- The task of a future whose destructor waits is not in the queue. -/
structure Unqueued (state : Awaits ρ) : Prop where
  told : state.Told
  ordered : state.pool.Ordered
  futures_length : state.futures.length = state.pool.queue.submissions
  id_eq : ∀ uid future, state.futures[uid]? = some future → future.id = BitVec.ofNat 64 (uid + 1)
  unqueued : state.pool.queue.submissions ≤ 2 ^ 64 →
    ∀ uid future, state.futures[uid]? = some future → future.handle = .waiting →
      ∀ task ∈ state.pool.queue.tasks, task.uid ≠ uid

theorem unqueued_withWorkers (count : Nat) : (withWorkers count : Awaits ρ).Unqueued where
  told := told_withWorkers count
  ordered := Pool.ordered_withWorkers count
  futures_length := rfl
  id_eq _ _ := nofun
  unqueued _ _ _ := nofun

theorem getElem?_setHandle {other : Nat} {handle : Handle} {future : Future}
    (found : (state.setHandle uid handle).futures[other]? = some future) :
    ∃ old, state.futures[other]? = some old ∧ old.id = future.id ∧
      (other = uid ∧ future.handle = handle ∨ other ≠ uid ∧ future = old) := by
  simp only [setHandle, List.getElem?_modify] at found
  obtain ⟨old, old_eq, rfl⟩ := Option.map_eq_some_iff.mp found
  refine ⟨old, old_eq, ?_⟩
  by_cases same : uid = other
  · simp [same]
  · simp [same, Ne.symm same]

/-- A handle may be set to anything but `waiting`, and to that where the task is not queued. -/
theorem Unqueued.setHandle {state : Awaits ρ} (inv : state.Unqueued) {uid : Nat} {handle : Handle}
    (permitted : handle = .waiting → state.pool.queue.submissions ≤ 2 ^ 64 →
      ∀ task ∈ state.pool.queue.tasks, task.uid ≠ uid) :
    (state.setHandle uid handle).Unqueued where
  told := inv.told.setHandle uid handle
  ordered := inv.ordered
  futures_length := List.length_modify .. |>.trans inv.futures_length
  id_eq other future found := by
    obtain ⟨old, old_eq, id_eq, -⟩ := getElem?_setHandle found
    exact id_eq ▸ inv.id_eq other old old_eq
  unqueued bounded other future found waiting := by
    obtain ⟨old, old_eq, -, ⟨rfl, handle_eq⟩ | ⟨-, rfl⟩⟩ := getElem?_setHandle found
    · exact permitted (handle_eq.symm.trans waiting) bounded
    · exact inv.unqueued bounded other future old_eq waiting

theorem Unqueued.advance {state next : Awaits ρ} {action : Action} (inv : state.Unqueued)
    (not_submit : ∀ priority, action ≠ .submit priority)
    (advanced : state.advance action = some next) (quiet : state.pool.Quiet action) :
    next.Unqueued := by
  have told := inv.told.advance not_submit advanced quiet
  obtain ⟨pool, stepped, rfl⟩ := advance_eq_some advanced
  have taken := (Pool.step_of_step_eq stepped).2
  have submissions_eq := Pool.submissions_eq taken not_submit
  refine ⟨told, inv.ordered.next taken, inv.futures_length.trans submissions_eq.symm, inv.id_eq, ?_⟩
  intro bounded uid future found waiting task queued
  exact inv.unqueued (submissions_eq ▸ bounded) uid future found waiting task
    (Pool.queued_of_step inv.told.accounted taken not_submit queued)

theorem Unqueued.submit {state next : Awaits ρ} (inv : state.Unqueued) (body : Body ρ)
    (priority : Priority) (advanced : state.advance (.submit priority) = some next) :
    Unqueued { next with
      bodies := state.bodies ++ [body]
      futures := state.futures ++ [{ id := state.pool.queue.nextTaskId }] } := by
  have told := inv.told.submit body priority
    (state.futures ++ [{ id := state.pool.queue.nextTaskId }]) advanced
  obtain ⟨pool, stepped, rfl⟩ := advance_eq_some advanced
  have taken := (Pool.step_of_step_eq stepped).2
  obtain ⟨-, -, queue_eq⟩ := Pool.submitted stepped
  have submissions_eq : pool.queue.submissions = state.pool.queue.submissions + 1 := by
    rw [queue_eq]
    rfl
  have new_or_old : ∀ {uid future},
      (state.futures ++ [{ id := state.pool.queue.nextTaskId }])[uid]? = some future →
        state.futures[uid]? = some future ∨
          uid = state.pool.queue.submissions ∧ future = { id := state.pool.queue.nextTaskId } := by
    intro uid future found
    rw [List.getElem?_append] at found
    split_ifs at found with earlier
    · exact .inl found
    · obtain ⟨in_range, rfl⟩ := List.getElem?_eq_some_iff.mp found
      rw [List.length_singleton] at in_range
      have last : uid = state.futures.length := by omega
      exact .inr ⟨last.trans inv.futures_length, by simp⟩
  refine ⟨told, inv.ordered.next taken, ?_, ?_, ?_⟩
  · change (state.futures ++ _).length = pool.queue.submissions
    rw [List.length_append, inv.futures_length, submissions_eq]
    rfl
  · intro uid future found
    rcases new_or_old found with old | ⟨rfl, rfl⟩
    · exact inv.id_eq uid future old
    · exact inv.ordered.nextTaskId_eq
  · intro bounded uid future found waiting task queued
    change task ∈ pool.queue.tasks at queued
    change pool.queue.submissions ≤ 2 ^ 64 at bounded
    rcases new_or_old found with old | ⟨rfl, rfl⟩
    · rw [queue_eq, Queue.mem_submitTask] at queued
      rcases queued with rfl | earlier
      · -- The new task has a number that no future had before.
        have in_range := (List.getElem?_eq_some_iff.mp old).1
        rw [inv.futures_length] at in_range
        exact (Nat.ne_of_lt in_range).symm
      · exact inv.unqueued (by omega) uid future old waiting task earlier
    · cases waiting

theorem Unqueued.next {before after : Awaits ρ} {call : Call ρ} (inv : before.Unqueued)
    (step_eq : before.step call = some after) (quiet : before.Quiet call) : after.Unqueued := by
  cases effect_of_step step_eq with
  | edit uid after_eq =>
    rw [after_eq]
    exact inv.setHandle nofun
  | none after_eq =>
    rw [after_eq]
    exact inv
  | await body priority advanced after_eq =>
    rw [after_eq]
    exact inv.submit body priority advanced
  | advance action not_submit made advanced =>
    exact inv.advance not_submit advanced (quiet action made)
  | destroy uid id held advanced after_eq =>
    have not_submit : ∀ priority, Action.cancel id ≠ .submit priority := nofun
    have made : before.poolAction (.destroy uid) = some (.cancel id) := by
      simp only [poolAction, held]
    rw [after_eq]
    refine (inv.advance not_submit advanced (quiet _ made)).setHandle ?_
    intro _ bounded task queued
    obtain ⟨pool, stepped, rfl⟩ := advance_eq_some advanced
    have taken := (Pool.step_of_step_eq stepped).2
    change pool.queue.submissions ≤ 2 ^ 64 at bounded
    rw [Pool.submissions_eq taken not_submit] at bounded
    have id_eq : id = BitVec.ofNat 64 (uid + 1) := inv.id_eq uid _ held
    cases taken
    have left : task ∈ (before.pool.queue.cancel id).1.tasks := queued
    rw [id_eq] at left
    exact inv.ordered.not_queued_of_cancel bounded left

/-- A task whose future waits has its answer, or is with a worker, or with the destructor of the
pool. -/
theorem Unqueued.places (inv : state.Unqueued) (bounded : state.pool.queue.submissions ≤ 2 ^ 64)
    (waiting : state.futures[uid]? = some ⟨id, .waiting⟩) :
    state.Answered uid ∨ state.pool.Runs uid ∨ uid ∈ state.pool.phase.swapped := by
  have submitted := (List.getElem?_eq_some_iff.mp waiting).1
  rw [inv.futures_length] at submitted
  have placed := inv.told.accounted.balanced.perm.mem_iff.mpr (List.mem_range.mpr submitted)
  have not_queued : uid ∉ state.pool.phase.unswept state.pool.queue.tasks := by
    intro unswept
    have queued : uid ∈ state.pool.queue.tasks.map Task.uid := by
      cases phase_eq : state.pool.phase with
      | sweeping swept =>
        rw [phase_eq] at unswept
        exact (List.mem_filter.mp unswept).1
      | returned =>
        rw [phase_eq] at unswept
        cases unswept
      | _ =>
        rw [phase_eq] at unswept
        exact unswept
    obtain ⟨task, queued, uid_eq⟩ := List.mem_map.mp queued
    exact inv.unqueued bounded uid _ waiting rfl task queued uid_eq
  unfold Answered
  rw [inv.told.stored_eq]
  simp only [Pool.outstanding, List.mem_append] at placed
  rcases placed with (unswept | swapped | runs) | completed
  · exact absurd unswept not_queued
  · exact .inr (.inr swapped)
  · exact .inr (.inl runs)
  · exact .inl completed

end Awaits

/-- A step that a worker or the destructor of the pool takes without a caller. -/
def Action.Own : Action → Prop
  | .complete _ => True
  | .notifyAll => True
  | .completeSwapped => True
  | _ => False

namespace Awaits

variable {ρ : Type} {state : Awaits ρ} {id : BitVec 64}

/-- The destructor of the future returns after steps of the workers and of the pool's destructor
only. -/
def CanLeave (state : Awaits ρ) (uid : Nat) : Prop :=
  ∃ actions : List Action, (∀ action ∈ actions, action.Own) ∧
    ∃ final, Runs.run step state (actions.map Call.run ++ [.leave uid]) = some final

theorem canLeave_of_answered (waiting : state.futures[uid]? = some ⟨id, .waiting⟩)
    (answered : state.Answered uid) : state.CanLeave uid := by
  refine ⟨[], by simp, state.setHandle uid .gone, ?_⟩
  simp [Runs.run, step, waiting, answered]

theorem canLeave_of_step {state next : Awaits ρ} {uid : Nat} (action : Action)
    (own : action.Own) (step_eq : state.step (.run action) = some next)
    (later : next.CanLeave uid) : state.CanLeave uid := by
  obtain ⟨actions, all_own, final, execution⟩ := later
  refine ⟨action :: actions, List.forall_mem_cons.mpr ⟨own, all_own⟩, final, ?_⟩
  simp only [List.map_cons, List.cons_append, Runs.run, step_eq, Option.bind_some]
  exact execution

/-- A step of the pool's own, with what it leaves. -/
theorem Told.own_step (told : state.Told) (action : Action) (own : action.Own)
    (not_returned : state.pool.phase ≠ .returned) (act_eq : state.pool.act action = some pool) :
    ∃ next, state.step (.run action) = some next ∧ next.pool = pool ∧
      next.futures = state.futures ∧ next.Told := by
  have not_submit : ∀ priority, action ≠ .submit priority := by
    rintro priority rfl
    exact own
  have quiet : state.pool.Quiet action := by
    cases action with
    | cancel id => exact own.elim
    | _ => trivial
  have stepped : state.pool.step action = some pool := by
    rw [Pool.step, if_neg not_returned, act_eq]
  have advanced : state.advance action = some { state with
      pool
      started := state.started ++ begins pool action
      stored := state.stored ++
        (pool.completed.drop state.pool.completed.length).filterMap
          (stores state.bodies action) } := by
    rw [Awaits.advance, stepped]
    rfl
  have run_eq : state.step (.run action) = state.advance action := by
    cases action with
    | submit priority => exact absurd rfl (not_submit priority)
    | _ => rfl
  exact ⟨_, run_eq.trans advanced, rfl, rfl, told.advance not_submit advanced quiet⟩

theorem Told.canLeave_of_runs {state : Awaits ρ} (told : state.Told) {uid : Nat} {id : BitVec 64}
    (waiting : state.futures[uid]? = some ⟨id, .waiting⟩) (runs : state.pool.Runs uid) :
    state.CanLeave uid := by
  obtain ⟨index, task, slot, rfl⟩ := Pool.runs_iff.mp runs
  have not_returned : state.pool.phase ≠ .returned := by
    intro returned
    exact told.accounted.not_joined slot nofun (returned ▸ trivial)
  have act_eq : state.pool.act (.complete index) = some
      ({ state.pool with completed := state.pool.completed ++ [task.uid] }.assign
        index .completed) := by
    simp only [Pool.act, slot]
  obtain ⟨next, step_eq, pool_eq, futures_eq, next_told⟩ :=
    told.own_step (.complete index) trivial not_returned act_eq
  refine canLeave_of_step (.complete index) trivial step_eq ?_
  refine canLeave_of_answered (futures_eq ▸ waiting) ?_
  unfold Answered
  rw [next_told.stored_eq, pool_eq]
  exact List.mem_append_right _ (List.mem_singleton_self _)

theorem Told.canLeave_of_completing (told : state.Told)
    (waiting : state.futures[uid]? = some ⟨id, .waiting⟩) {tasks : List Task}
    (phase_eq : state.pool.phase = .completing tasks) (swapped : uid ∈ tasks.map Task.uid) :
    state.CanLeave uid := by
  induction tasks generalizing state with
  | nil => cases swapped
  | cons task tasks ih =>
    have not_returned : state.pool.phase ≠ .returned := by
      rw [phase_eq]
      nofun
    have act_eq : state.pool.act .completeSwapped = some { state.pool with
        phase := .completing tasks
        completed := state.pool.completed ++ [task.uid] } := by
      simp only [Pool.act, phase_eq]
    obtain ⟨next, step_eq, pool_eq, futures_eq, next_told⟩ :=
      told.own_step .completeSwapped trivial not_returned act_eq
    refine canLeave_of_step .completeSwapped trivial step_eq ?_
    have next_waiting : next.futures[uid]? = some ⟨id, .waiting⟩ := futures_eq ▸ waiting
    rcases List.mem_cons.mp swapped with rfl | later
    · refine canLeave_of_answered next_waiting ?_
      unfold Answered
      rw [next_told.stored_eq, pool_eq]
      exact List.mem_append_right _ (List.mem_singleton_self _)
    · exact ih next_told next_waiting (by rw [pool_eq]) later

theorem Told.canLeave_of_swapped (told : state.Told)
    (waiting : state.futures[uid]? = some ⟨id, .waiting⟩)
    (swapped : uid ∈ state.pool.phase.swapped) : state.CanLeave uid := by
  cases phase_eq : state.pool.phase with
  | stopping tasks =>
    rw [phase_eq] at swapped
    have not_returned : state.pool.phase ≠ .returned := by
      rw [phase_eq]
      nofun
    have act_eq : state.pool.act .notifyAll = some { state.pool with
        workers := state.pool.workers.map Worker.notified
        phase := .completing tasks } := by
      simp only [Pool.act, phase_eq]
    obtain ⟨next, step_eq, pool_eq, futures_eq, next_told⟩ :=
      told.own_step .notifyAll trivial not_returned act_eq
    refine canLeave_of_step .notifyAll trivial step_eq ?_
    exact next_told.canLeave_of_completing (futures_eq ▸ waiting) (by rw [pool_eq]) swapped
  | completing tasks =>
    rw [phase_eq] at swapped
    exact told.canLeave_of_completing waiting phase_eq swapped
  | alive =>
    rw [phase_eq] at swapped
    cases swapped
  | sweeping swept =>
    rw [phase_eq] at swapped
    cases swapped
  | returned =>
    rw [phase_eq] at swapped
    cases swapped

/-- The destructor of a future never waits for a queued task: in whatever state it waits, the
function that runs, or the destructor of the pool, lets it return without another task being run. -/
theorem canLeave_of_quiet (count : Nat) {calls : List (Call ρ)} {state : Awaits ρ}
    (quiet : Runs.EveryStep step (withWorkers count) (fun _ state call _ => state.Quiet call) calls)
    (execution : Runs.run step (withWorkers count) calls = some state)
    (bounded : state.pool.queue.submissions ≤ 2 ^ 64) {uid : Nat} {id : BitVec 64}
    (waiting : state.futures[uid]? = some ⟨id, .waiting⟩) : state.CanLeave uid := by
  have inv : state.Unqueued := by
    refine @Runs.EveryStep.invariant _ _ _ _ _ (fun _ state => state.Unqueued)
      (unqueued_withWorkers count) ?_ _ quiet _ execution
    intro front before call after inv step_eq holds
    exact inv.next step_eq holds
  rcases inv.places bounded waiting with answered | runs | swapped
  · exact canLeave_of_answered waiting answered
  · exact inv.told.canLeave_of_runs waiting runs
  · exact inv.told.canLeave_of_swapped waiting swapped

/-- Where `runningAndQueued` ends: the second promise has its answer and the first function is
still running. -/
theorem canLeave_runningAndQueued :
    ∃ state : Awaits Nat, Runs.run step (withWorkers 1) runningAndQueued = some state ∧
      state.stored = [(1, .error .cancelled)] ∧ state.CanLeave 0 := by
  refine ⟨_, rfl, rfl, ?_⟩
  exact @canLeave_of_quiet _ 1 _ _ quiet_runningAndQueued rfl (by decide) 0 1 rfl

end Awaits
end Fusion.ThreadPool
