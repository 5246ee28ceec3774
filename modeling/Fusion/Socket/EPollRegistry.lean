import Fusion.Socket.EPoll

/-!
# The registered operations of the epoll service

Every call makes one of five edits to the pair of the service's map and the kernel's interest set.
The map entry is edited before the system call is made, so a failing call can tear the pair apart.
-/

namespace Fusion.EPollSystem

open EPollSocketService

/-- Registered operations of a socket. -/
def registered (system : EPollSystem) (sock : Socket) : Option SocketOperation :=
  system.service.events.lookup sock

/-- A call on the socket passes the checks that every call makes first. -/
structure Accepts (system : EPollSystem) (sock : Socket) : Prop where
  running : system.service.shutdown = false
  valid : sock ≠ invalidSocket
  opened : system.service.poll ≠ invalidSocket

/-- Calls on registered sockets are accepted. -/
def Open (system : EPollSystem) : Prop :=
  ∀ sock ops, system.registered sock = some ops → system.Accepts sock

/-- A failing system call makes this call change no map entry. -/
def Call.Safe (system : EPollSystem) : Call → Prop
  | .add sock events outcome =>
    Failed outcome → ∀ old, system.registered sock = some old →
      old ||| events = events ∨ old ||| events = old
  | .remove sock events outcome =>
    Failed outcome → ∀ old, system.registered sock = some old → old &&& events = .none
  | .start .. => True
  | .close .. => True
  | .stop => True

/-- What a call does to the map and the interest set. -/
inductive Edit (before : EPollSystem) (call : Call) (after : EPollSystem) (result : Result Unit) :
    Prop
  | same (safe : call.Safe before)
      (accepts : ∀ other, before.Accepts other → after.Accepts other)
      (registered_eq : after.registered = before.registered)
      (kernel_eq : after.kernel = before.kernel)
  | write (sock : Socket) (ops : SocketOperation) (safe : call.Safe before)
      (accepts : ∀ other, before.Accepts other → after.Accepts other)
      (accepted : after.Accepts sock) (result_eq : result = .ok ())
      (nonempty : (∀ old, before.registered sock = some old → old ≠ .none) → ops ≠ .none)
      (registered_eq : after.registered = Function.update before.registered sock (some ops))
      (kernel_eq : after.kernel = Function.update before.kernel sock (some (toEPollEvents ops)))
  | drop (sock : Socket) (safe : call.Safe before)
      (accepts : ∀ other, before.Accepts other → after.Accepts other)
      (result_eq : result = .ok ())
      (registered_eq : after.registered = Function.update before.registered sock none)
      (kernel_eq : after.kernel = Function.update before.kernel sock none)
  | tear (sock : Socket) (old ops : SocketOperation) (torn : ¬ call.Safe before)
      (accepts : ∀ other, before.Accepts other → after.Accepts other)
      (found : before.registered sock = some old) (changed : ops ≠ old) (failed : Failed result)
      (registered_eq : after.registered = Function.update before.registered sock (some ops))
  | clear (safe : call.Safe before) (result_eq : result = .ok ())
      (registered_eq : after.registered = fun _ => none) (kernel_eq : after.kernel = fun _ => none)

theorem registered_insert (system : EPollSystem) (sock : Socket) (ops : SocketOperation)
    (kernel : Socket → Option (BitVec 32)) :
    registered { service := { system.service with
        events := system.service.events.insert sock ops }, kernel } =
      Function.update system.registered sock (some ops) := by
  funext other
  by_cases same : other = sock
  · subst same
    simp [registered]
  · simp [registered, same]

theorem registered_erase (system : EPollSystem) (sock : Socket)
    (kernel : Socket → Option (BitVec 32)) :
    registered { service := { system.service with
        events := system.service.events.erase sock }, kernel } =
      Function.update system.registered sock none := by
  funext other
  by_cases same : other = sock
  · subst same
    simp [registered]
  · simp [registered, same]

theorem registered_erase_insert (system : EPollSystem) (sock : Socket) (ops : SocketOperation)
    (kernel : Socket → Option (BitVec 32)) :
    registered { service := { system.service with
        events := (system.service.events.insert sock ops).erase sock }, kernel } =
      Function.update system.registered sock none := by
  have erased := registered_erase
    { service := { system.service with events := system.service.events.insert sock ops }, kernel }
    sock kernel
  rw [registered_insert, Function.update_idem] at erased
  exact erased

variable {sock : Socket} {system : EPollSystem}

theorem update_registered_of_eq {ops : SocketOperation}
    (found : system.registered sock = some ops) :
    Function.update system.registered sock (some ops) = system.registered := by
  rw [← found, Function.update_eq_self]

variable {after before : EPollSystem}

theorem accepts_of_eq (shutdown_eq : after.service.shutdown = before.service.shutdown)
    (poll_eq : after.service.poll = before.service.poll) (other : Socket)
    (accepted : before.Accepts other) : after.Accepts other where
  running := shutdown_eq.trans accepted.running
  valid := accepted.valid
  opened := by
    rw [poll_eq]
    exact accepted.opened

theorem registered_eq_none_of_refused (consistent : system.Open) (refused : ¬ system.Accepts sock) :
    system.registered sock = none := by
  cases found : system.registered sock with
  | none => rfl
  | some ops => exact absurd (consistent sock ops found) refused

theorem not_accepts {system : EPollSystem} {sock : Socket}
    (refused : system.service.shutdown = true ∨ sock = invalidSocket ∨
      system.service.poll = invalidSocket) : ¬ system.Accepts sock := by
  intro accepted
  rcases refused with shutdown | invalid | unopened
  · exact Bool.false_ne_true (accepted.running.symm.trans shutdown)
  · exact accepted.valid invalid
  · exact accepted.opened unopened

variable {events : SocketOperation} {outcome : Result Unit}

theorem Open.safe_add (consistent : system.Open) (refused : ¬ system.Accepts sock) :
    (Call.add sock events outcome).Safe system := by
  simp [Call.Safe, registered_eq_none_of_refused consistent refused]

theorem Open.safe_remove (consistent : system.Open) (refused : ¬ system.Accepts sock) :
    (Call.remove sock events outcome).Safe system := by
  simp [Call.Safe, registered_eq_none_of_refused consistent refused]

variable {call : Call} {result : Result Unit}

theorem edit_of_refused (safe : call.Safe before) : Edit before call before result :=
  .same safe (fun _ accepted => accepted) rfl rfl

/-- The edits of `Add`. -/
theorem add_edit (consistent : before.Open) (sock : Socket) (events : SocketOperation)
    (outcome : Result Unit) :
    Edit before (.add sock events outcome) (before.add sock events outcome).1
      (before.add sock events outcome).2 := by
  unfold add
  split_ifs with shutdown invalid unopened empty
  · exact edit_of_refused (consistent.safe_add (not_accepts (.inl shutdown)))
  · exact edit_of_refused (consistent.safe_add (not_accepts (.inr (.inl invalid))))
  · exact edit_of_refused (consistent.safe_add (not_accepts (.inr (.inr unopened))))
  · exact edit_of_refused (by simp [Call.Safe, empty, SocketOperation.none])
  have accepted : before.Accepts sock := ⟨eq_false_of_ne_true shutdown, invalid, unopened⟩
  split
  · rename_i old found
    cases outcome with
    | ok _ =>
      refine .write sock (old.merge events) (by simp [Call.Safe, Failed])
        (accepts_of_eq rfl rfl) ⟨accepted.running, invalid, unopened⟩ rfl ?_
        (registered_insert ..) rfl
      intro nonempty
      exact SocketOperation.merge_ne_none events (nonempty old found)
    | error failure =>
      by_cases kept : old.merge events = old
      · refine .same ?_ (accepts_of_eq rfl rfl) ?_ rfl
        · intro _ other other_found
          obtain rfl := Option.some.inj (found.symm.trans other_found)
          exact (SocketOperation.merge_eq_old_iff _ _).mp kept
        · rw [kept]
          exact (registered_insert ..).trans (update_registered_of_eq found)
      · refine .tear sock old (old.merge events) ?_ (accepts_of_eq rfl rfl) found kept trivial
          (registered_insert ..)
        intro safe
        exact kept ((SocketOperation.merge_eq_old_iff _ _).mpr (safe trivial old found))
  · rename_i found
    cases outcome with
    | ok _ =>
      exact .write sock events (by simp [Call.Safe, Failed]) (accepts_of_eq rfl rfl)
        ⟨accepted.running, invalid, unopened⟩ rfl (fun _ => empty) (registered_insert ..) rfl
    | error failure =>
      have unregistered : before.registered sock = none := found
      exact edit_of_refused (by simp [Call.Safe, unregistered])

/-- The edits of `Close`. -/
theorem close_edit (before : EPollSystem) (sock : Socket) (outcome : Result Unit) :
    Edit before (.close sock outcome) (before.close sock outcome).1
      (before.close sock outcome).2 := by
  unfold close
  split_ifs with shutdown invalid unopened
  · exact edit_of_refused trivial
  · exact edit_of_refused trivial
  · exact edit_of_refused trivial
  split
  · cases outcome with
    | ok _ => exact .drop sock trivial (accepts_of_eq rfl rfl) rfl (registered_erase ..) rfl
    | error failure => exact edit_of_refused trivial
  · exact edit_of_refused trivial

variable {old : SocketOperation}

/-- `Remove` changes an entry that shares an operation with the ones to remove. -/
theorem remaining_ne_old (shared : old &&& events ≠ .none) : remaining old events ≠ old := by
  simp only [remaining]
  split
  · intro empty
    apply shared
    rw [← empty]
    exact BitVec.zero_and
  · exact SocketOperation.and_not_ne_of_meets shared

/-- The edits of `Remove`. -/
theorem remove_edit (consistent : before.Open) (sock : Socket) (events : SocketOperation)
    (outcome : Result Unit) :
    Edit before (.remove sock events outcome) (before.remove sock events outcome).1
      (before.remove sock events outcome).2 := by
  unfold remove
  split_ifs with shutdown invalid unopened empty
  · exact edit_of_refused (consistent.safe_remove (not_accepts (.inl shutdown)))
  · exact edit_of_refused (consistent.safe_remove (not_accepts (.inr (.inl invalid))))
  · exact edit_of_refused (consistent.safe_remove (not_accepts (.inr (.inr unopened))))
  · exact edit_of_refused (by simp [Call.Safe, empty, SocketOperation.none])
  split
  case h_2 =>
    rename_i found
    have unregistered : before.registered sock = none := found
    exact edit_of_refused (by simp [Call.Safe, unregistered])
  rename_i old found
  have registered_eq : before.registered sock = some old := found
  by_cases shared : old &&& events = .none
  · rw [if_neg (not_not.mpr shared)]
    refine edit_of_refused ?_
    intro _ other other_found
    obtain rfl := Option.some.inj (registered_eq.symm.trans other_found)
    exact shared
  rw [if_pos shared]
  have torn : Failed outcome → ¬ (Call.remove sock events outcome).Safe before :=
    fun failed safe => shared (safe failed old found)
  dsimp only
  split_ifs with emptied
  · cases outcome with
    | ok _ =>
      exact .drop sock (by simp [Call.Safe, Failed]) (accepts_of_eq rfl rfl) rfl
        (registered_erase_insert ..) rfl
    | error failure =>
      exact .tear sock old (remaining old events) (torn trivial) (accepts_of_eq rfl rfl) found
        (remaining_ne_old shared) trivial (registered_insert ..)
  · cases outcome with
    | ok _ =>
      exact .write sock (remaining old events) (by simp [Call.Safe, Failed])
        (accepts_of_eq rfl rfl) ⟨eq_false_of_ne_true shutdown, invalid, unopened⟩ rfl
        (fun _ => emptied) (registered_insert ..) rfl
    | error failure =>
      exact .tear sock old (remaining old events) (torn trivial) (accepts_of_eq rfl rfl) found
        (remaining_ne_old shared) trivial (registered_insert ..)

/-- An edit of a system with an empty map is one of any other system with the same empty map. -/
theorem Edit.of_unregistered {running : EPollSystem} {inner : Call} {innerResult : Result Unit}
    (edit : Edit running inner after innerResult) (safe : call.Safe before)
    (refuses : ∀ other, ¬ before.Accepts other)
    (unregistered : ∀ sock, before.registered sock = none)
    (registered_eq : running.registered = before.registered)
    (kernel_eq : running.kernel = before.kernel)
    (succeeds : innerResult = .ok () → result = .ok ()) : Edit before call after result := by
  have accepts : ∀ other, before.Accepts other → after.Accepts other :=
    fun other accepted => absurd accepted (refuses other)
  cases edit with
  | same _ _ registered_after kernel_after =>
    exact .same safe accepts (registered_after.trans registered_eq)
      (kernel_after.trans kernel_eq)
  | write sock ops _ _ accepted result_eq nonempty registered_after kernel_after =>
    rw [registered_eq] at nonempty registered_after
    rw [kernel_eq] at kernel_after
    exact .write sock ops safe accepts accepted (succeeds result_eq) nonempty registered_after
      kernel_after
  | drop sock _ _ result_eq registered_after kernel_after =>
    rw [registered_eq] at registered_after
    rw [kernel_eq] at kernel_after
    exact .drop sock safe accepts (succeeds result_eq) registered_after kernel_after
  | tear sock old ops _ _ found _ _ _ =>
    rw [registered_eq, unregistered sock] at found
    cases found
  | clear _ result_eq registered_after kernel_after =>
    exact .clear safe (succeeds result_eq) registered_after kernel_after

/-- The edits of `Start`: those of the `Add` for the notification pipe. -/
theorem start_edit (consistent : before.Open) (created : Result (Socket × Socket)) (poll : Socket)
    (outcome : Result Unit) (lastFailure : Failure) :
    Edit before (.start created poll outcome lastFailure)
      (before.start created poll outcome lastFailure).1
      (before.start created poll outcome lastFailure).2 := by
  unfold start startBegin
  by_cases unopened : before.service.poll = invalidSocket
  case neg =>
    rw [if_pos unopened]
    exact edit_of_refused trivial
  rw [if_neg (not_not.mpr unopened)]
  have refuses : ∀ other, ¬ before.Accepts other := fun other accepted => accepted.opened unopened
  by_cases stopped : (before.service.started || before.service.shutdown) = true
  · rw [if_pos stopped]
    exact edit_of_refused trivial
  rw [if_neg stopped]
  cases piped : before.service.pipe.start created with
  | mk pipe result =>
  cases result with
  | error failure =>
    exact .same trivial (fun other accepted => absurd accepted (refuses other)) rfl rfl
  | ok _ =>
    dsimp only
    by_cases invalid : poll = invalidSocket
    · rw [if_pos invalid]
      exact .same trivial (fun other accepted => absurd accepted (refuses other)) rfl rfl
    rw [if_neg invalid]
    dsimp only [startEnd]
    generalize running_eq : ({ service := { before.service with
      pipe, poll, shutdown := false, started := true }, kernel := before.kernel } :
        EPollSystem) = running
    have registered_eq : running.registered = before.registered := by
      rw [← running_eq]
      rfl
    have kernel_eq : running.kernel = before.kernel := by
      rw [← running_eq]
    have unregistered : ∀ sock, before.registered sock = none := fun sock =>
      registered_eq_none_of_refused consistent (refuses sock)
    have running_open : running.Open := by
      intro sock ops found
      rw [registered_eq, unregistered sock] at found
      cases found
    have edit := add_edit running_open pipe.reader (.read ||| .error) outcome
    generalize running.add pipe.reader (.read ||| .error) outcome = added at edit ⊢
    obtain ⟨after, result⟩ := added
    cases result with
    | error failure =>
      exact edit.of_unregistered trivial refuses unregistered registered_eq kernel_eq
        (fun succeeded => nomatch succeeded)
    | ok _ =>
      exact edit.of_unregistered trivial refuses unregistered registered_eq kernel_eq
        (fun _ => rfl)

theorem stop_edit : Edit before .stop before.stop (.ok ()) := by
  unfold stop
  split
  · exact edit_of_refused trivial
  · exact .clear trivial rfl rfl rfl

theorem perform_edit (consistent : before.Open) (call : Call) :
    Edit before call (before.perform call).1 (before.perform call).2 := by
  cases call with
  | start created poll outcome lastFailure =>
    exact start_edit consistent created poll outcome lastFailure
  | add sock events outcome => exact add_edit consistent sock events outcome
  | remove sock events outcome => exact remove_edit consistent sock events outcome
  | close sock outcome => exact close_edit before sock outcome
  | stop => exact stop_edit

/-- Edits keep a system open. -/
theorem Edit.keeps_open (edit : Edit before call after result) (consistent : before.Open) :
    after.Open := by
  intro sock ops found
  cases edit with
  | same _ accepts registered_eq _ =>
    rw [registered_eq] at found
    exact accepts sock (consistent sock ops found)
  | write other written _ accepts accepted _ _ registered_eq _ =>
    by_cases same : sock = other
    · rw [same]
      exact accepted
    · rw [registered_eq, Function.update_of_ne same] at found
      exact accepts sock (consistent sock ops found)
  | drop other _ accepts _ registered_eq _ =>
    by_cases same : sock = other
    · rw [registered_eq, same, Function.update_self] at found
      cases found
    · rw [registered_eq, Function.update_of_ne same] at found
      exact accepts sock (consistent sock ops found)
  | tear other old written _ accepts before_found _ _ registered_eq =>
    by_cases same : sock = other
    · rw [same]
      exact accepts other (consistent other old before_found)
    · rw [registered_eq, Function.update_of_ne same] at found
      exact accepts sock (consistent sock ops found)
  | clear _ _ registered_eq _ =>
    rw [registered_eq] at found
    cases found

theorem open_initial : Open {} := by
  intro sock ops found
  cases found

theorem open_of_reachable (reachable : Runs.Reachable step {} system) : system.Open := by
  refine reachable.invariant open_initial ?_
  rintro before call after consistent step_eq
  obtain rfl := Option.some.inj step_eq
  exact (perform_edit consistent call).keeps_open consistent

/-- What `Remove` is for: the operations left, or no entry where nothing but errors is left. -/
def difference (old events : SocketOperation) : Option SocketOperation :=
  let ops := old &&& ~~~events
  if ops = .none ∨ ops = .error then none else some ops

/-- The map after `Remove` on a registered socket where the system call succeeds. -/
theorem registered_remove (accepted : before.Accepts sock)
    (found : before.registered sock = some old) (nonempty : events ≠ .none) :
    (before.remove sock events (.ok ())).1.registered =
      Function.update before.registered sock
        (if old &&& events = .none then some old
        else if remaining old events = .none then none
        else some (remaining old events)) := by
  have lookup_eq : before.service.events.lookup sock = some old := found
  unfold remove
  rw [if_neg (by simp [accepted.running]), if_neg accepted.valid, if_neg accepted.opened,
    if_neg nonempty]
  simp only [lookup_eq]
  by_cases shared : old &&& events = .none
  · rw [if_neg (not_not.mpr shared), if_pos shared, update_registered_of_eq found]
  rw [if_pos shared, if_neg shared]
  by_cases emptied : remaining old events = .none
  · rw [if_pos emptied, if_pos emptied]
    exact registered_erase_insert ..
  · rw [if_neg emptied, if_neg emptied]
    exact registered_insert ..

/-- What is left where the remaining operations hold `Error` is what should be left exactly when
`Error` is all of them. -/
theorem remaining_eq_difference_iff (old events : SocketOperation) :
    (if remaining old events = .none then none
      else some (remaining old events)) = difference old events ↔
      ((old &&& ~~~events) &&& .error = .error → old &&& ~~~events = .error) := by
  simp only [difference]
  by_cases errors : (old &&& ~~~events) &&& .error = .error
  · have emptied : remaining old events = .none := if_pos errors
    have nonempty : old &&& ~~~events ≠ .none := by
      intro empty
      rw [empty] at errors
      exact absurd errors (by decide)
    rw [if_pos emptied]
    by_cases error_only : old &&& ~~~events = .error
    · rw [if_pos (.inr error_only)]
      exact iff_of_true rfl fun _ => error_only
    · rw [if_neg (not_or.mpr ⟨nonempty, error_only⟩)]
      exact iff_of_false nofun fun only => error_only (only errors)
  · have remaining_eq : remaining old events = old &&& ~~~events := if_neg errors
    have not_error : old &&& ~~~events ≠ .error := by
      intro error_only
      rw [error_only] at errors
      exact errors (by decide)
    rw [remaining_eq]
    refine iff_of_true ?_ fun error => absurd error errors
    by_cases empty : old &&& ~~~events = .none
    · rw [if_pos empty, if_pos (.inl empty)]
    · rw [if_neg empty, if_neg (not_or.mpr ⟨empty, not_error⟩)]

/-- `Remove` leaves exactly the difference when no other operation remains beside `Error`, and,
where nothing is removed, when more than `Error` was registered. -/
theorem remove_eq_difference_iff {system : EPollSystem}
    (reachable : Runs.Reachable step {} system) {sock : Socket} {old events : SocketOperation}
    (found : system.registered sock = some old) (nonempty : events ≠ .none) :
    (system.remove sock events (.ok ())).1.registered =
        Function.update system.registered sock (difference old events) ↔
      (old &&& events ≠ .none →
        (old &&& ~~~events) &&& .error = .error → old &&& ~~~events = .error) ∧
      (old &&& events = .none → old ≠ .none ∧ old ≠ .error) := by
  have accepted := open_of_reachable reachable sock old found
  rw [registered_remove accepted found nonempty,
    (Function.update_injective system.registered sock).eq_iff]
  by_cases shared : old &&& events = .none
  · simp only [shared, difference, SocketOperation.and_not_of_disjoint shared]
    by_cases error_only : old = .none ∨ old = .error
    · rw [if_pos error_only]
      simp only [ne_eq, not_true_eq_false, if_true, IsEmpty.forall_iff, true_and, true_imp_iff,
        reduceCtorEq, false_iff]
      tauto
    · rw [if_neg error_only]
      simpa [not_or] using error_only
  · rw [if_neg shared, remaining_eq_difference_iff]
    simp [shared]

/-- A system after `Start` and one `Add`. -/
def startAndAdd (sock : Socket) (events : SocketOperation) : EPollSystem :=
  ((({} : EPollSystem).start (.ok (3, 4)) 6 (.ok ()) {}).1.add sock events (.ok ())).1

theorem startAndAdd_reachable (sock : Socket) (events : SocketOperation) :
    Runs.Reachable step {} (startAndAdd sock events) :=
  ⟨[.start (.ok (3, 4)) 6 (.ok ()) {}, .add sock events (.ok ())], rfl⟩

theorem remove_read_of_readWrite_eq_difference :
    ((startAndAdd 5 .readWrite).remove 5 .read (.ok ())).1.registered =
      Function.update (startAndAdd 5 .readWrite).registered 5 (some .write) :=
  (remove_eq_difference_iff (startAndAdd_reachable 5 .readWrite)
    (show (startAndAdd 5 .readWrite).registered 5 = some .readWrite by decide +kernel)
    (show SocketOperation.read ≠ .none by decide)).mpr (by decide +kernel)

/-- Removing `Read` from all three operations drops the socket and its `Write` with it. -/
theorem remove_read_drops_write :
    ∃ system, Runs.Reachable step {} system ∧
      system.registered 5 = some (.readWrite ||| .error) ∧
      (system.remove 5 .read (.ok ())).1.registered 5 = none ∧
      difference (.readWrite ||| .error) .read = some (.write ||| .error) :=
  ⟨startAndAdd 5 (.readWrite ||| .error), startAndAdd_reachable 5 _, by decide +kernel,
    by decide +kernel, by decide +kernel⟩

/-- The map and the interest set agree and hold no empty set. -/
structure Synced (system : EPollSystem) : Prop where
  kernel_eq : ∀ sock, system.kernel sock = (system.registered sock).map toEPollEvents
  nonempty : ∀ sock, system.registered sock ≠ some SocketOperation.none

/-- The call ends with both in agreement, and changes neither where it fails. -/
structure Call.Atomic (before : EPollSystem) (call : Call) (after : EPollSystem) : Prop where
  synced : after.Synced
  unchanged : Failed (before.perform call).2 →
    after.registered = before.registered ∧ after.kernel = before.kernel

theorem synced_initial : Synced {} where
  kernel_eq _ := rfl
  nonempty _ := nofun

theorem Synced.update (synced : before.Synced) (sock : Socket) {ops : Option SocketOperation}
    (nonempty : ops ≠ some SocketOperation.none)
    (registered_eq : after.registered = Function.update before.registered sock ops)
    (kernel_eq : after.kernel = Function.update before.kernel sock (ops.map toEPollEvents)) :
    after.Synced where
  kernel_eq other := by
    rw [registered_eq, kernel_eq]
    by_cases same : other = sock
    · rw [same, Function.update_self, Function.update_self]
    · rw [Function.update_of_ne same, Function.update_of_ne same]
      exact synced.kernel_eq other
  nonempty other := by
    rw [registered_eq]
    by_cases same : other = sock
    · rw [same, Function.update_self]
      exact nonempty
    · rw [Function.update_of_ne same]
      exact synced.nonempty other

/-- From agreement, an edit is atomic exactly when its call is safe. -/
theorem Edit.atomic_iff_safe (edit : Edit before call after (before.perform call).2)
    (synced : before.Synced) : call.Atomic before after ↔ call.Safe before := by
  cases edit with
  | same safe _ registered_eq kernel_eq =>
    refine iff_of_true ⟨⟨?_, ?_⟩, fun _ => ⟨registered_eq, kernel_eq⟩⟩ safe
    · rw [registered_eq, kernel_eq]
      exact synced.kernel_eq
    · rw [registered_eq]
      exact synced.nonempty
  | write sock ops safe _ _ result_eq nonempty registered_eq kernel_eq =>
    refine iff_of_true ⟨?_, ?_⟩ safe
    · have written : ops ≠ .none := by
        refine nonempty fun old found empty => ?_
        exact synced.nonempty sock (found.trans (congrArg some empty))
      exact synced.update sock (by simpa using written) registered_eq kernel_eq
    · intro failed
      rw [result_eq] at failed
      exact failed.elim
  | drop sock safe _ result_eq registered_eq kernel_eq =>
    have absent : (none : Option SocketOperation) ≠ some SocketOperation.none := nofun
    refine iff_of_true ⟨synced.update sock absent registered_eq kernel_eq, ?_⟩ safe
    intro failed
    rw [result_eq] at failed
    exact failed.elim
  | tear sock old ops torn _ found changed failed registered_eq =>
    refine iff_of_false (fun atomic => ?_) torn
    have kept := congrFun (atomic.unchanged failed).1 sock
    rw [registered_eq, Function.update_self, found] at kept
    exact changed (Option.some.inj kept)
  | clear safe result_eq registered_eq kernel_eq =>
    refine iff_of_true ⟨⟨?_, ?_⟩, ?_⟩ safe
    · rw [registered_eq, kernel_eq]
      exact fun _ => rfl
    · rw [registered_eq]
      exact fun _ => nofun
    · intro failed
      rw [result_eq] at failed
      exact failed.elim

/-- The calls of a run are all atomic exactly when all of them are safe where they are made. -/
theorem everyStep_atomic_iff_safe (calls : List Call) :
    Runs.EveryStep step {} (fun _ before call after => call.Atomic before after) calls ↔
      Runs.EveryStep step {} (fun _ before call _ => call.Safe before) calls := by
  refine @Runs.everyStep_iff _ _ _ _ _ _ (fun _ system => system.Open ∧ system.Synced)
    ⟨open_initial, synced_initial⟩ ?_ ?_ calls
  · rintro _ before call after ⟨consistent, synced⟩ step_eq
    obtain rfl := Option.some.inj step_eq
    exact (perform_edit consistent call).atomic_iff_safe synced
  · rintro _ before call after ⟨consistent, synced⟩ step_eq safe
    obtain rfl := Option.some.inj step_eq
    have edit := perform_edit consistent call
    exact ⟨edit.keeps_open consistent, ((edit.atomic_iff_safe synced).mpr safe).synced⟩

/-- A failing `Add` on a registered socket leaves its operations in the map alone. -/
theorem not_atomic_failing_add :
    ¬ Runs.EveryStep step {} (fun _ before call after => call.Atomic before after)
      [.start (.ok (3, 4)) 6 (.ok ()) {}, .add 5 .read (.ok ()), .add 5 .write (.error {})] := by
  intro every
  have atomic := every [.start (.ok (3, 4)) 6 (.ok ()) {}, .add 5 .read (.ok ())]
    (.add 5 .write (.error {})) [] _ _ rfl rfl rfl
  have failed : Failed ((startAndAdd 5 .read).perform (.add 5 .write (.error {}))).2 := trivial
  have kept := congrFun (atomic.unchanged failed).1 5
  exact absurd kept (by decide +kernel)

end Fusion.EPollSystem
