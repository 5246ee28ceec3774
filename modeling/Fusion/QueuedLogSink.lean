import Fusion.ConsoleLogger
import Fusion.Library.Runs
import Mathlib.Data.List.DropRight

/-!
# A log sink that keeps the newest messages

`Log` adds a message to a queue of limited length, under a lock, and drops the oldest one where
there are too many.  `Flush` takes the whole queue under the lock and calls back for each message
after it has released the lock, so other threads log and flush between two of its callbacks.
-/

namespace Fusion.QueuedLogSink

/-- What the constructors fix. -/
structure Params where
  count : Nat
  formatter : Option (LogRecord → List Char)

/-- A message in the queue.  The number of the call of `Log` tells equal texts apart. -/
structure Message where
  serial : Nat
  text : List Char
deriving DecidableEq

/-- A call of `Flush` that took the queue. -/
structure Flight where
  /-- What the callback was called with. -/
  delivered : List Message
  /-- What it is still to be called with. -/
  left : List Message

/-- All messages that the call took. -/
def Flight.taken (flight : Flight) : List Message := flight.delivered ++ flight.left

/-- The queue and what became of its messages. -/
structure State where
  messages : List Message
  /-- The calls of `Flush` that took the queue, in the order of taking. -/
  flights : List Flight
  /-- How many messages have been logged. -/
  logged : Nat

def initial : State where
  messages := []
  flights := []
  logged := 0

/-- What a thread does without another one in between. -/
inductive Action
  | log (record : LogRecord)
  /-- `Flush` up to the release of the lock, and whether it has a callback. -/
  | flush (callback : Bool)
  /-- The next callback of a call of `Flush`. -/
  | deliver (index : Nat)

def Params.format (params : Params) (record : LogRecord) : List Char :=
  match params.formatter with
  | some formatTo => formatTo record
  | none => record.message

def State.log (params : Params) (state : State) (record : LogRecord) : State :=
  let messages := state.messages ++ [⟨state.logged, params.format record⟩]
  { state with
    messages := if params.count < messages.length then messages.tail else messages
    logged := state.logged + 1 }

def State.flush (state : State) (callback : Bool) : State :=
  if state.messages = [] then state
  else
    { state with
      messages := []
      flights := if callback then state.flights ++ [⟨[], state.messages⟩] else state.flights }

/-- The callback gets the next message. -/
def State.deliver (state : State) (index : Nat) : Option State :=
  match state.flights[index]? with
  | some ⟨delivered, message :: left⟩ =>
    some { state with flights := state.flights.set index ⟨delivered ++ [message], left⟩ }
  | _ => none

def step (params : Params) (state : State) : Action → Option State
  | .log record => some (state.log params record)
  | .flush callback => some (state.flush callback)
  | .deliver index => state.deliver index

/-! ## Histories -/

def Action.record? : Action → Option LogRecord
  | .log record => some record
  | _ => none

def Action.isFlush : Action → Bool
  | .flush _ => true
  | _ => false

/-- What was logged. -/
def records (actions : List Action) : List LogRecord := actions.filterMap Action.record?

/-- All messages logged, in logging order. -/
def sent (params : Params) (actions : List Action) : List Message :=
  (records actions).mapIdx fun serial record => ⟨serial, params.format record⟩

/-- How many messages were logged since the queue was taken. -/
def loggedSinceFlush (actions : List Action) : Nat :=
  (records (actions.rtakeWhile fun action => !action.isFlush)).length

theorem records_append (front back : List Action) :
    records (front ++ back) = records front ++ records back :=
  List.filterMap_append

variable (actions : List Action) (params : Params)

theorem length_sent (actions : List Action) :
    (sent params actions).length = (records actions).length :=
  List.length_mapIdx

theorem sent_append (front back : List Action) :
    ∃ later, sent params (front ++ back) = sent params front ++ later :=
  ⟨_, by rw [sent, records_append, List.mapIdx_append]; rfl⟩

theorem sent_concat_log (actions : List Action) (record : LogRecord) :
    sent params (actions ++ [.log record]) =
      sent params actions ++ [⟨(records actions).length, params.format record⟩] := by
  rw [sent, records_append]
  exact List.mapIdx_concat

variable {actions : List Action} {message : Message} {params : Params}

theorem serial_lt_of_mem_sent (member : message ∈ sent params actions) :
    message.serial < (records actions).length := by
  obtain ⟨index, bound, rfl⟩ := List.mem_mapIdx.mp member
  exact bound

theorem loggedSinceFlush_concat_log (record : LogRecord) :
    loggedSinceFlush (actions ++ [.log record]) = loggedSinceFlush actions + 1 := by
  rw [loggedSinceFlush, List.rtakeWhile_concat_pos _ _ _ rfl, records_append, List.length_append]
  rfl

theorem loggedSinceFlush_concat_flush (callback : Bool) :
    loggedSinceFlush (actions ++ [.flush callback]) = 0 := by
  rw [loggedSinceFlush, List.rtakeWhile_concat_neg _ _ _ (by simp [Action.isFlush])]
  rfl

theorem loggedSinceFlush_concat_deliver (index : Nat) :
    loggedSinceFlush (actions ++ [.deliver index]) = loggedSinceFlush actions := by
  rw [loggedSinceFlush, List.rtakeWhile_concat_pos _ _ _ rfl, records_append, List.length_append]
  rfl

/-! ## What a step keeps -/

variable {α : Type*}

theorem newest_concat (limit recent : Nat) (all : List α) (last : α) :
    (if limit < (all.rtake (min limit recent) ++ [last]).length then
        (all.rtake (min limit recent) ++ [last]).tail
      else all.rtake (min limit recent) ++ [last]) =
      (all ++ [last]).rtake (min limit (recent + 1)) := by
  have length_eq : ((all ++ [last]).rtake (min limit recent + 1)).length =
      min (min limit recent) all.length + 1 := by
    simp only [List.rtake, List.length_drop, List.length_append, List.length_singleton]
    omega
  rw [← List.rtake_concat_succ, length_eq]
  split
  · rw [List.rtake, List.tail_drop, List.rtake, List.length_append, List.length_singleton]
    congr 1
    omega
  · rw [List.rtake, List.rtake, List.length_append, List.length_singleton]
    congr 1
    omega

/-- The order of logging. -/
def Message.Before (left right : Message) : Prop := left.serial < right.serial

/-- What the calls of `Flush` took, one after the other. -/
def State.taken (state : State) : List Message := state.flights.flatMap Flight.taken

variable {index : Nat} {state next : State}

theorem taken_deliver (deliver_eq : state.deliver index = some next) :
    next.taken = state.taken ∧ next.messages = state.messages ∧ next.logged = state.logged := by
  rw [State.deliver] at deliver_eq
  split at deliver_eq
  · rename_i delivered message left flight_eq
    obtain rfl := Option.some.inj deliver_eq
    refine ⟨?_, rfl, rfl⟩
    have taken_eq : (state.flights.map Flight.taken)[index]? =
        some (Flight.taken ⟨delivered ++ [message], left⟩) := by
      rw [List.getElem?_map, flight_eq]
      simp [Flight.taken]
    obtain ⟨bound, same⟩ := List.getElem?_eq_some_iff.mp taken_eq
    rw [State.taken, State.taken, List.flatMap_def, List.flatMap_def, List.map_set, ← same,
      List.set_getElem_self bound]
  · cases deliver_eq

theorem taken_step {before after : State} {action : Action}
    (step_eq : step params before action = some after) :
    ∃ more, after.taken = before.taken ++ more := by
  cases action with
  | log record =>
    obtain rfl := Option.some.inj step_eq
    exact ⟨[], (List.append_nil _).symm⟩
  | flush callback =>
    obtain rfl := Option.some.inj step_eq
    rw [State.flush]
    split
    · exact ⟨[], (List.append_nil _).symm⟩
    · cases callback with
      | false => exact ⟨[], (List.append_nil _).symm⟩
      | true => exact ⟨_, List.flatMap_append⟩
  | deliver index => exact ⟨[], (taken_deliver step_eq).1.trans (List.append_nil _).symm⟩

/-- The queue holds the newest of the messages logged since it was taken, and all messages that are
taken or in the queue are there once, in the order of logging. -/
structure Holds (params : Params) (actions : List Action) (state : State) : Prop where
  messages_eq : state.messages =
    (sent params actions).rtake (min params.count (loggedSinceFlush actions))
  logged_eq : state.logged = (records actions).length
  ordered : (state.taken ++ state.messages).Pairwise Message.Before
  sent_of_taken : ∀ message ∈ state.taken, message ∈ sent params actions

theorem Holds.mem_sent (holds : Holds params actions state)
    (member : message ∈ state.taken ++ state.messages) : message ∈ sent params actions := by
  cases List.mem_append.mp member with
  | inl taken => exact holds.sent_of_taken message taken
  | inr queued =>
    rw [holds.messages_eq] at queued
    exact List.mem_of_mem_drop queued

theorem Holds.log (holds : Holds params actions state) (record : LogRecord) :
    Holds params (actions ++ [.log record]) (state.log params record) := by
  have sent_eq := sent_concat_log params actions record
  constructor
  · rw [sent_eq, loggedSinceFlush_concat_log, ← newest_concat, ← holds.messages_eq,
      ← holds.logged_eq]
    rfl
  · rw [records_append, List.length_append, ← holds.logged_eq]
    rfl
  · have grown : List.Pairwise Message.Before
        (state.taken ++ (state.messages ++ [⟨state.logged, params.format record⟩])) := by
      rw [← List.append_assoc]
      refine List.pairwise_append.mpr ⟨holds.ordered, List.pairwise_singleton .., ?_⟩
      intro earlier member last last_mem
      obtain rfl := List.mem_singleton.mp last_mem
      rw [Message.Before, holds.logged_eq]
      exact serial_lt_of_mem_sent (holds.mem_sent member)
    -- the queue loses at most its front
    refine grown.sublist (List.Sublist.append_left ?_ _)
    simp only [State.log]
    split
    · exact List.tail_sublist _
    · exact List.Sublist.refl _
  · intro message member
    rw [sent_eq]
    exact List.mem_append_left _ (holds.sent_of_taken message member)

theorem taken_flush (state : State) : (state.flush true).taken = state.taken ++ state.messages := by
  rw [State.flush]
  split
  · rename_i empty
    rw [empty, List.append_nil]
  · simp [State.taken, Flight.taken]

theorem Holds.flush (holds : Holds params actions state) :
    Holds params (actions ++ [.flush true]) (state.flush true) := by
  have sent_eq : sent params (actions ++ [.flush true]) = sent params actions := by
    rw [sent, records_append]
    exact congrArg _ (List.append_nil _)
  have taken_eq := taken_flush state
  have messages_eq : (state.flush true).messages = [] := by
    rw [State.flush]
    split
    · assumption
    · rfl
  constructor
  · rw [messages_eq, loggedSinceFlush_concat_flush, Nat.min_zero, List.rtake_zero]
  · have logged_eq : (state.flush true).logged = state.logged := by
      rw [State.flush]
      split
      · rfl
      · rfl
    rw [logged_eq, records_append, List.length_append, holds.logged_eq]
    rfl
  · rw [taken_eq, messages_eq, List.append_nil]
    exact holds.ordered
  · intro message member
    rw [sent_eq]
    exact holds.mem_sent (taken_eq ▸ member)

theorem Holds.deliver (holds : Holds params actions state)
    (deliver_eq : state.deliver index = some next) :
    Holds params (actions ++ [.deliver index]) next := by
  obtain ⟨taken_eq, messages_eq, logged_eq⟩ := taken_deliver deliver_eq
  have records_eq : records (actions ++ [.deliver index]) = records actions := by
    rw [records_append]
    exact List.append_nil _
  constructor
  · rw [messages_eq, holds.messages_eq, loggedSinceFlush_concat_deliver, sent, sent, records_eq]
  · rw [logged_eq, holds.logged_eq, records_eq]
  · rw [taken_eq, messages_eq]
    exact holds.ordered
  · rw [taken_eq, sent, records_eq]
    exact holds.sent_of_taken

theorem holds_run (callbacks : ∀ action ∈ actions, action ≠ .flush false)
    (execution : Runs.run (step params) initial actions = some state) :
    Holds params actions state := by
  have every : Runs.EveryStep (step params) initial (fun _ _ action _ => action ≠ .flush false)
      actions := by
    rintro front action back before after rfl - -
    exact callbacks action (List.mem_append_right _ List.mem_cons_self)
  refine Runs.EveryStep.invariant ?_ ?_ every execution
  · exact ⟨(List.rtake_nil _).symm, rfl, .nil, nofun⟩
  · intro front before action after holds step_eq callback
    cases action with
    | log record =>
      obtain rfl := Option.some.inj step_eq
      exact holds.log record
    | flush given =>
      obtain rfl := Option.some.inj step_eq
      cases given with
      | false => exact absurd rfl callback
      | true => exact holds.flush
    | deliver index => exact holds.deliver step_eq

/-! ## What a history keeps -/

theorem mem_taken_of_run {middle : State}
    (execution : Runs.run (step params) middle actions = some state)
    (taken : message ∈ middle.taken) : message ∈ state.taken := by
  have reachable : Runs.Reachable (step params) middle state := ⟨actions, execution⟩
  refine @Runs.Reachable.invariant _ _ _ _ (message ∈ State.taken ·) taken ?_ _ reachable
  intro before action after member step_eq
  obtain ⟨more, taken_eq⟩ := taken_step step_eq
  rw [taken_eq]
  exact List.mem_append_left _ member

variable {front back : List Action}

/-- The messages logged after the last `Flush` are among those since it. -/
theorem loggedSinceFlush_append (unflushed : ∀ action ∈ back, action.isFlush = false) :
    loggedSinceFlush (front ++ back) = loggedSinceFlush front + (records back).length := by
  induction back using List.reverseRecOn with
  | nil => rw [List.append_nil]; rfl
  | append_singleton back last ih =>
    have earlier := ih fun action member => unflushed action (List.mem_append_left _ member)
    have last_unflushed := unflushed last (List.mem_append_right _ List.mem_cons_self)
    rw [← List.append_assoc, records_append, List.length_append]
    cases last with
    | log record =>
      rw [loggedSinceFlush_concat_log, earlier]
      rfl
    | flush callback => cases last_unflushed
    | deliver index =>
      rw [loggedSinceFlush_concat_deliver, earlier]
      rfl

theorem mem_newest {older newer : List α} {element : α} {count : Nat} (few : newer.length < count) :
    element ∈ (older ++ element :: newer).rtake count := by
  rw [List.rtake, List.drop_append_of_le_length]
  · exact List.mem_append_right _ List.mem_cons_self
  · rw [List.length_append, List.length_cons]
    omega

variable {record : LogRecord}

/-- `Flush` takes a message if fewer than `count` newer ones were logged in between. -/
theorem mem_messages_of_few {between : List Action}
    (holds : Holds params (front ++ .log record :: between) state)
    (unflushed : ∀ action ∈ between, action.isFlush = false)
    (few : (records between).length < params.count) :
    ⟨(records front).length, params.format record⟩ ∈ state.messages := by
  have recent : ∀ action ∈ Action.log record :: between, action.isFlush = false := by
    intro action member
    cases List.mem_cons.mp member with
    | inl same => exact same ▸ rfl
    | inr later => exact unflushed action later
  have split_eq : front ++ Action.log record :: between = (front ++ [.log record]) ++ between := by
    rw [List.append_assoc, List.singleton_append]
  obtain ⟨later, sent_eq⟩ := sent_append params (front ++ [.log record]) between
  have lengths := congrArg List.length sent_eq
  rw [List.length_append, length_sent, length_sent, records_append, List.length_append] at lengths
  rw [holds.messages_eq, loggedSinceFlush_append recent, split_eq, sent_eq, sent_concat_log,
    List.append_assoc, List.singleton_append]
  refine mem_newest ?_
  have recent_length : (records (.log record :: between)).length = (records between).length + 1 :=
    rfl
  omega

/-- A message that no call of `Flush` took had no `Flush` after it, or enough newer ones before the
next. -/
theorem flushed_or_overtaken
    (callbacks : ∀ action ∈ front ++ .log record :: back, action ≠ .flush false)
    (execution : Runs.run (step params) initial (front ++ .log record :: back) = some state)
    (untaken : ⟨(records front).length, params.format record⟩ ∉ state.taken) :
    (∀ action ∈ back, action.isFlush = false) ∨
      ∃ between after, back = between ++ .flush true :: after ∧
        (∀ action ∈ between, action.isFlush = false) ∧
        params.count ≤ (records between).length := by
  cases found : back.find? Action.isFlush with
  | none =>
    refine .inl fun action member => ?_
    simpa using List.find?_eq_none.mp found action member
  | some next =>
    obtain ⟨is_flush, between, after, rfl, unflushed⟩ := List.find?_eq_some_iff_append.mp found
    replace unflushed : ∀ action ∈ between, action.isFlush = false := by
      intro action member
      simpa using unflushed action member
    obtain ⟨callback, rfl⟩ : ∃ callback, next = .flush callback := by
      cases next with
      | log record => cases is_flush
      | flush callback => exact ⟨callback, rfl⟩
      | deliver index => cases is_flush
    have given : callback = true := by
      cases callback with
      | false => exact absurd rfl (callbacks (.flush false) (by simp))
      | true => rfl
    subst given
    refine .inr ⟨between, after, rfl, unflushed, Nat.le_of_not_lt fun few => untaken ?_⟩
    have split_eq : front ++ Action.log record :: (between ++ .flush true :: after) =
        (front ++ .log record :: between) ++ .flush true :: after := by simp
    rw [split_eq, Runs.run_append] at execution
    obtain ⟨before, earlier, later⟩ := Option.bind_eq_some_iff.mp execution
    have holds : Holds params (front ++ .log record :: between) before := by
      refine holds_run (fun action member => callbacks action ?_) earlier
      rw [split_eq]
      exact List.mem_append_left _ member
    have flushed : Runs.run (step params) (before.flush true) after = some state := later
    refine mem_taken_of_run flushed ?_
    rw [taken_flush]
    exact List.mem_append_right _ (mem_messages_of_few holds unflushed few)

/-- What the callbacks of all calls of `Flush` got. -/
def State.delivered (state : State) : List Message := state.flights.flatMap Flight.delivered

/-- What the sink promises of a history and the state it leads to. -/
structure KeepsNewest (params : Params) (actions : List Action) (state : State) : Prop where
  /-- The queue: the most recent of the messages logged since it was taken, in logging order. -/
  queue : state.messages = (sent params actions).rtake (min params.count (loggedSinceFlush actions))
  /-- Only logged messages are delivered, and none twice. -/
  sent_of_delivered : ∀ message ∈ state.delivered, message ∈ sent params actions
  once : state.delivered.Nodup
  inOrder : ∀ flight ∈ state.flights, flight.delivered.Pairwise Message.Before
  /-- A message that is not delivered will be, or it was overtaken, or no `Flush` followed. -/
  lost : ∀ front record back, actions = front ++ .log record :: back →
    ⟨(records front).length, params.format record⟩ ∉ state.delivered →
      (∃ flight ∈ state.flights, ⟨(records front).length, params.format record⟩ ∈ flight.left) ∨
      (∀ action ∈ back, action.isFlush = false) ∨
      ∃ between after, back = between ++ .flush true :: after ∧
        (∀ action ∈ between, action.isFlush = false) ∧
        params.count ≤ (records between).length
  /-- The next callback of a call of `Flush` gets the first message that is left, in any state. -/
  next : ∀ index delivered message left, state.flights[index]? = some ⟨delivered, message :: left⟩ →
    ∃ after, step params state (.deliver index) = some after ∧
      after.flights[index]? = some ⟨delivered ++ [message], left⟩ ∧
      ∀ other, other ≠ index → after.flights[other]? = state.flights[other]?
  /-- As many callbacks as messages are left deliver all that the call took, in order. -/
  drains : ∀ index flight, state.flights[index]? = some flight →
    ∃ after, Runs.run (step params) state (.replicate flight.left.length (.deliver index)) =
      some after ∧ after.flights[index]? = some ⟨flight.taken, []⟩

theorem deliver_of_left {delivered left : List Message}
    (flight_eq : state.flights[index]? = some ⟨delivered, message :: left⟩) :
    ∃ after, state.deliver index = some after ∧
      after.flights[index]? = some ⟨delivered ++ [message], left⟩ ∧
      ∀ other, other ≠ index → after.flights[other]? = state.flights[other]? := by
  refine ⟨_, by rw [State.deliver, flight_eq], ?_, fun other distinct => ?_⟩
  · obtain ⟨bound, -⟩ := List.getElem?_eq_some_iff.mp flight_eq
    exact List.getElem?_set_self bound
  · exact List.getElem?_set_ne (Ne.symm distinct)

theorem run_deliver {flight : Flight} (flight_eq : state.flights[index]? = some flight) :
    ∃ after, Runs.run (step params) state (.replicate flight.left.length (.deliver index)) =
      some after ∧ after.flights[index]? = some ⟨flight.taken, []⟩ := by
  obtain ⟨delivered, left⟩ := flight
  induction left generalizing state delivered with
  | nil => exact ⟨state, rfl, by rw [flight_eq, Flight.taken, List.append_nil]⟩
  | cons message left ih =>
    obtain ⟨middle, deliver_eq, middle_eq, -⟩ := deliver_of_left flight_eq
    obtain ⟨after, run_eq, after_eq⟩ := ih _ middle_eq
    refine ⟨after, ?_, ?_⟩
    · rw [List.length_cons, List.replicate_succ]
      exact (congrArg (Option.bind · _) deliver_eq).trans run_eq
    · rw [after_eq, Flight.taken, Flight.taken, List.append_assoc]
      rfl

theorem delivered_sublist_taken (state : State) : state.delivered.Sublist state.taken := by
  rw [State.delivered, State.taken]
  induction state.flights with
  | nil => exact .slnil
  | cons flight flights ih => exact (List.sublist_append_left ..).append ih

theorem keepsNewest {params : Params} {actions : List Action} {state : State}
    (callbacks : ∀ action ∈ actions, action ≠ .flush false)
    (execution : Runs.run (step params) initial actions = some state) :
    KeepsNewest params actions state := by
  have holds := holds_run callbacks execution
  have ordered : state.taken.Pairwise Message.Before :=
    holds.ordered.sublist (List.sublist_append_left ..)
  constructor
  · exact holds.messages_eq
  · intro message member
    exact holds.sent_of_taken message ((delivered_sublist_taken state).subset member)
  · refine (ordered.sublist (delivered_sublist_taken state)).imp ?_
    rintro left right before rfl
    exact Nat.lt_irrefl _ before
  · intro flight member
    have flight_ordered := (List.pairwise_flatMap.mp ordered).1 flight member
    exact flight_ordered.sublist (List.sublist_append_left ..)
  · rintro front record back rfl undelivered
    by_cases taken : ⟨(records front).length, params.format record⟩ ∈ state.taken
    · obtain ⟨flight, member, in_flight⟩ := List.mem_flatMap.mp taken
      refine .inl ⟨flight, member, (List.mem_append.mp in_flight).resolve_left ?_⟩
      exact fun delivered => undelivered (List.mem_flatMap.mpr ⟨flight, member, delivered⟩)
    · exact .inr (flushed_or_overtaken callbacks execution taken)
  · exact fun _ _ _ _ flight_eq => deliver_of_left flight_eq
  · exact fun _ _ flight_eq => run_deliver flight_eq

/-- Of two messages in a queue of one the newer is delivered. -/
theorem keepsNewest_one :
    KeepsNewest ⟨1, none⟩
      [.log { message := ['a'] }, .log { message := ['b'] }, .flush true, .deliver 0]
      ⟨[], [⟨[⟨1, ['b']⟩], []⟩], 2⟩ :=
  keepsNewest (by simp) rfl

end Fusion.QueuedLogSink
