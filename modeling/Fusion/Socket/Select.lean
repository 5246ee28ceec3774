import Mathlib.Data.Finset.Basic
import Mathlib.Data.Int.Basic
import Fusion.Library.Runs
import Fusion.Socket.Operation

/-!
# The select service

Every function is one locked section of the source: it maps the service before the section to the
service after it and its result.  `Execute` has two sections, before and after the call of
`select`, whose arguments and outcome pass between them.
-/

namespace Fusion

/-- State guarded by the mutex of a `SelectSocketService`. -/
structure SelectSocketService where
  pipe : SocketPair := {}
  polling : Bool := false
  notify : Bool := false
  started : Bool := false
  shutdown : Bool := false
  /-- Registered sockets, in registration order. -/
  events : List SocketEvent := []
  /-- Events handed out by the last `Execute`. -/
  results : List SocketEvent := []
deriving DecidableEq

namespace SelectSocketService

/-- The operations recorded for a socket, if `std::find` finds an entry for it. -/
def registered (events : List SocketEvent) (sock : Socket) : Option SocketOperation :=
  (events.find? fun event => event.sock == sock).map SocketEvent.events

def assign (events : List SocketEvent) (sock : Socket) (operations : SocketOperation) :
    List SocketEvent :=
  events.replaceF fun event =>
    if event.sock = sock then some { event with events := operations } else none

def erase (events : List SocketEvent) (sock : Socket) : List SocketEvent :=
  events.eraseP fun event => event.sock == sock

def notifyLocked (service : SelectSocketService) : SelectSocketService :=
  if service.polling then { service with pipe := service.pipe.send 5 }
  else { service with notify := true }

def add (service : SelectSocketService) (sock : Socket) (events : SocketOperation) :
    SelectSocketService × Result Unit :=
  if sock = invalidSocket then
    (service, .error { error := .invalidArgument, message := "invalid socket" })
  else if events = .none then (service, .ok ())
  else
    match registered service.events sock with
    | some old =>
      (notifyLocked
        { service with events := assign service.events sock (old.merge events) }, .ok ())
    | none =>
      (notifyLocked { service with events := service.events ++ [{ sock, events }] }, .ok ())

def close (service : SelectSocketService) (sock : Socket) : SelectSocketService × Result Unit :=
  if sock = invalidSocket then
    (service, .error { error := .invalidArgument, message := "invalid socket" })
  else if (registered service.events sock).isSome then
    (notifyLocked { service with events := erase service.events sock }, .ok ())
  else (service, .ok ())

def remove (service : SelectSocketService) (sock : Socket) (events : SocketOperation) :
    SelectSocketService × Result Unit :=
  if sock = invalidSocket then
    (service, .error { error := .invalidArgument, message := "invalid socket" })
  else if events = .none then (service, .ok ())
  else
    match registered service.events sock with
    | some old =>
      let kept := if old &&& events ≠ .none then old &&& ~~~events else old
      let assigned := assign service.events sock kept
      (notifyLocked
        { service with
          events := if kept = .none then erase assigned sock else assigned },
        .ok ())
    | none => (service, .ok ())

/-- `SelectSocketService::Notify`. -/
def notifyPoller (service : SelectSocketService) : SelectSocketService := notifyLocked service

/-- `SelectSocketService::Start`; `created` is what the operating system supplies for the pipe. -/
def start (service : SelectSocketService) (created : Result (Socket × Socket)) :
    SelectSocketService × Result Unit :=
  if service.started || service.shutdown then (service, .error { error := .failure })
  else
    match service.pipe.start created with
    | (pipe, .ok ()) => ({ service with pipe, started := true, shutdown := false }, .ok ())
    | (pipe, .error failure) => ({ service with pipe }, .error failure)

/-- The arguments of one call of `select`. -/
structure SelectCall where
  /-- The notification socket that the call watches. -/
  notify : Socket
  nFds : Int
  reads : Finset Socket
  writes : Finset Socket
  errors : Finset Socket

def SelectCall.watch (call : SelectCall) (event : SocketEvent) : SelectCall :=
  { call with
    nFds := max call.nFds (event.sock + 1)
    reads := if event.events.meets .read then insert event.sock call.reads else call.reads
    writes := if event.events.meets .write then insert event.sock call.writes else call.writes
    errors := if event.events.meets .error then insert event.sock call.errors else call.errors }

/-- What a call of `select` reports. -/
inductive SelectOutcome
  | failed (failure : Failure)
  | timeout
  /-- The bits left set in the three sets. -/
  | ready (reads writes errors : Finset Socket)

/-- `SelectSocketService::Execute` up to its release of the lock. -/
def executeBegin (service : SelectSocketService) : SelectSocketService × Result SelectCall :=
  if service.shutdown then (service, .error { error := .cancelled })
  else
    let notify := service.pipe.reader
    let watched := service.events.foldl SelectCall.watch
      { notify, nFds := 0, reads := ∅, writes := ∅, errors := ∅ }
    ({ service with polling := true },
      .ok { watched with
        nFds := max watched.nFds (notify + 1)
        reads := insert notify watched.reads })

/-- The operations of one entry that `select` reported ready. -/
def forward (reads writes errors : Finset Socket) (event : SocketEvent) : SocketOperation :=
  (if event.events.meets .read ∧ event.sock ∈ reads then SocketOperation.read else .none) |||
    (if event.events.meets .write ∧ event.sock ∈ writes then SocketOperation.write else .none) |||
    (if event.events.meets .error ∧ event.sock ∈ errors then SocketOperation.error else .none)

/-- The results collected from the current table. -/
def collect (notify : Socket) (reads writes errors : Finset Socket) (events : List SocketEvent) :
    List SocketEvent :=
  events.filterMap fun event =>
    let ready := forward reads writes errors event
    if event.sock = notify ∨ ready = .none then none
    else some { sock := event.sock, events := ready }

/-- `SelectSocketService::Execute` after it has taken the lock again.  `fault` is a failure of
`Recv` while the pipe is drained. -/
def executeEnd (service : SelectSocketService) (notify : Socket) (outcome : SelectOutcome)
    (fault : Option (Nat × Failure)) : SelectSocketService × Result (List SocketEvent) :=
  let service := { service with polling := false, notify := false }
  if service.shutdown then (service, .error {})
  else
    match outcome with
    | .failed failure =>
      (service, .error { failure with message := "failed to execute select()" })
    | .timeout => (service, .error {})
    | .ready reads writes errors =>
      let drained := if notify ∈ reads then service.pipe.drain fault else (service.pipe, .ok ())
      let service := { service with pipe := drained.1 }
      match drained.2 with
      | .error failure =>
        (service, .error { failure with
          message := s!"failed to drain notification socket ({service.pipe.reader})" })
      | .ok () =>
        let results := collect notify reads writes errors service.events
        ({ service with results }, .ok results)

/-- Where a call of `SelectSocketService::Stop` is between its locked sections. -/
inductive StopPhase
  /-- No call is in progress, or it has returned. -/
  | returned
  /-- Waiting on `m_cond`. -/
  | waiting
  /-- The lock is released and the callback is about to run. -/
  | calling
deriving DecidableEq, Repr

/-- `Stop` where it tests `m_polling`, before the wait and after each wake-up. -/
def stopResume (service : SelectSocketService) : SelectSocketService × StopPhase :=
  if service.polling then (service, .waiting)
  else ({ service with pipe := service.pipe.stop }, .calling)

/-- `SelectSocketService::Stop` up to its wait or its release of the lock. -/
def stop (service : SelectSocketService) : SelectSocketService × StopPhase :=
  if service.shutdown then (service, .returned)
  else stopResume (notifyLocked { service with shutdown := true, events := [], results := [] })

/-- The assertions of `Execute` on a service that was shut down. -/
def executeAsserts (service : SelectSocketService) : Bool :=
  !service.shutdown || service.events.isEmpty && service.results.isEmpty

/-- The assertions of the callback that `Stop` passes to itself. -/
def callbackAsserts (service : SelectSocketService) : Bool :=
  service.shutdown && service.events.isEmpty

/-- The assertions of the destructor. -/
def destructorAsserts (service : SelectSocketService) : Bool :=
  (!service.started || service.shutdown && !service.polling) &&
    service.events.isEmpty && service.results.isEmpty

end SelectSocketService

end Fusion
