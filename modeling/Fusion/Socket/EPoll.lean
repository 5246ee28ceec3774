import Mathlib.Data.List.AList
import Fusion.Library.Runs
import Fusion.Socket.Operation

/-!
# The epoll service and the kernel's interest set

The service keeps its own map of registered operations beside the set that the kernel keeps for
its epoll descriptor.  A system is both together; each function is one locked section, and the
outcome of every system call is an argument.
-/

namespace Fusion

/-- State guarded by the mutex of an `EPollSocketService`. -/
structure EPollSocketService where
  pipe : SocketPair := {}
  polling : Bool := false
  shutdown : Bool := false
  started : Bool := false
  poll : Socket := invalidSocket
  /-- Events handed out by the last `Execute`. -/
  results : List SocketEvent := []
  /-- Registered operations of each socket. -/
  events : AList fun _ : Socket => SocketOperation := ∅

/-- An epoll service with the interest set that the kernel keeps for it. -/
structure EPollSystem where
  service : EPollSocketService := {}
  /-- Event mask of each member of the interest set. -/
  kernel : Socket → Option (BitVec 32) := fun _ => none

namespace EPollSocketService

def epollIn : BitVec 32 := 0x001
def epollOut : BitVec 32 := 0x004
def epollErr : BitVec 32 := 0x008

def fromSocketEvents (events : BitVec 32) : SocketOperation :=
  (if events &&& epollIn = epollIn then SocketOperation.read else .none) |||
    (if events &&& epollOut = epollOut then SocketOperation.write else .none) |||
    (if events &&& epollErr = epollErr then SocketOperation.error else .none)

def toEPollEvents (events : SocketOperation) : BitVec 32 :=
  (if events.meets .read then epollIn else 0) |||
    (if events.meets .write then epollOut else 0) |||
    (if events.meets .error then epollErr else 0)

/-- `EPollSocketService::NotifyLocked`: the send has a size of zero. -/
def notifyLocked (service : EPollSocketService) : EPollSocketService :=
  if service.polling then { service with pipe := service.pipe.send 0 } else service

/-- `EPollSocketService::Notify`. -/
def notifyPoller (service : EPollSocketService) : EPollSocketService := notifyLocked service

/-- `EPollSocketService::Execute` up to its release of the lock. -/
def executeBegin (service : EPollSocketService) : EPollSocketService × Result Unit :=
  if service.shutdown then (service, .error { error := .cancelled })
  else ({ service with polling := true }, .ok ())

/-- The loop of `Execute` over the reported events.  The pipe is drained where it is reported. -/
def collect (notify : Socket) (fault : Option (Nat × Failure)) :
    List (Socket × BitVec 32) → SocketPair → List SocketEvent →
      SocketPair × List SocketEvent × Result Unit
  | [], pipe, results => (pipe, results, .ok ())
  | (sock, events) :: reported, pipe, results =>
    if sock = notify then
      match pipe.drain fault with
      | (pipe, .ok ()) => collect notify fault reported pipe results
      | (pipe, .error failure) =>
        (pipe, results, .error { failure with
          message := "failed to drain the notification socket" })
    else if fromSocketEvents events ≠ .none then
      collect notify fault reported pipe
        (results ++ [{ sock, events := fromSocketEvents events }])
    else collect notify fault reported pipe results

/-- `EPollSocketService::Execute` after it has taken the lock again. -/
def executeEnd (service : EPollSocketService) (outcome : Result (List (Socket × BitVec 32)))
    (fault : Option (Nat × Failure)) : EPollSocketService × Result (List SocketEvent) :=
  let service := { service with polling := false }
  if service.shutdown then (service, .ok [])
  else
    match outcome with
    | .error failure => (service, .error { failure with message := "epoll failed" })
    | .ok [] => (service, .ok [])
    | .ok reported =>
      match collect service.pipe.reader fault reported service.pipe [] with
      | (pipe, results, .ok ()) => ({ service with pipe, results }, .ok results)
      | (pipe, results, .error failure) => ({ service with pipe, results }, .error failure)

end EPollSocketService

inductive ControlOperation
  | add
  | mod
  | del
deriving DecidableEq, Repr

namespace EPollSystem

/-- `epoll_ctl` with a given outcome.  A failing call leaves the interest set unchanged. -/
def epollCtl (kernel : Socket → Option (BitVec 32)) (operation : ControlOperation)
    (sock : Socket) (event : BitVec 32) : Result Unit → Socket → Option (BitVec 32)
  | .error _ => kernel
  | .ok () =>
    match operation with
    | .add => Function.update kernel sock (some event)
    | .mod => Function.update kernel sock (some event)
    | .del => Function.update kernel sock none

/-- The result of a failing `epoll_ctl` with its context message. -/
def withContext (message : String) : Result Unit → Result Unit
  | .ok () => .ok ()
  | .error failure => .error { failure with message }

/-- `EPollSocketService::Add`; `outcome` is that of its `epoll_ctl` call. -/
def add (system : EPollSystem) (sock : Socket) (events : SocketOperation)
    (outcome : Result Unit) : EPollSystem × Result Unit :=
  if system.service.shutdown then (system, .error { error := .failure })
  else if sock = invalidSocket then
    (system, .error { error := .invalidArgument, message := "invalid socket" })
  else if system.service.poll = invalidSocket then
    (system, .error { error := .notInitialized, message := "pollset not yet initialized" })
  else if events = .none then (system, .ok ())
  else
    match system.service.events.lookup sock with
    | some old =>
      -- The entry is edited through a reference before the system call is made.
      let ops := old.merge events
      ({ service := { system.service with events := system.service.events.insert sock ops }
         kernel := epollCtl system.kernel .mod sock
          (EPollSocketService.toEPollEvents ops) outcome },
        withContext
          s!"failed to modify socket '{sock}' on epoll (events={ops.flagsToString})" outcome)
    | none =>
      ({ service :=
          match outcome with
          | .ok () =>
            { system.service with events := system.service.events.insert sock events }
          | .error _ => system.service
         kernel := epollCtl system.kernel .add sock
          (EPollSocketService.toEPollEvents events) outcome },
        withContext
          s!"failed to add '{events.flagsToString}' to socket '{sock}' on epoll" outcome)

def close (system : EPollSystem) (sock : Socket) (outcome : Result Unit) :
    EPollSystem × Result Unit :=
  if system.service.shutdown then (system, .error { error := .failure })
  else if sock = invalidSocket then
    (system, .error { error := .invalidArgument, message := "invalid socket" })
  else if system.service.poll = invalidSocket then
    (system, .error { error := .notInitialized, message := "pollset not yet initialized" })
  else
    match system.service.events.lookup sock with
    | some _ =>
      ({ service :=
          match outcome with
          | .ok () => { system.service with events := system.service.events.erase sock }
          | .error _ => system.service
         kernel := epollCtl system.kernel .del sock 0 outcome },
        withContext s!"failed to remove socket '{sock}' from epoll" outcome)
    | none =>
      (system, .error { error := .notFound, message := s!"socket '{sock}' not in pollset" })

/-- The operations that `Remove` leaves on an entry that shares an operation with `events`. -/
def remaining (old events : SocketOperation) : SocketOperation :=
  let ops := old &&& ~~~events
  if ops &&& .error = .error then .none else ops

def remove (system : EPollSystem) (sock : Socket) (events : SocketOperation)
    (outcome : Result Unit) : EPollSystem × Result Unit :=
  if system.service.shutdown then (system, .error { error := .failure })
  else if sock = invalidSocket then
    (system, .error { error := .invalidArgument, message := "invalid socket" })
  else if system.service.poll = invalidSocket then
    (system, .error { error := .notInitialized, message := "pollset not yet initialized" })
  else if events = .none then (system, .ok ())
  else
    match system.service.events.lookup sock with
    | some old =>
      if old &&& events ≠ .none then
        let ops := remaining old events
        let edited := system.service.events.insert sock ops
        if ops = .none then
          ({ service := { system.service with
              events :=
                match outcome with
                | .ok () => edited.erase sock
                | .error _ => edited }
             kernel := epollCtl system.kernel .del sock 0 outcome },
            withContext s!"failed to remove socket '{sock}' from epoll" outcome)
        else
          ({ service := { system.service with events := edited }
             kernel := epollCtl system.kernel .mod sock
              (EPollSocketService.toEPollEvents ops) outcome },
            withContext s!"failed to modify socket '{sock}' in epoll" outcome)
      else (system, .ok ())
    | none =>
      (system, .error { error := .notFound, message := s!"socket '{sock}' not found in pollset" })

/-- The first locked section of `Start`; it succeeds where `Start` goes on to its `Add`. -/
def startBegin (system : EPollSystem) (created : Result (Socket × Socket)) (poll : Socket)
    (lastFailure : Failure) : EPollSystem × Result Unit :=
  if system.service.poll ≠ invalidSocket then (system, .error { error := .notSupported })
  else if system.service.started || system.service.shutdown then
    (system, .error { error := .failure })
  else
    match system.service.pipe.start created with
    | (pipe, .error failure) =>
      ({ system with service := { system.service with pipe } }, .error failure)
    | (pipe, .ok ()) =>
      let opened := { system.service with pipe, poll }
      if poll = invalidSocket then
        ({ system with service := opened },
          .error { lastFailure with message := "failed to initialize epoll" })
      else
        ({ system with service := { opened with shutdown := false, started := true } }, .ok ())

/-- The second locked section of `Start`, its `Add` of the notification pipe. -/
def startEnd (system : EPollSystem) (outcome : Result Unit) (lastFailure : Failure) :
    EPollSystem × Result Unit :=
  let added := add system system.service.pipe.reader
    (.read ||| .error) outcome
  match added.2 with
  | .ok () => (added.1, .ok ())
  | .error _ =>
    (added.1, .error { lastFailure with message := "failed to add listening socket to epoll" })

/-- `EPollSocketService::Start`, where no other call comes between its two sections.  The operating
system supplies the pipe, the epoll descriptor, the outcome of the `epoll_ctl` call and the last
network failure. -/
def start (system : EPollSystem) (created : Result (Socket × Socket)) (poll : Socket)
    (outcome : Result Unit) (lastFailure : Failure) : EPollSystem × Result Unit :=
  match system.startBegin created poll lastFailure with
  | (opened, .ok ()) => opened.startEnd outcome lastFailure
  | (opened, .error failure) => (opened, .error failure)

/-- `EPollSocketService::Stop`.  Closing the epoll descriptor discards the interest set. -/
def stop (system : EPollSystem) : EPollSystem :=
  if system.service.shutdown then system
  else
    { service := { system.service with
        shutdown := true
        pipe := system.service.pipe.stop
        events := ∅
        results := [] }
      kernel := fun _ => none }

/-- A call on the service with the outcomes of its system calls. -/
inductive Call
  | start (created : Result (Socket × Socket)) (poll : Socket) (outcome : Result Unit)
      (lastFailure : Failure)
  | add (sock : Socket) (events : SocketOperation) (outcome : Result Unit)
  | remove (sock : Socket) (events : SocketOperation) (outcome : Result Unit)
  | close (sock : Socket) (outcome : Result Unit)
  | stop

def perform (system : EPollSystem) : Call → EPollSystem × Result Unit
  | .start created poll outcome lastFailure => system.start created poll outcome lastFailure
  | .add sock events outcome => system.add sock events outcome
  | .remove sock events outcome => system.remove sock events outcome
  | .close sock outcome => system.close sock outcome
  | .stop => (system.stop, .ok ())

/-- Make the call, whatever its result. -/
def step (system : EPollSystem) (call : Call) : Option EPollSystem := some (system.perform call).1

end EPollSystem
end Fusion
