import Fusion.Library.Checks
import Fusion.Network.SocketAddress
import Fusion.Socket.Operation

/-!
# Starting a socket pair

`SocketPair::Start` listens on the loopback address, connects a writer to it and accepts the reader.
The model runs it on the platform's answers, in a build without assertions, and keeps the
descriptors that were opened and closed.  The wrappers of `socket` and `accept` take 0 for a failure
and -1 for a descriptor.
-/

namespace Fusion.Network

open SocketAddress

/-! ## The platform -/

/-- A text with the number of a socket in it. -/
def about (before : String) (sock : Socket) : String := before ++ "'" ++ toString sock ++ "'"

/-- What the calls of one `Start` return; those that are not made have no effect. -/
structure Answers where
  functions : InetFunctions
  /-- The first `socket`. -/
  listener : Socket
  bind : Int
  listen : Int
  getsockname : Int
  /-- The bytes that `getsockname` writes. -/
  name : List UInt8
  /-- The second `socket`. -/
  writer : Socket
  connect : Int
  /-- `fcntl` with `F_GETFL` and with `F_SETFL`, for the writer before and after the `accept` and
  then for the reader. -/
  firstFlags : Int × Int
  accepted : Socket
  writerFlags : Int × Int
  readerFlags : Int × Int
  errno : Int
  /-- The platform gives no descriptor twice while it is open. -/
  writer_new : writer ≠ invalidSocket → writer ≠ listener
  accepted_new : accepted ≠ invalidSocket → accepted ≠ listener ∧ accepted ≠ writer

def Answers.lastFailure (answers : Answers) (message : String) : Failure :=
  { error := .platform answers.errno, message }

/-- The descriptor that a call opened or closed, if any. -/
def descriptor (sock : Socket) : List Socket := if sock = invalidSocket then [] else [sock]

/-! ## The wrappers of `StandardNetwork` -/

namespace StandardNetwork

variable (answers : Answers)

/-- A check that most wrappers begin with. -/
def checkSocket (sock : Socket) : Result Unit :=
  if sock = invalidSocket then
    .error { error := .invalidArgument, message := "invalid socket" }
  else .ok ()

/-- The text of an address in a message. -/
def textOf (address : SocketAddress) : String :=
  match address.toText answers.functions with
  | .ok text => String.ofList text
  | .error _ => ""

/-- A call that fails with `SOCKET_ERROR`. -/
def call (result : Int) (message : String) : Result Unit :=
  if result = invalidSocket then .error (answers.lastFailure message) else .ok ()

/-- The address fits into a `sockaddr_storage`. -/
def checkAddress (address : SocketAddress) : Result Unit :=
  match address.toSockAddr false (some (List.replicate 128 0)) 128 with
  | .ok { returned := true, .. } => .ok ()
  | _ => .error { error := .invalidArgument, message := "invalid socket address" }

def createSocket (result : Socket) : Result Socket :=
  if result = 0 then
    .error (answers.lastFailure "failed to create socket for Stream(family=Inet4,protocol=Tcp)")
  else .ok result

def accept (server : Socket) : Result Socket := do
  checkSocket server
  if answers.accepted = 0 then .error (answers.lastFailure (about "failed to accept() on " server))
  else .ok answers.accepted

def bind (sock : Socket) (address : SocketAddress) : Result Unit := do
  checkSocket sock
  checkAddress address
  call answers answers.bind
    (about "failed to bind socket " sock ++ " to '" ++ textOf answers address ++ "'")

def listen (sock : Socket) : Result Unit := do
  checkSocket sock
  call answers answers.listen (about "failed to listen on " sock ++ " (backlog=1)")

def getSockName (sock : Socket) : Result SocketAddress := do
  checkSocket sock
  call answers answers.getsockname (about "failed to get socket name for " sock)
  return (fromSockAddr false {} answers.name).1

def connect (sock : Socket) (address : SocketAddress) : Result Unit := do
  checkSocket sock
  checkAddress address
  call answers answers.connect
    (about "failed to connect socket " sock ++ " to '" ++ textOf answers address ++ "'")

def setBlocking (sock : Socket) (flags : Int × Int) : Result Unit := do
  checkSocket sock
  call answers flags.1 (about "failed fcntl get-flags for " sock)
  call answers flags.2 (about "failed fcntl set-flags for " sock)

end StandardNetwork

/-! ## Start -/

namespace SocketPair

open Checks StandardNetwork

variable (answers : Answers)

/-- Any port of the loopback address. -/
def loopback : SocketAddress := .ofInet inaddrLoopback 0

/-- What one call of `Start` leaves. -/
structure Ran where
  pair : Fusion.SocketPair
  result : Result Unit
  opened : List Socket
  closed : List Socket

/-- `Bind`, `Listen` and `GetSockName` on the listener. -/
def listening (read : Socket) : Result SocketAddress := do
  (bind answers read loopback).mapError
    (·.withContext (about "failed to bind notification listener " read ++ " to '" ++
      textOf answers loopback ++ "'"))
  (listen answers read).mapError
    (·.withContext (about "failed to listen on notification listener " read))
  (getSockName answers read).mapError
    (·.withContext (about "failed to determine listening socket name " read))

/-- `Connect` and the first `SetBlocking` of the writer. -/
def connecting (write : Socket) (remote : SocketAddress) : Result Unit := do
  (connect answers write remote).mapError
    (·.withContext (about "failed to connect notify writer " write))
  (setBlocking answers write answers.firstFlags).mapError
    (·.withContext (about "failed to set non-blocking on notification writer " write))

/-- `SetBlocking` of the two stored sockets. -/
def finishing (pair : Fusion.SocketPair) : Result Unit := do
  (setBlocking answers pair.writer answers.writerFlags).mapError
    (·.withContext (about "failed to set non-blocking on notification writer " pair.writer))
  (setBlocking answers pair.reader answers.readerFlags).mapError
    (·.withContext (about "failed to set non-blocking on notification listener " pair.reader))

/-- Every way out closes the listener, which is the socket held in `read`.  The results are those of
the calls of `socket` and `accept` that were made. -/
def leave (pair : Fusion.SocketPair) (read : Socket) (results : List Socket)
    (result : Result Unit) : Ran :=
  { pair, result, opened := results.flatMap descriptor, closed := descriptor read }

/-- The rest of `Start` once the writer is connected: `Accept`, and what follows it. -/
def startReader (pair : Fusion.SocketPair) (read write : Socket) : Ran :=
  let results := [answers.listener, answers.writer, answers.accepted]
  match accept answers read with
  | .error failure =>
    leave pair read results (.error (failure.withContext
      (about "failed to connect read end of the notify pair " read)))
  | .ok reader =>
    let pair := { pair with reader, writer := write }
    leave pair read results (finishing answers pair)

/-- The rest of `Start` once there is a listener with a name. -/
def startWriter (pair : Fusion.SocketPair) (read : Socket) (remote : SocketAddress) : Ran :=
  let results := [answers.listener, answers.writer]
  match createSocket answers answers.writer with
  | .error failure =>
    leave pair read results (.error (failure.withContext "failed to initialize notify writer"))
  | .ok write =>
    match connecting answers write remote with
    | .error failure => leave pair read results (.error failure)
    | .ok () => startReader answers pair read write

def start (pair : Fusion.SocketPair) : Ran :=
  if pair.reader ≠ invalidSocket then { pair, result := .ok (), opened := [], closed := [] }
  else
    let results := [answers.listener]
    match createSocket answers answers.listener with
    | .error failure =>
      leave pair invalidSocket results
        (.error (failure.withContext "failed to initialize notify listener"))
    | .ok read =>
      match listening answers read with
      | .error failure => leave pair read results (.error failure)
      | .ok remote => startWriter answers pair read remote

/-- A start that leaks nothing: it succeeds with both ends open and everything else closed once, or
fails with no end stored and everything closed once. -/
def Clean (ran : Ran) : Prop :=
  match ran.result with
  | .ok () =>
    (ran.pair.reader ≠ invalidSocket ∧ ran.pair.reader ∉ ran.closed) ∧
      (ran.pair.writer ≠ invalidSocket ∧ ran.pair.writer ∉ ran.closed) ∧
      ∀ sock ∈ ran.opened, sock ≠ ran.pair.reader → sock ≠ ran.pair.writer →
        ran.closed.count sock = 1
  | .error _ =>
    ran.pair.reader = invalidSocket ∧ ran.pair.writer = invalidSocket ∧
      ∀ sock ∈ ran.opened, ran.closed.count sock = 1

/-! ## When nothing leaks -/

/-- The listener is set up. -/
def Listens : Prop :=
  answers.listener ≠ invalidSocket ∧ answers.bind ≠ invalidSocket ∧
    answers.listen ≠ invalidSocket ∧ answers.getsockname ≠ invalidSocket

/-- Both calls of `fcntl` succeed. -/
def Switches (flags : Int × Int) : Prop := flags.1 ≠ invalidSocket ∧ flags.2 ≠ invalidSocket

/-- The writer is connected to the listener's name. -/
def Connects : Prop :=
  answers.writer ≠ invalidSocket ∧
    (AddressFamily.ofNumber (familyAt answers.name) ≠ .none ∧
      AddressFamily.ofNumber (familyAt answers.name) ≠ .unspecified) ∧
    answers.connect ≠ invalidSocket ∧ Switches answers.firstFlags

/-- The reader is accepted, and both ends take their mode. -/
def Finishes : Prop :=
  answers.accepted ≠ invalidSocket ∧ Switches answers.writerFlags ∧ Switches answers.readerFlags

/-- The answers on which a start leaks nothing. -/
def Tidy (pair : Fusion.SocketPair) : Prop :=
  if pair.reader ≠ invalidSocket then pair.writer ≠ invalidSocket
  else
    answers.listener ≠ 0 ∧
      (pair.writer = invalidSocket ∧ (¬Listens answers ∨ answers.writer = invalidSocket) ∨
        Listens answers ∧ answers.writer ≠ 0 ∧ Connects answers ∧ answers.accepted ≠ 0 ∧
          Finishes answers)

section Stages

variable {answers : Answers} (sock : Socket)

theorem decides_checkSocket : Decides (checkSocket sock) (sock ≠ invalidSocket) () := .check

theorem decides_call (result : Int) (message : String) :
    Decides (call answers result message) (result ≠ invalidSocket) () := .check

variable {address : SocketAddress}

theorem decides_checkAddress (tagged : address.Tagged) :
    Decides (checkAddress address)
      (address.family ≠ .none ∧ address.family ≠ .unspecified) () := by
  unfold checkAddress toSockAddr
  cases family_eq : address.family with
  | none => exact ⟨by simp, fun _ => ⟨_, rfl⟩⟩
  | unspecified => exact ⟨by simp, fun _ => ⟨_, rfl⟩⟩
  | inet4 =>
    obtain ⟨inet, inet_eq⟩ := tagged.inet_eq family_eq
    exact ⟨fun _ => by simp [fill, inet_eq, Except.map], by simp⟩
  | inet6 =>
    obtain ⟨inet6, inet6_eq⟩ := tagged.inet6_eq family_eq
    exact ⟨fun _ => by simp [fill, inet6_eq, Except.map], by simp⟩
  | unix =>
    obtain ⟨unix, unix_eq⟩ := tagged.unix_eq family_eq
    exact ⟨fun _ => by simp [fill, unix_eq, Except.map], by simp⟩

theorem decides_setBlocking (flags : Int × Int) :
    Decides (setBlocking answers sock flags) (sock ≠ invalidSocket ∧ Switches flags) () :=
  (decides_checkSocket sock).bind ((decides_call _ _).bind (decides_call _ _))

theorem decides_bind (tagged : address.Tagged) :
    Decides (StandardNetwork.bind answers sock address)
      (sock ≠ invalidSocket ∧ (address.family ≠ .none ∧ address.family ≠ .unspecified) ∧
        answers.bind ≠ invalidSocket) () :=
  (decides_checkSocket sock).bind ((decides_checkAddress tagged).bind (decides_call _ _))

theorem decides_listen :
    Decides (listen answers sock)
      (sock ≠ invalidSocket ∧ answers.listen ≠ invalidSocket) () :=
  (decides_checkSocket sock).bind (decides_call _ _)

theorem decides_getSockName :
    Decides (getSockName answers sock)
      (sock ≠ invalidSocket ∧ answers.getsockname ≠ invalidSocket ∧ True)
      (fromSockAddr false {} answers.name).1 :=
  (decides_checkSocket sock).bind ((decides_call _ _).bind .pure)

theorem decides_connect (tagged : address.Tagged) :
    Decides (connect answers sock address)
      (sock ≠ invalidSocket ∧ (address.family ≠ .none ∧ address.family ≠ .unspecified) ∧
        answers.connect ≠ invalidSocket) () :=
  (decides_checkSocket sock).bind ((decides_checkAddress tagged).bind (decides_call _ _))

theorem decides_listening :
    Decides (listening answers answers.listener) (Listens answers)
      (fromSockAddr false {} answers.name).1 := by
  have tagged : loopback.Tagged := ⟨_, rfl⟩
  refine .of_iff ?_ ((decides_bind answers.listener tagged).mapError.bind
    ((decides_listen answers.listener).mapError.bind
      (decides_getSockName answers.listener).mapError))
  have families : loopback.family ≠ .none ∧ loopback.family ≠ .unspecified := by decide
  unfold Listens
  tauto

theorem decides_connecting :
    Decides (connecting answers answers.writer
      (fromSockAddr false {} answers.name).1) (Connects answers) () := by
  have tagged := tagged_fromSockAddr false {} answers.name
  refine .of_iff ?_ ((decides_connect answers.writer tagged).mapError.bind
    (decides_setBlocking answers.writer answers.firstFlags).mapError)
  rw [family_fromSockAddr]
  unfold Connects
  tauto

theorem decides_finishing (pair : Fusion.SocketPair) :
    Decides (finishing answers pair)
      ((pair.writer ≠ invalidSocket ∧ Switches answers.writerFlags) ∧
        pair.reader ≠ invalidSocket ∧ Switches answers.readerFlags) () :=
  (decides_setBlocking _ _).mapError.bind (decides_setBlocking _ _).mapError

theorem decides_createSocket (result : Socket) :
    Decides (createSocket answers result) (result ≠ 0) result := .check

theorem decides_accept :
    Decides (accept answers answers.listener)
      (answers.listener ≠ invalidSocket ∧ answers.accepted ≠ 0) answers.accepted :=
  (decides_checkSocket _).bind .check

end Stages

/-! ## Descriptors -/

section Descriptors

variable {sock other : Socket} {pair : Fusion.SocketPair} {read : Socket} {results : List Socket}

theorem mem_descriptor : other ∈ descriptor sock ↔ other = sock ∧ sock ≠ invalidSocket := by
  by_cases valid : sock = invalidSocket
  · simp [descriptor, valid]
  · simp [descriptor, valid]

theorem count_descriptor (valid : other ≠ invalidSocket) :
    (descriptor sock).count other = 1 ↔ other = sock := by
  by_cases same : other = sock
  · subst same
    simp [descriptor, valid]
  · have absent : other ∉ descriptor sock := fun member => same (mem_descriptor.mp member).1
    simp [List.count_eq_zero_of_not_mem absent, same]

theorem mem_flatMap_descriptor :
    sock ∈ results.flatMap descriptor ↔ sock ∈ results ∧ sock ≠ invalidSocket := by
  rw [List.mem_flatMap]
  constructor
  · rintro ⟨result, member, opened⟩
    obtain ⟨rfl, valid⟩ := mem_descriptor.mp opened
    exact ⟨member, valid⟩
  · rintro ⟨member, valid⟩
    exact ⟨sock, member, mem_descriptor.mpr ⟨rfl, valid⟩⟩

theorem clean_leave_error_iff {failure : Failure} :
    Clean (leave pair read results (.error failure)) ↔
      pair.reader = invalidSocket ∧ pair.writer = invalidSocket ∧
        ∀ sock ∈ results, sock ≠ invalidSocket → sock = read := by
  refine and_congr_right fun _ => and_congr_right fun _ => forall_congr' fun sock => ?_
  rw [leave, mem_flatMap_descriptor, and_imp]
  exact forall₂_congr fun _ valid => count_descriptor valid

theorem clean_leave_ok_iff :
    Clean (leave pair read results (.ok ())) ↔
      (pair.reader ≠ invalidSocket ∧ pair.reader ≠ read) ∧
        (pair.writer ≠ invalidSocket ∧ pair.writer ≠ read) ∧
        ∀ sock ∈ results, sock ≠ invalidSocket → sock ≠ pair.reader → sock ≠ pair.writer →
          sock = read := by
  have open_iff : ∀ stored : Socket,
      stored ≠ invalidSocket ∧ stored ∉ descriptor read ↔
        stored ≠ invalidSocket ∧ stored ≠ read := by
    intro stored
    refine and_congr_right fun valid => not_congr ?_
    rw [mem_descriptor]
    exact ⟨fun same => same.1, fun same => ⟨same, same ▸ valid⟩⟩
  refine and_congr (open_iff _) (and_congr (open_iff _) (forall_congr' fun sock => ?_))
  rw [leave, mem_flatMap_descriptor, and_imp]
  exact forall₂_congr fun _ valid => forall₂_congr fun _ _ => count_descriptor valid

end Descriptors

section Clean

variable {answers : Answers} {pair : Fusion.SocketPair}

theorem clean_startReader_iff (listener_valid : answers.listener ≠ invalidSocket)
    (writer_valid : answers.writer ≠ invalidSocket) :
    Clean (startReader answers pair answers.listener answers.writer) ↔
      answers.accepted ≠ 0 ∧ Finishes answers := by
  have writer_new := answers.writer_new writer_valid
  by_cases zero : answers.accepted = 0
  · obtain ⟨failure, refused⟩ := decides_accept.refuses fun accepted => accepted.2 zero
    simp only [startReader, refused]
    rw [clean_leave_error_iff]
    simp [zero, writer_valid, writer_new]
  · have accepted := decides_accept.accepts ⟨listener_valid, zero⟩
    simp only [startReader, accepted]
    have decides := @decides_finishing answers
      { pair with reader := answers.accepted, writer := answers.writer }
    by_cases finishes : Finishes answers
    · rw [decides.accepts ⟨⟨writer_valid, finishes.2.1⟩, finishes.1, finishes.2.2⟩,
        clean_leave_ok_iff]
      have accepted_new := answers.accepted_new finishes.1
      simp [zero, finishes, finishes.1, writer_valid, writer_new, accepted_new]
    · obtain ⟨failure, refused⟩ := decides.refuses fun holds =>
        finishes ⟨holds.2.1, holds.1.2, holds.2.2⟩
      rw [refused, clean_leave_error_iff]
      simp [finishes, writer_valid]

theorem clean_startWriter_iff (unheld : pair.reader = invalidSocket)
    (listener_valid : answers.listener ≠ invalidSocket) :
    Clean (startWriter answers pair answers.listener (fromSockAddr false {} answers.name).1) ↔
      pair.writer = invalidSocket ∧ answers.writer = invalidSocket ∨
        answers.writer ≠ 0 ∧ Connects answers ∧ answers.accepted ≠ 0 ∧ Finishes answers := by
  by_cases zero : answers.writer = 0
  · obtain ⟨failure, refused⟩ :=
      (@decides_createSocket answers answers.writer).refuses (not_not.mpr zero)
    have valid : (0 : Socket) ≠ invalidSocket := by decide
    have new := answers.writer_new (zero ▸ valid)
    rw [zero] at new
    simp only [startWriter, refused]
    rw [clean_leave_error_iff]
    simp [zero, valid, new]
  · have created := (@decides_createSocket answers answers.writer).accepts zero
    simp only [startWriter, created]
    by_cases connects : Connects answers
    · rw [decides_connecting.accepts connects]
      simp only [clean_startReader_iff listener_valid connects.1]
      simp [zero, connects, connects.1]
    · obtain ⟨failure, refused⟩ := decides_connecting.refuses connects
      rw [refused]
      simp only [clean_leave_error_iff]
      -- A writer that was created stays open.
      have leaked : (∀ sock ∈ [answers.listener, answers.writer], sock ≠ invalidSocket →
          sock = answers.listener) ↔ answers.writer = invalidSocket := by
        constructor
        · intro only
          by_contra valid
          exact answers.writer_new valid (only answers.writer (by simp) valid)
        · intro missing
          simp [missing]
      rw [leaked]
      simp [unheld, connects]

/-- A start leaks nothing exactly on the tidy answers: it fails before there is a writer, with no
writer stored, or everything succeeds, and no descriptor is 0. -/
theorem clean_start_iff (answers : Answers) (pair : Fusion.SocketPair) :
    Clean (start answers pair) ↔ Tidy answers pair := by
  unfold start Tidy
  by_cases held : pair.reader ≠ invalidSocket
  · simp [held, Clean]
  · rw [if_neg held, if_neg held]
    have unheld := not_not.mp held
    by_cases zero : answers.listener = 0
    · obtain ⟨failure, refused⟩ :=
        (@decides_createSocket answers answers.listener).refuses (not_not.mpr zero)
      have valid : (0 : Socket) ≠ invalidSocket := by decide
      simp only [refused, clean_leave_error_iff]
      simp [zero, valid]
    · have created := (@decides_createSocket answers answers.listener).accepts zero
      simp only [created]
      by_cases listens : Listens answers
      · simp only [decides_listening.accepts listens, clean_startWriter_iff unheld listens.1]
        simp [zero, listens]
      · obtain ⟨failure, refused⟩ := decides_listening.refuses listens
        simp only [refused, clean_leave_error_iff]
        simp [zero, listens, unheld]

end Clean

/-- The answers of a platform on which everything but `connect` succeeds. -/
def refusedConnect : Answers where
  functions := loopbackFunctions
  listener := 3
  bind := 0
  listen := 0
  getsockname := 0
  name := [2, 0, 31, 144, 127, 0, 0, 1]
  writer := 4
  connect := -1
  firstFlags := (0, 0)
  accepted := -1
  writerFlags := (0, 0)
  readerFlags := (0, 0)
  errno := 111
  writer_new := by decide
  accepted_new := by decide

/-- The writer's descriptor is neither stored nor closed. -/
theorem start_leaks_writer :
    ∃ failure, start refusedConnect {} =
        { pair := {}, result := .error failure, opened := [3, 4], closed := [3] } ∧
      ¬Clean (start refusedConnect {}) := by
  refine ⟨_, rfl, fun clean => ?_⟩
  have once := clean.2.2 4 (by decide)
  revert once
  decide

end SocketPair

end Fusion.Network
