import Fusion.Library.Runs

/-!
# The console logger

Records are formatted into a buffer, which is written out when it is full or a record is urgent.
A full buffer whose string has more room than the buffer's nominal size is resized to that size
after the flush, to give the room back.  The string is empty then, so it is filled with zeros, which
are taken for buffered text from there on.
-/

namespace Fusion

/-! ## Console and records -/

/-- The stream that the logger writes to. -/
inductive Console.Target
  | none
  | stdin
  | stdout
  | stderr
deriving DecidableEq, Repr

/-- What `Console::Write` puts on the console. -/
def Console.write (target : Console.Target) (text : List Char) : List Char :=
  match target with
  | .stderr => text
  | .stdout => text
  | .none => []
  | .stdin => []

/-- The targets that are written to. -/
def Console.Target.Shown (target : Console.Target) : Prop := target = .stdout ∨ target = .stderr

inductive LogLevel
  | ignored
  | trace
  | debug
  | info
  | warning
  | error
  | fatal
deriving DecidableEq, Repr

def LogLevel.number : LogLevel → Nat
  | .ignored => 0
  | .trace => 1
  | .debug => 2
  | .info => 3
  | .warning => 4
  | .error => 5
  | .fatal => 6

def LogLevel.toText : LogLevel → List Char
  | .ignored => "Ignored".toList
  | .trace => "Trace".toList
  | .debug => "Debug".toList
  | .info => "Info".toList
  | .warning => "Warning".toList
  | .error => "Error".toList
  | .fatal => "Fatal".toList

structure LogLocation where
  filename : List Char := []
  shortFilename : List Char := []
  lineno : Nat := 0

/-- What a call of `Log` is given. -/
structure LogRecord where
  time : Int := 0
  logger : List Char := []
  threadId : Nat := 0
  level : LogLevel := .ignored
  location : LogLocation := {}
  message : List Char := []

namespace ConsoleLogger

/-- The options of the logger. -/
structure Params where
  target : Console.Target := .stdout
  bufferSize : Nat := 4 * 1024
  colors : Bool := false
  timestamps : Bool := false
  json : Bool := false

/-- The logger's formatter, which appends a text, and the platform's `strftime` of a time. -/
structure Formats where
  format : LogRecord → List Char
  strftime : Int → List Char

/-! ## Strings with a capacity -/

/-- `std::string`: its characters and the room allocated for them. -/
structure Text where
  chars : List Char
  capacity : Nat
  fits : chars.length ≤ capacity

namespace Text

/-- The empty string may have room of its own. -/
def empty (room : Nat) : Text := ⟨[], room, Nat.zero_le room⟩

/-- The capacity once there is room for the size; the platform may allocate more than is needed. -/
def grow (text : Text) (size room : Nat) : Nat :=
  if size ≤ text.capacity then text.capacity else max size room

theorem capacity_le_grow (text : Text) (size room : Nat) : text.capacity ≤ text.grow size room := by
  unfold grow
  split <;> omega

theorem size_le_grow (text : Text) (size room : Nat) : size ≤ text.grow size room := by
  unfold grow
  split <;> omega

def reserve (text : Text) (size room : Nat) : Text where
  chars := text.chars
  capacity := text.grow size room
  fits := Nat.le_trans text.fits (text.capacity_le_grow size room)

def append (text : Text) (more : List Char) (room : Nat) : Text where
  chars := text.chars ++ more
  capacity := text.grow (text.chars ++ more).length room
  fits := text.size_le_grow _ room

def clear (text : Text) : Text := ⟨[], text.capacity, Nat.zero_le _⟩

/-- The characters cut to the size, or filled up with zeros. -/
def resized (chars : List Char) (size : Nat) : List Char :=
  chars.take size ++ List.replicate (size - chars.length) (Char.ofNat 0)

def resize (text : Text) (size room : Nat) : Text where
  chars := resized text.chars size
  capacity := text.grow (resized text.chars size).length room
  fits := text.size_le_grow _ room

/-- The platform may keep any room that the text had. -/
def shrinkToFit (text : Text) (room : Nat) : Text where
  chars := text.chars
  capacity := max text.chars.length (min text.capacity room)
  fits := Nat.le_max_left _ _

section Chars

variable (text : Text) (more : List Char) (size room : Nat)

@[simp] theorem chars_reserve : (text.reserve size room).chars = text.chars := rfl

@[simp] theorem chars_append : (text.append more room).chars = text.chars ++ more := rfl

@[simp] theorem chars_clear : text.clear.chars = [] := rfl

@[simp] theorem capacity_clear : text.clear.capacity = text.capacity := rfl

@[simp] theorem chars_shrinkToFit : (text.shrinkToFit room).chars = text.chars := rfl

@[simp] theorem chars_resize_clear :
    (text.clear.resize size room).chars = List.replicate size (Char.ofNat 0) := by
  simp [resize, resized]

end Chars

end Text

/-! ## Records as text -/

/-- `Color::Reset`. -/
def resetColor : List Char := "\x1b[m".toList

def levelColor : LogLevel → List Char
  | .fatal => "\x1b[35m".toList
  | .error => "\x1b[31m".toList
  | .warning => "\x1b[33m".toList
  | .trace => "\x1b[36m".toList
  | .ignored => []
  | .debug => []
  | .info => []

/-- The text between brackets. -/
def bracketed (text : List Char) : List Char := '[' :: text ++ [']']

/-- What `LogText` appends. -/
def recordText (params : Params) (formats : Formats) (record : LogRecord) : List Char :=
  (if params.colors then resetColor ++ levelColor record.level else []) ++
    (if params.timestamps then bracketed (formats.strftime record.time) else []) ++
    (if record.logger ≠ [] then bracketed record.logger else []) ++
    bracketed record.level.toText ++
    (if record.location.filename ≠ [] then
      bracketed (record.location.shortFilename ++ ':' :: (toString record.location.lineno).toList)
    else []) ++
    ' ' :: record.message ++ ['\n'] ++
    (if params.colors then resetColor else [])

/-- What `Log` appends. -/
def formatted (params : Params) (formats : Formats) (record : LogRecord) : List Char :=
  if params.json then formats.format record else recordText params formats record

def logJson (formats : Formats) (buffer : Text) (record : LogRecord) (room : Nat) : Text :=
  buffer.append (formats.format record) room

def logText (params : Params) (formats : Formats) (buffer : Text) (record : LogRecord)
    (room : Nat) : Text :=
  (buffer.reserve (64 + record.message.length) room).append (recordText params formats record) room

/-! ## The logger -/

/-- What was written to the target, and `m_buffer`. -/
structure State where
  written : List Char := []
  buffer : Text
  destroyed : Bool := false

/-- The constructor. -/
def create (params : Params) (room : Nat) : State :=
  { buffer := (Text.empty room).reserve params.bufferSize room }

/-- The destructor. -/
def destroy (params : Params) (state : State) : State :=
  { written := state.written ++
      (if state.buffer.chars ≠ [] then Console.write params.target state.buffer.chars else []) ++
      (if params.colors then Console.write params.target "\x1b[0m".toList else [])
    buffer := if state.buffer.chars ≠ [] then state.buffer.clear else state.buffer
    destroyed := true }

def flushBuffer (params : Params) (state : State) (level : LogLevel) (room : Nat) : State :=
  let capacity := params.bufferSize ≤ state.buffer.chars.length
  let flushed :=
    if LogLevel.warning.number ≤ level.number ∨ capacity then
      { state with
        written := state.written ++ Console.write params.target state.buffer.chars
        buffer := state.buffer.clear }
    else state
  if capacity then
    if params.bufferSize < flushed.buffer.capacity then
      { flushed with
        buffer := (flushed.buffer.resize params.bufferSize room).shrinkToFit room }
    else flushed
  else flushed

/-- `Log` up to its flush. -/
def logRecord (params : Params) (formats : Formats) (state : State) (record : LogRecord)
    (room : Nat) : State :=
  { state with
    buffer :=
      if params.json then logJson formats state.buffer record room
      else logText params formats state.buffer record room }

def log (params : Params) (formats : Formats) (state : State) (record : LogRecord)
    (room kept : Nat) : State :=
  flushBuffer params (logRecord params formats state record room) record.level kept

/-- The room that the string gets is the platform's choice: `room` when it grows, `kept` when it is
asked to shrink. -/
inductive Call
  | log (record : LogRecord) (room kept : Nat)
  | flushBuffer (level : LogLevel) (kept : Nat)
  | destroy

/-- Nothing is called after the destructor. -/
def step (params : Params) (formats : Formats) (state : State) (call : Call) : Option State :=
  if state.destroyed then none
  else
    match call with
    | .log record room kept => some (log params formats state record room kept)
    | .flushBuffer level kept => some (flushBuffer params state level kept)
    | .destroy => some (destroy params state)

/-! ## The stream -/

/-- What is on the console followed by what is buffered. -/
def State.stream (state : State) : List Char := state.written ++ state.buffer.chars

/-- What a call adds to the stream if nothing is lost or made up. -/
def Call.emitted (params : Params) (formats : Formats) : Call → List Char
  | .log record _ _ => formatted params formats record
  | .flushBuffer _ _ => []
  | .destroy => if params.colors then "\x1b[0m".toList else []

/-- The console and the buffer hold what the calls emitted; after the destructor the console holds
all of it. -/
def Streamed (params : Params) (formats : Formats) (front : List Call) (state : State) : Prop :=
  state.stream = front.flatMap (Call.emitted params formats) ∧
    (state.destroyed = true → state.buffer.chars = [])

/-- The zeros that a full buffer is filled with. -/
def padding (params : Params) (pending : Text) : Nat :=
  if params.bufferSize ≤ pending.chars.length ∧ params.bufferSize < pending.capacity then
    params.bufferSize
  else 0

/-- The buffer is to be written. -/
def Due (params : Params) (pending : Text) (level : LogLevel) : Prop :=
  LogLevel.warning.number ≤ level.number ∨ params.bufferSize ≤ pending.chars.length

/-- A flush neither fills the buffer nor loses it. -/
def FlushFaithful (params : Params) (pending : Text) (level : LogLevel) : Prop :=
  Due params pending level →
    (params.target.Shown → padding params pending = 0) ∧
      (¬params.target.Shown →
        pending.chars = List.replicate (padding params pending) (Char.ofNat 0))

/-- The call shows what it is given. -/
def Faithful (params : Params) (formats : Formats) (state : State) (call : Call) : Prop :=
  match call with
  | .log record room _ =>
    FlushFaithful params (logRecord params formats state record room).buffer record.level
  | .flushBuffer level _ => FlushFaithful params state.buffer level
  | .destroy => params.target.Shown ∨ state.buffer.chars = [] ∧ params.colors = false

section Steps

variable {params : Params} {formats : Formats} {state after : State} {call : Call}

theorem write_of_shown (shown : params.target.Shown) (text : List Char) :
    Console.write params.target text = text := by
  rcases shown with target_eq | target_eq
  · rw [target_eq, Console.write]
  · rw [target_eq, Console.write]

theorem write_of_not_shown (hidden : ¬params.target.Shown) (text : List Char) :
    Console.write params.target text = [] := by
  cases target_eq : params.target with
  | none => rfl
  | stdin => rfl
  | stdout => exact absurd (.inl target_eq) hidden
  | stderr => exact absurd (.inr target_eq) hidden

theorem stream_logRecord (record : LogRecord) (room : Nat) :
    (logRecord params formats state record room).stream =
      state.stream ++ formatted params formats record := by
  unfold logRecord formatted State.stream
  cases params.json with
  | true => simp [logJson]
  | false => simp [logText]

theorem flushBuffer_of_due {level : LogLevel} {kept : Nat} (due : Due params state.buffer level) :
    (flushBuffer params state level kept).written =
        state.written ++ Console.write params.target state.buffer.chars ∧
      (flushBuffer params state level kept).buffer.chars =
        List.replicate (padding params state.buffer) (Char.ofNat 0) := by
  unfold Due at due
  unfold flushBuffer padding
  simp only [if_pos due]
  by_cases full : params.bufferSize ≤ state.buffer.chars.length
  · by_cases roomy : params.bufferSize < state.buffer.capacity
    · simp [full, roomy]
    · simp [full, roomy]
  · simp [full]

variable {kept : Nat} {level : LogLevel}

theorem flushBuffer_of_not_due (idle : ¬Due params state.buffer level) :
    flushBuffer params state level kept = state := by
  have not_full : ¬params.bufferSize ≤ state.buffer.chars.length := fun full => idle (.inr full)
  unfold Due at idle
  unfold flushBuffer
  rw [if_neg not_full, if_neg idle]

theorem stream_flushBuffer_iff :
    (flushBuffer params state level kept).stream = state.stream ↔
      FlushFaithful params state.buffer level := by
  unfold FlushFaithful
  by_cases due : Due params state.buffer level
  · obtain ⟨written, buffered⟩ := @flushBuffer_of_due _ _ _ kept due
    simp only [State.stream, written, buffered, List.append_assoc, List.append_cancel_left_eq]
    by_cases shown : params.target.Shown
    · simp [write_of_shown shown, due, shown]
    · simp [write_of_not_shown shown, due, shown, eq_comm]
  · simp [flushBuffer_of_not_due due, due]

theorem stream_destroy_iff :
    (destroy params state).stream = state.stream ++ Call.destroy.emitted params formats ↔
      Faithful params formats state .destroy := by
  unfold Faithful Call.emitted State.stream destroy
  have visible : "\x1b[0m".toList ≠ [] := by decide
  generalize "\x1b[0m".toList = reset at visible ⊢
  by_cases shown : params.target.Shown
  · by_cases rest : state.buffer.chars = []
    · simp [rest, write_of_shown shown, shown]
    · simp [rest, write_of_shown shown, shown]
  · by_cases rest : state.buffer.chars = []
    · simp [rest, write_of_not_shown shown, shown, visible]
    · simp [rest, write_of_not_shown shown, shown]

theorem chars_destroy : (destroy params state).buffer.chars = [] := by
  unfold destroy
  by_cases rest : state.buffer.chars = []
  · simp [rest]
  · simp [rest]

theorem destroyed_flushBuffer :
    (flushBuffer params state level kept).destroyed = state.destroyed := by
  unfold flushBuffer
  dsimp only
  split_ifs <;> rfl

section

variable (step_eq : step params formats state call = some after)
include step_eq

theorem step_cases :
    state.destroyed = false ∧
      ((∃ record room kept, call = .log record room kept ∧
          after = log params formats state record room kept) ∨
        (∃ level kept, call = .flushBuffer level kept ∧
          after = flushBuffer params state level kept) ∨
        call = .destroy ∧ after = destroy params state) := by
  unfold step at step_eq
  cases alive : state.destroyed with
  | true => simp [alive] at step_eq
  | false =>
    refine ⟨rfl, ?_⟩
    simp only [alive, Bool.false_eq_true, if_false] at step_eq
    cases call with
    | log record room kept =>
      exact .inl ⟨record, room, kept, rfl, (Option.some.inj step_eq).symm⟩
    | flushBuffer level kept =>
      exact .inr (.inl ⟨level, kept, rfl, (Option.some.inj step_eq).symm⟩)
    | destroy => exact .inr (.inr ⟨rfl, (Option.some.inj step_eq).symm⟩)

theorem stream_step_iff :
    after.stream = state.stream ++ call.emitted params formats ↔
      Faithful params formats state call := by
  obtain ⟨-, ⟨record, room, kept, rfl, rfl⟩ | ⟨level, kept, rfl, rfl⟩ | ⟨rfl, rfl⟩⟩ :=
    step_cases step_eq
  · rw [Call.emitted, ← stream_logRecord record room]
    exact stream_flushBuffer_iff
  · rw [Call.emitted, List.append_nil]
    exact stream_flushBuffer_iff
  · exact stream_destroy_iff

theorem chars_of_destroyed (destroyed : after.destroyed = true) : after.buffer.chars = [] := by
  obtain ⟨alive, ⟨record, room, kept, rfl, rfl⟩ | ⟨level, kept, rfl, rfl⟩ | ⟨rfl, rfl⟩⟩ :=
    step_cases step_eq
  · simp [log, destroyed_flushBuffer, logRecord, alive] at destroyed
  · simp [destroyed_flushBuffer, alive] at destroyed
  · exact chars_destroy

end

/-- At every point of a history the console and the buffer hold what was logged and nothing else,
and after the destructor all of it and the colour reset are on the console, exactly if every call is
faithful. -/
theorem streamed_iff_faithful (params : Params) (formats : Formats) (room : Nat)
    (calls : List Call) :
    Runs.EveryState (step params formats) (create params room) (Streamed params formats) calls ↔
      Runs.EveryStep (step params formats) (create params room)
        (fun _ before call _ => Faithful params formats before call) calls := by
  have start : Streamed params formats [] (create params room) := ⟨rfl, fun _ => rfl⟩
  have exact_step : ∀ front before call after, Streamed params formats front before →
      step params formats before call = some after →
        (Streamed params formats (front ++ [call]) after ↔
          Faithful params formats before call) := by
    rintro front before call after ⟨streamed, -⟩ step_eq
    have emitted : (front ++ [call]).flatMap (Call.emitted params formats) =
        before.stream ++ call.emitted params formats := by
      rw [streamed, List.flatMap_append, List.flatMap_singleton]
    rw [Streamed, emitted, stream_step_iff step_eq]
    exact and_iff_left (chars_of_destroyed step_eq)
  rw [Runs.everyState_iff_everyStep start]
  refine Runs.everyStep_iff start exact_step ?_ calls
  intro front before call after streamed step_eq faithful
  exact (exact_step front before call after streamed step_eq).mpr faithful

end Steps

/-- A buffer for four characters, whose string has room for fifteen at first. -/
def smallParams : Params := { bufferSize := 4 }

def smallRecord : LogRecord := { level := .info, message := "ab".toList }

def emptyFormats : Formats := { format := fun _ => [], strftime := fun _ => [] }

/-- The record is written when it is logged, and four zeros when the logger is destroyed. -/
theorem log_adds_zeros :
    ∃ logged final, step smallParams emptyFormats (create smallParams 15)
        (.log smallRecord 66 15) = some logged ∧
      logged.written = "[Info] ab\n".toList ∧
      logged.written = formatted smallParams emptyFormats smallRecord ∧
      logged.buffer.chars = List.replicate 4 (Char.ofNat 0) ∧
      step smallParams emptyFormats logged .destroy = some final ∧
      final.written = "[Info] ab\n".toList ++ List.replicate 4 (Char.ofNat 0) := by
  refine ⟨_, _, rfl, by decide, by decide, by decide, rfl, by decide⟩

end ConsoleLogger

end Fusion
