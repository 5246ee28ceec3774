import Fusion.FixedStringBuilder

/-!
# Summaries of failures

`Failure::Summary` lets a `FixedStringBuilder` write the text of its error into the spare memory of
an empty string, and then resizes the string to what was written.  A string that grows is filled
with zeros, so that of the text only the length is left.
-/

namespace Fusion
namespace Summary

/-! ## The texts -/

def errorCodeInvalid : Int32 := Int32.minValue

def errorCodeSuccess : Int32 := 0

/-- The class `Error`, with its code for the platform if there is one. -/
structure Error where
  platformCode : Int32 := errorCodeInvalid
  error : Int32
  errstr : List UInt8
deriving DecidableEq, Repr

/-- The class `Failure`. -/
structure Failure where
  error : Error
  message : List UInt8
deriving DecidableEq, Repr

/-- The text that `strerror` has for each code. -/
abbrev Messages := Int32 → List UInt8

/-- The bytes of a text of one-byte characters. -/
def characters (text : String) : List UInt8 := text.toList.map fun c => UInt8.ofNat c.toNat

/-- The text of an error, where there is room for it. -/
def errorText (messages : Messages) (error : Error) : List UInt8 :=
  if error.platformCode = errorCodeInvalid then error.errstr
  else
    characters "[" ++ error.errstr ++ characters "] " ++ messages error.platformCode ++
      characters (" (" ++ toString error.platformCode.toInt ++ ")")

/-- The summary that is wanted. -/
def expected (messages : Messages) (failure : Failure) : List UInt8 :=
  characters "[" ++ errorText messages failure.error ++ characters "] " ++ failure.message

end Summary

/-! ## The builder -/

namespace FixedStringBuilder

/-- `Offset`, for characters that others have written; `none` is a write outside the buffer or an
assertion that fails. -/
def offsetBy (asserts : Bool) (size : Nat) (builder : FixedStringBuilder) :
    Option FixedStringBuilder := do
  let size := min builder.remaining size
  guard (asserts = true → builder.offset + size < builder.capacity)
  let terminated ← Memory.store builder.buffer (builder.offset + size) [0]
  return { builder with buffer := terminated, offset := builder.offset + size }

/-- `fmt::format_to_n` at `Head()`, and `Offset` over the size of the whole text. -/
def format (asserts : Bool) (text : List UInt8) (builder : FixedStringBuilder) :
    Option FixedStringBuilder := do
  let written ← Memory.store builder.buffer builder.head (text.take builder.remaining)
  offsetBy asserts text.length { builder with buffer := written }

end FixedStringBuilder

namespace Summary

/-- `ToString` of a code of the platform into the memory from a place on: the memory afterwards and
the size of the text.  What `strerror_r` returns is copied if it is not there already. -/
def toStringCode (messages : Messages) (code : Int32) (memory : List UInt8) (start length : Nat) :
    Option (List UInt8 × Nat) := do
  let cleared ← Memory.store memory start [0]
  if length = 0 ∨ messages code = [] then
    return (cleared, 0)
  else
    let count := min (length - 1) (messages code).length
    let copied ← Memory.store cleared start ((messages code).take count)
    let ended ← Memory.store copied (start + count) [0]
    return (ended, count)

/-- The text of the platform in a builder, and `Offset` over its size. -/
def describe (asserts : Bool) (messages : Messages) (code : Int32)
    (builder : FixedStringBuilder) : Option FixedStringBuilder := do
  let (written, size) ←
    toStringCode messages code builder.buffer builder.head builder.remaining
  FixedStringBuilder.offsetBy asserts size { builder with buffer := written }

/-- What `ToString` writes of an error that has a code for the platform. -/
def formatError (asserts : Bool) (messages : Messages) (error : Error)
    (builder : FixedStringBuilder) : Option FixedStringBuilder := do
  let named ← builder.format asserts (characters "[" ++ error.errstr ++ characters "] ")
  let described ← describe asserts messages error.platformCode named
  described.format asserts (characters (" (" ++ toString error.platformCode.toInt ++ ")"))

/-- `ToString` of an error into the memory from a place on: the memory afterwards and the text,
which is not in the memory if there is no code for the platform. -/
def toStringError (asserts : Bool) (messages : Messages) (error : Error) (memory : List UInt8)
    (start length : Nat) : Option (List UInt8 × List UInt8) :=
  if 0 < length ∧ error.platformCode ≠ errorCodeInvalid then do
    let builder := FixedStringBuilder.construct ((memory.drop start).take length)
    let formatted ← formatError asserts messages error builder
    return (Memory.copyAt memory start formatted.buffer, formatted.view)
  else return (memory, error.errstr)

/-! ## The string -/

/-- A `std::string`: the memory at `data()`, as much as its capacity, and its size. -/
structure Str where
  memory : List UInt8
  size : Nat

namespace Str

def chars (str : Str) : List UInt8 := str.memory.take str.size

/-- `resize`, which fills what it adds with zeros. -/
def resize (str : Str) (size : Nat) : Str where
  memory := Memory.copyAt str.memory str.size (List.replicate (size - str.size) 0)
  size := size

def append (str : Str) (more : List UInt8) : Str where
  memory := Memory.copyAt str.memory str.size more
  size := str.size + more.length

end Str

/-- The part of `Summary` that is about the error; the string is resized to the builder's size. -/
def summarize (asserts : Bool) (messages : Messages) (error : Error) (str : Str) : Option Str := do
  let builder := FixedStringBuilder.construct str.memory
  let opened ← builder.appendChar 91
  let (written, text) ←
    toStringError asserts messages error opened.buffer opened.head opened.remaining
  let told ← FixedStringBuilder.offsetBy asserts text.length { opened with buffer := written }
  let closed ← told.appendView asserts (characters "] ")
  return Str.resize { str with memory := closed.buffer } closed.offset

/-- `Failure::Summary`; the memory is that of the empty string after `reserve(256)`. -/
def summary (asserts : Bool) (messages : Messages) (memory : List UInt8) (failure : Failure) :
    Option (List UInt8) := do
  let str : Str := { memory, size := 0 }
  let shown ←
    if failure.error.error ≠ errorCodeSuccess then summarize asserts messages failure.error str
    else some str
  return (if failure.message = [] then shown else shown.append failure.message).chars

end Summary

/-! ## What the builder has -/

variable {text : List UInt8}

namespace FixedStringBuilder

variable {builder : FixedStringBuilder} {asserts : Bool}

/-- `Offset` over what was written ends it with a NUL. -/
theorem Valid.offsetBy_eq (valid : builder.Valid) {written : List UInt8} {size : Nat}
    (same_length : written.length = builder.buffer.length)
    (room : builder.offset + size < builder.capacity) :
    offsetBy asserts size { builder with buffer := written } =
      some { builder with
        buffer := written.set (builder.offset + size) 0
        offset := builder.offset + size } := by
  have remaining_eq := valid.remaining_eq
  have capacity_eq := valid.capacity_eq
  have size_eq : min builder.remaining size = size := Nat.min_eq_right (by omega)
  have stored : Memory.store written (builder.offset + size) [0] =
      some (written.set (builder.offset + size) 0) :=
    Memory.store_singleton_eq_some_iff.mpr ⟨by omega, rfl⟩
  rw [offsetBy]
  change (do
    guard (asserts = true → builder.offset + min builder.remaining size < builder.capacity)
    let terminated ← Memory.store written (builder.offset + min builder.remaining size) [0]
    return { builder with
      buffer := terminated
      offset := builder.offset + min builder.remaining size }) = _
  rw [size_eq]
  refine Option.bind_eq_some_iff.mpr ⟨(), if_pos fun _ => room, ?_⟩
  exact Option.bind_eq_some_iff.mpr ⟨_, stored, rfl⟩

theorem Valid.offsetBy_valid (valid : builder.Valid) {written : List UInt8} {size : Nat}
    (same_length : written.length = builder.buffer.length)
    (room : builder.offset + size < builder.capacity) :
    ∃ after, offsetBy asserts size { builder with buffer := written } = some after ∧
      after.Valid ∧ after.offset = builder.offset + size ∧ after.capacity = builder.capacity := by
  refine ⟨_, valid.offsetBy_eq same_length room, ⟨?_, ?_, Nat.le_of_lt room⟩, rfl, rfl⟩
  · rw [List.length_set, same_length]
    exact valid.bounded
  · rw [List.length_set, same_length]
    exact valid.capacity_eq

theorem Valid.format_eq (valid : builder.Valid)
    (room : builder.offset + text.length < builder.capacity) :
    builder.format asserts text = some (builder.extended text) := by
  have remaining_eq := valid.remaining_eq
  have capacity_eq := valid.capacity_eq
  have fits : builder.offset + text.length ≤ builder.buffer.length := by omega
  rw [format, List.take_of_length_le (by omega), head, Memory.store_eq_some fits]
  exact valid.offsetBy_eq (Memory.length_copyAt fits) room

/-- The builder has this text and room for as many characters as its capacity. -/
structure Holds (builder : FixedStringBuilder) (capacity : Nat) (text : List UInt8) : Prop where
  valid : builder.Valid
  capacity_eq : builder.capacity = capacity
  view_eq : builder.view = text

theorem holds_construct {buffer : List UInt8} {capacity : Nat}
    (length_eq : buffer.length = capacity + 1) (bounded : buffer.length < 2 ^ 64) :
    (construct buffer).Holds capacity [] := by
  have nonempty : buffer ≠ [] := List.ne_nil_of_length_eq_add_one length_eq
  have valid := valid_construct nonempty bounded
  have capacity_eq := valid.capacity_eq
  exact ⟨valid, Nat.add_right_cancel (capacity_eq.trans length_eq), List.take_zero⟩

namespace Holds

variable {capacity : Nat} {text str : List UInt8}

theorem offset_eq (holds : builder.Holds capacity text) : builder.offset = text.length := by
  rw [← holds.view_eq, holds.valid.length_view]

theorem extended (holds : builder.Holds capacity text)
    (room : text.length + str.length < capacity) :
    (builder.extended str).Holds capacity (text ++ str) := by
  have offset_eq := holds.offset_eq
  have capacity_eq := holds.capacity_eq
  have short : str.length ≤ builder.remaining := by
    rw [holds.valid.remaining_eq]
    omega
  refine ⟨holds.valid.extended short, capacity_eq, ?_⟩
  rw [(holds.valid.built_extended short).view_eq, holds.view_eq]

theorem format (holds : builder.Holds capacity text)
    (room : text.length + str.length < capacity) :
    ∃ after, builder.format asserts str = some after ∧ after.Holds capacity (text ++ str) := by
  refine ⟨_, holds.valid.format_eq ?_, holds.extended room⟩
  rw [holds.offset_eq, holds.capacity_eq]
  exact room

end Holds
end FixedStringBuilder

namespace Summary

variable {asserts : Bool} {messages : Messages} {memory : List UInt8}

theorem copyAt_set {start : Nat} (nonempty : text ≠ []) (c : UInt8) :
    Memory.copyAt (memory.set start c) start text = Memory.copyAt memory start text := by
  have positive := List.length_pos_iff.mpr nonempty
  rw [Memory.copyAt, Memory.copyAt, List.take_set_of_le (Nat.le_refl start),
    List.drop_set_of_lt (by omega)]

/-- The platform's text is written whole if there is room for it and a NUL. -/
theorem toStringCode_eq {code : Int32} {memory : List UInt8} {start length : Nat}
    (inside : start + length ≤ memory.length) (room : (messages code).length < length) :
    ∃ written, toStringCode messages code memory start length =
        some (written, (messages code).length) ∧
      written.length = memory.length ∧
      written.set (start + (messages code).length) 0 =
        (Memory.copyAt memory start (messages code)).set (start + (messages code).length) 0 := by
  have cleared : Memory.store memory start [0] = some (memory.set start 0) :=
    Memory.store_singleton_eq_some_iff.mpr ⟨by omega, rfl⟩
  rw [toStringCode, cleared, Option.bind_eq_bind, Option.bind_some]
  by_cases nothing : messages code = []
  · refine ⟨memory.set start 0, ?_, List.length_set, ?_⟩
    · rw [if_pos (.inr nothing), nothing]
      rfl
    · rw [nothing, Memory.copyAt_nil, List.length_nil, Nat.add_zero, List.set_set]
  · have count_eq : min (length - 1) (messages code).length = (messages code).length := by omega
    have fits : start + (messages code).length ≤ memory.length := by omega
    have copied : Memory.store (memory.set start 0) start (messages code) =
        some (Memory.copyAt memory start (messages code)) := by
      rw [Memory.store_eq_some (by rw [List.length_set]; exact fits), copyAt_set nothing]
    have ended : Memory.store (Memory.copyAt memory start (messages code))
        (start + (messages code).length) [0] =
          some ((Memory.copyAt memory start (messages code)).set
            (start + (messages code).length) 0) :=
      Memory.store_singleton_eq_some_iff.mpr ⟨by rw [Memory.length_copyAt fits]; omega, rfl⟩
    refine ⟨(Memory.copyAt memory start (messages code)).set (start + (messages code).length) 0,
      ?_, ?_, List.set_set ..⟩
    · rw [if_neg (by simp only [nothing, or_false]; omega)]
      simp only [count_eq, List.take_length, copied, Option.bind_some, ended]
      rfl
    · rw [List.length_set, Memory.length_copyAt fits]

theorem describe_eq {builder : FixedStringBuilder} (valid : builder.Valid) {code : Int32}
    (room : builder.offset + (messages code).length < builder.capacity) :
    describe asserts messages code builder = some (builder.extended (messages code)) := by
  have remaining_eq := valid.remaining_eq
  have capacity_eq := valid.capacity_eq
  obtain ⟨written, written_eq, same_length, ended⟩ :=
    @toStringCode_eq messages code builder.buffer builder.offset builder.remaining (by omega)
      (by omega)
  rw [describe, FixedStringBuilder.head, written_eq]
  refine (valid.offsetBy_eq same_length room).trans ?_
  rw [ended]
  rfl

theorem describe_holds {builder : FixedStringBuilder} {capacity : Nat} {text : List UInt8}
    (holds : builder.Holds capacity text) {code : Int32}
    (room : text.length + (messages code).length < capacity) :
    ∃ after, describe asserts messages code builder = some after ∧
      after.Holds capacity (text ++ messages code) := by
  refine ⟨_, describe_eq holds.valid ?_, holds.extended room⟩
  rw [holds.offset_eq, holds.capacity_eq]
  exact room

theorem formatError_holds {builder : FixedStringBuilder} {capacity : Nat} {error : Error}
    (coded : error.platformCode ≠ errorCodeInvalid) (empty : builder.Holds capacity [])
    (room : (errorText messages error).length < capacity) :
    ∃ after, formatError asserts messages error builder = some after ∧
      after.Holds capacity (errorText messages error) := by
  rw [errorText, if_neg coded] at room ⊢
  rw [List.length_append, List.length_append] at room
  obtain ⟨named, named_eq, named_holds⟩ := @FixedStringBuilder.Holds.format _ asserts _ _
    (characters "[" ++ error.errstr ++ characters "] ") empty
    (by rw [List.length_nil]; omega)
  rw [List.nil_append] at named_holds
  obtain ⟨described, described_eq, described_holds⟩ :=
    @describe_holds asserts messages _ _ _ named_holds error.platformCode (by omega)
  obtain ⟨after, after_eq, after_holds⟩ := @FixedStringBuilder.Holds.format _ asserts _ _
    (characters (" (" ++ toString error.platformCode.toInt ++ ")")) described_holds
    (by rw [List.length_append]; omega)
  refine ⟨after, ?_, after_holds⟩
  rw [formatError, named_eq, Option.bind_eq_bind, Option.bind_some, described_eq,
    Option.bind_some, after_eq]

theorem toStringError_eq {error : Error} {memory : List UInt8} {start length : Nat}
    (inside : start + length ≤ memory.length) (bounded : memory.length < 2 ^ 64)
    (room : (errorText messages error).length + 1 < length) :
    ∃ written, toStringError asserts messages error memory start length =
        some (written, errorText messages error) ∧ written.length = memory.length := by
  rw [toStringError]
  by_cases known : error.platformCode = errorCodeInvalid
  · rw [if_neg (by simp [known]), errorText, if_pos known]
    exact ⟨memory, rfl, rfl⟩
  · have slice_length : ((memory.drop start).take length).length = length - 1 + 1 := by
      rw [List.length_take, List.length_drop]
      omega
    have empty := FixedStringBuilder.holds_construct slice_length (by omega)
    obtain ⟨formatted, formatted_eq, holds⟩ :=
      @formatError_holds asserts messages _ _ error known empty (by omega)
    have buffer_length : formatted.buffer.length = length := by
      rw [← holds.valid.capacity_eq, holds.capacity_eq]
      omega
    refine ⟨Memory.copyAt memory start formatted.buffer, ?_,
      Memory.length_copyAt (by rw [buffer_length]; exact inside)⟩
    rw [if_pos ⟨by omega, known⟩, ← holds.view_eq]
    exact Option.bind_eq_some_iff.mpr ⟨formatted, formatted_eq, rfl⟩

/-! ## What is left of it -/

namespace Str

variable {str : Str}

theorem chars_append (inside : str.size ≤ str.memory.length) (more : List UInt8) :
    (str.append more).chars = str.chars ++ more :=
  Memory.take_copyAt inside

theorem chars_resize_of_empty (empty : str.size = 0) (size : Nat) :
    (str.resize size).chars = List.replicate size 0 := by
  have filled := @Memory.take_copyAt _ str.memory (List.replicate size (0 : UInt8)) 0
    (Nat.zero_le _)
  rw [List.length_replicate, Nat.zero_add, List.take_zero, List.nil_append] at filled
  rw [chars, resize, empty, Nat.sub_zero]
  exact filled

end Str

/-- What `Summary` makes of the error: so many zeros. -/
theorem summarize_eq_some {error : Error} {shown : Str}
    (shown_eq : summarize asserts messages error { memory, size := 0 } = some shown) :
    shown.chars = List.replicate shown.size 0 := by
  obtain ⟨opened, -, rest⟩ := Option.bind_eq_some_iff.mp shown_eq
  obtain ⟨⟨written, text⟩, -, rest⟩ := Option.bind_eq_some_iff.mp rest
  obtain ⟨told, -, rest⟩ := Option.bind_eq_some_iff.mp rest
  obtain ⟨closed, -, rest⟩ := Option.bind_eq_some_iff.mp rest
  obtain rfl := Option.some.inj rest
  exact Str.chars_resize_of_empty rfl closed.offset

theorem Str.size_le_of_chars {str : Str} (zeros : str.chars = List.replicate str.size 0) :
    str.size ≤ str.memory.length := by
  have length_eq := congrArg List.length zeros
  rw [chars, List.length_take, List.length_replicate] at length_eq
  omega

variable {failure : Failure}

theorem summary_eq (memory : List UInt8) (failed : failure.error.error ≠ errorCodeSuccess) :
    summary asserts messages memory failure =
      (summarize asserts messages failure.error { memory, size := 0 }).map fun shown =>
        List.replicate shown.size 0 ++ failure.message := by
  rw [summary, if_pos failed]
  cases shown_eq : summarize asserts messages failure.error { memory, size := 0 } with
  | none => rfl
  | some shown =>
    have zeros := summarize_eq_some shown_eq
    refine congrArg some ?_
    split_ifs with nothing
    · rw [zeros, nothing]
      exact (List.append_nil _).symm
    · rw [Str.chars_append (Str.size_le_of_chars zeros), zeros]

theorem construct_appendChar (bounded : memory.length < 2 ^ 64) (room : 2 < memory.length)
    (c : UInt8) :
    ∃ opened, (FixedStringBuilder.construct memory).appendChar c = some opened ∧
      opened.Valid ∧ opened.offset = 1 ∧ opened.capacity + 1 = memory.length := by
  have valid := FixedStringBuilder.valid_construct (List.ne_nil_of_length_pos (by omega)) bounded
  have capacity_eq : (FixedStringBuilder.construct memory).capacity + 1 = memory.length :=
    valid.capacity_eq
  have offset_eq : (FixedStringBuilder.construct memory).offset = 0 := rfl
  have remaining_eq := valid.remaining_eq
  have inside : 0 + (0 + 1) < memory.length := by omega
  refine ⟨(FixedStringBuilder.construct memory).pushed c, ?_, valid.pushed (by omega) c, rfl,
    capacity_eq⟩
  exact (FixedStringBuilder.Valid.appendChar_eq_some_iff _ c).mpr
    (.inr ⟨by omega, inside, rfl⟩)

/-- Where there is room, the builder writes as many characters as there are to be. -/
theorem summarize_eq {error : Error} {memory : List UInt8} (bounded : memory.length < 2 ^ 64)
    (room : (errorText messages error).length + 4 < memory.length) :
    ∃ shown, summarize asserts messages error { memory, size := 0 } = some shown ∧
      shown.size = (errorText messages error).length + 3 := by
  obtain ⟨opened, opened_eq, opened_valid, offset_eq, capacity_eq⟩ :=
    construct_appendChar bounded (by omega) 91
  have buffer_length := opened_valid.capacity_eq
  have remaining_eq := opened_valid.remaining_eq
  have head_eq : opened.head = 1 := offset_eq
  obtain ⟨written, written_eq, same_length⟩ :=
    @toStringError_eq asserts messages error opened.buffer opened.head opened.remaining
      (by omega) (by omega) (by omega)
  obtain ⟨told, told_eq, told_valid, told_offset, told_capacity⟩ :=
    @FixedStringBuilder.Valid.offsetBy_valid opened asserts opened_valid written
      (errorText messages error).length same_length (by omega)
  have closing : (characters "] ").length = 2 := rfl
  have closed_eq := @FixedStringBuilder.Valid.append_eq told told_valid asserts (characters "] ")
    (by omega)
  refine ⟨Str.resize ⟨(told.extended (characters "] ")).buffer, 0⟩
    (told.extended (characters "] ")).offset, ?_, ?_⟩
  · rw [summarize, opened_eq, Option.bind_eq_bind, Option.bind_some, written_eq,
      Option.bind_eq_bind, Option.bind_some]
    simp only [told_eq, Option.bind_some, FixedStringBuilder.appendView, closed_eq]
    rfl
  · show told.offset + (characters "] ").length = (errorText messages error).length + 3
    omega

theorem expected_ne_zeros (count : Nat) :
    expected messages failure ≠ List.replicate count 0 ++ failure.message := by
  intro same
  cases count with
  | zero =>
    have length_eq := congrArg List.length same
    simp only [expected, List.length_append, List.replicate_zero, List.nil_append] at length_eq
    have opening : (characters "[").length = 1 := rfl
    omega
  | succ count =>
    have first_eq := List.head_eq_of_cons_eq same
    cases first_eq

/-- The summary of an error has never the text of the error: where there is room for that, there are
as many zeros. -/
theorem summary_ne_expected (asserts : Bool) (messages : Messages) (memory : List UInt8)
    (failure : Failure) (failed : failure.error.error ≠ errorCodeSuccess) :
    (256 ≤ memory.length → memory.length < 2 ^ 64 →
        (errorText messages failure.error).length + 4 < 256 →
        summary asserts messages memory failure =
          some (List.replicate ((errorText messages failure.error).length + 3) 0 ++
            failure.message)) ∧
      summary asserts messages memory failure ≠ some (expected messages failure) := by
  constructor
  · intro reserved bounded room
    obtain ⟨shown, shown_eq, size_eq⟩ :=
      @summarize_eq asserts messages failure.error memory bounded (by omega)
    rw [summary_eq memory failed, shown_eq, Option.map_some, size_eq]
  · rw [summary_eq memory failed]
    intro same
    obtain ⟨shown, -, zeros_eq⟩ := Option.map_eq_some_iff.mp same
    exact expected_ne_zeros shown.size zeros_eq.symm

/-- A file that may not be read, with the code and the text of the platform. -/
theorem summary_ne_expected_denied :
    summary true (fun _ => characters "Permission denied") (List.replicate 256 0)
        ⟨⟨13, 2, characters "E_ACCESS_DENIED"⟩, characters "open"⟩ =
          some (List.replicate 43 0 ++ characters "open") ∧
      summary true (fun _ => characters "Permission denied") (List.replicate 256 0)
          ⟨⟨13, 2, characters "E_ACCESS_DENIED"⟩, characters "open"⟩ ≠
        some (expected (fun _ => characters "Permission denied")
          ⟨⟨13, 2, characters "E_ACCESS_DENIED"⟩, characters "open"⟩) := by
  have never := summary_ne_expected true (fun _ => characters "Permission denied")
    (List.replicate 256 0) ⟨⟨13, 2, characters "E_ACCESS_DENIED"⟩, characters "open"⟩ (by decide)
  rw [List.length_replicate] at never
  exact ⟨never.1 (by decide) (by decide) (by decide), never.2⟩

/-- A failure without a code: twelve zeros and the message. -/
theorem summary_of_failure :
    expected (fun _ => []) ⟨{ error := -1, errstr := characters "E_FAILURE" }, characters "no"⟩ =
        characters "[E_FAILURE] no" ∧
      summary true (fun _ => []) (List.replicate 256 0)
          ⟨{ error := -1, errstr := characters "E_FAILURE" }, characters "no"⟩ =
        some (List.replicate 12 0 ++ characters "no") ∧
      some (List.replicate 12 0 ++ characters "no") ≠ some (characters "[E_FAILURE] no") := by
  decide +kernel

end Summary
end Fusion
