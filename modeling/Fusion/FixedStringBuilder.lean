import Fusion.Library.Memory
import Fusion.Library.Runs
import Mathlib.Algebra.Group.Nat.Defs

/-!
# Strings built in a fixed buffer

`FixedStringBuilder` appends characters and strings to a buffer and ends what it has with a NUL.  A
string goes to `Head()`.  A character goes `m_offset` places behind `Head()`, which is the right
place only while the builder is empty.
-/

namespace Fusion

/-- The difference of two values of `size_t`. -/
def sizeMinus (left right : Nat) : Nat := (2 ^ 64 + left - right) % 2 ^ 64

theorem sizeMinus_eq_sub {left right : Nat} (order : right ≤ left) (bounded : left < 2 ^ 64) :
    sizeMinus left right = left - right := by
  unfold sizeMinus
  omega

structure FixedStringBuilder where
  /-- The characters that `m_buffer` spans. -/
  buffer : List UInt8
  capacity : Nat
  offset : Nat
  deriving DecidableEq

namespace FixedStringBuilder

/-- The constructors, which write nothing. -/
def construct (buffer : List UInt8) : FixedStringBuilder :=
  ⟨buffer, sizeMinus buffer.length 1, 0⟩

def remaining (builder : FixedStringBuilder) : Nat := sizeMinus builder.capacity builder.offset

/-- The place in the buffer that `Head()` points to. -/
def head (builder : FixedStringBuilder) : Nat := builder.offset

def view (builder : FixedStringBuilder) : List UInt8 := builder.buffer.take builder.offset

/-- `Append(char)`; `none` is a write outside the buffer. -/
def appendChar (c : UInt8) (builder : FixedStringBuilder) : Option FixedStringBuilder :=
  if 1 < builder.remaining then do
    let written ← Memory.store builder.buffer (builder.head + builder.offset) [c]
    let terminated ← Memory.store written (builder.head + (builder.offset + 1)) [0]
    return { builder with buffer := terminated, offset := builder.offset + 1 }
  else some builder

/-- `Append(const char*, size_t)` for the characters that the two describe; `asserts` tells whether
the build has assertions, and `none` is also one that fails. -/
def append (asserts : Bool) (str : List UInt8) (builder : FixedStringBuilder) :
    Option FixedStringBuilder := do
  let length := min str.length builder.remaining
  guard (asserts = true → builder.offset + length < builder.capacity)
  let written ← Memory.store builder.buffer builder.head (str.take length)
  let terminated ← Memory.store written (builder.offset + length) [0]
  return { builder with buffer := terminated, offset := builder.offset + length }

/-- `Append(const char*)`, which measures the string first. -/
def appendPointer (asserts : Bool) (str : List UInt8) (builder : FixedStringBuilder) :
    Option FixedStringBuilder :=
  builder.append asserts (str.take (str.idxOf 0))

/-- `Append(std::string_view)`. -/
def appendView (asserts : Bool) (str : List UInt8) (builder : FixedStringBuilder) :
    Option FixedStringBuilder :=
  builder.append asserts str

end FixedStringBuilder

/-- The calls that append; the characters of a pointer end before the first NUL among them or where
the list ends. -/
inductive AppendCall
  | appendChar (c : UInt8)
  | appendPointer (str : List UInt8)
  | append (str : List UInt8)
  | appendView (str : List UInt8)
  | plusChar (c : UInt8)
  | plusPointer (str : List UInt8)
  | plusView (str : List UInt8)

/-- What a call appends. -/
def AppendCall.text : AppendCall → List UInt8
  | .appendChar c | .plusChar c => [c]
  | .appendPointer str | .plusPointer str => str.take (str.idxOf 0)
  | .append str | .appendView str | .plusView str => str

/-- The concatenation of everything appended. -/
def concatenation (calls : List AppendCall) : List UInt8 := calls.flatMap AppendCall.text

namespace FixedStringBuilder

def step (asserts : Bool) (builder : FixedStringBuilder) : AppendCall → Option FixedStringBuilder
  | .appendChar c => builder.appendChar c
  | .appendPointer str => builder.appendPointer asserts str
  | .append str => builder.append asserts str
  | .appendView str => builder.appendView asserts str
  | .plusChar c => builder.appendChar c
  | .plusPointer str => builder.append asserts (str.take (str.idxOf 0))
  | .plusView str => builder.appendView asserts str

/-! ## One call -/

/-- The capacity leaves room for the terminator, and the offset is inside. -/
structure Valid (builder : FixedStringBuilder) : Prop where
  bounded : builder.buffer.length < 2 ^ 64
  capacity_eq : builder.capacity + 1 = builder.buffer.length
  offset_le : builder.offset ≤ builder.capacity

theorem valid_construct {buffer : List UInt8} (nonempty : buffer ≠ [])
    (bounded : buffer.length < 2 ^ 64) : (construct buffer).Valid := by
  have positive : 1 ≤ buffer.length := List.length_pos_iff.mpr nonempty
  refine ⟨bounded, ?_, Nat.zero_le _⟩
  change sizeMinus buffer.length 1 + 1 = buffer.length
  rw [sizeMinus_eq_sub positive bounded]
  omega

/-- The text is in the buffer, followed by a NUL. -/
structure Built (builder : FixedStringBuilder) (text : List UInt8) : Prop where
  view_eq : builder.view = text
  terminated : builder.buffer[builder.offset]? = some 0

/-- The builder that a character leaves behind. -/
def pushed (c : UInt8) (builder : FixedStringBuilder) : FixedStringBuilder :=
  { builder with
    buffer := (builder.buffer.set (builder.offset + builder.offset) c).set
      (builder.offset + (builder.offset + 1)) 0
    offset := builder.offset + 1 }

/-- The builder that a string leaves behind. -/
def extended (str : List UInt8) (builder : FixedStringBuilder) : FixedStringBuilder :=
  { builder with
    buffer := (Memory.copyAt builder.buffer builder.offset str).set
      (builder.offset + str.length) 0
    offset := builder.offset + str.length }

variable {asserts : Bool} {str : List UInt8} {call : AppendCall}

namespace Valid

variable {builder after : FixedStringBuilder}

theorem remaining_eq (valid : builder.Valid) :
    builder.remaining = builder.capacity - builder.offset := by
  have bounded := valid.bounded
  rw [← valid.capacity_eq] at bounded
  exact sizeMinus_eq_sub valid.offset_le (Nat.lt_of_succ_lt bounded)

/-- A character is dropped, or written where the offset counted twice leads. -/
theorem appendChar_eq_some_iff (builder : FixedStringBuilder) (c : UInt8) :
    builder.appendChar c = some after ↔
      builder.remaining ≤ 1 ∧ after = builder ∨
        1 < builder.remaining ∧ builder.offset + (builder.offset + 1) < builder.buffer.length ∧
          after = builder.pushed c := by
  rw [appendChar]
  split
  · rename_i room
    refine Iff.trans ?_ (or_iff_right fun dropped => by omega).symm
    rw [and_iff_right room]
    constructor
    · intro append_eq
      obtain ⟨written, written_eq, append_eq⟩ := Option.bind_eq_some_iff.mp append_eq
      obtain ⟨terminated, terminated_eq, append_eq⟩ := Option.bind_eq_some_iff.mp append_eq
      obtain ⟨-, rfl⟩ := Memory.store_singleton_eq_some_iff.mp written_eq
      obtain ⟨inside, rfl⟩ := Memory.store_singleton_eq_some_iff.mp terminated_eq
      rw [List.length_set] at inside
      exact ⟨inside, (Option.some.inj append_eq).symm⟩
    · rintro ⟨inside, rfl⟩
      refine Option.bind_eq_some_iff.mpr ⟨_, Memory.store_singleton_eq_some_iff.mpr ⟨?_, rfl⟩, ?_⟩
      · rw [head]
        omega
      · refine Option.bind_eq_some_iff.mpr
          ⟨_, Memory.store_singleton_eq_some_iff.mpr ⟨?_, rfl⟩, rfl⟩
        rwa [List.length_set]
  · rename_i full
    rw [Option.some.injEq, eq_comm]
    constructor
    · exact fun same => .inl ⟨Nat.not_lt.mp full, same⟩
    · rintro (⟨-, same⟩ | ⟨room, -⟩)
      · exact same
      · exact absurd room full

variable (valid : builder.Valid)
include valid

/-- A string is cut to what remains and written at the offset. -/
theorem append_eq_some_iff :
    builder.append asserts str = some after ↔
      (asserts = true → builder.offset + min str.length builder.remaining < builder.capacity) ∧
        after = builder.extended (str.take builder.remaining) := by
  have remaining_eq := valid.remaining_eq
  have capacity_eq := valid.capacity_eq
  have offset_le := valid.offset_le
  have taken_eq : str.take (min str.length builder.remaining) = str.take builder.remaining := by
    rw [Nat.min_comm, ← List.take_take, List.take_length]
  have length_eq : min str.length builder.remaining = (str.take builder.remaining).length := by
    rw [List.length_take, Nat.min_comm]
  unfold append
  constructor
  · intro append_eq
    obtain ⟨_, guarded, append_eq⟩ := Option.bind_eq_some_iff.mp append_eq
    obtain ⟨written, written_eq, append_eq⟩ := Option.bind_eq_some_iff.mp append_eq
    obtain ⟨terminated, terminated_eq, append_eq⟩ := Option.bind_eq_some_iff.mp append_eq
    obtain ⟨-, rfl⟩ := Memory.store_eq_some_iff.mp written_eq
    obtain ⟨-, rfl⟩ := Memory.store_singleton_eq_some_iff.mp terminated_eq
    refine ⟨(Option.ite_none_right_eq_some.mp guarded).1, ?_⟩
    rw [← Option.some.inj append_eq, taken_eq, length_eq]
    rfl
  · rintro ⟨asserted, rfl⟩
    refine Option.bind_eq_some_iff.mpr ⟨(), if_pos asserted, ?_⟩
    rw [taken_eq, length_eq, head]
    refine Option.bind_eq_some_iff.mpr ⟨_, Memory.store_eq_some (by omega), ?_⟩
    refine Option.bind_eq_some_iff.mpr
      ⟨_, Memory.store_singleton_eq_some_iff.mpr ⟨?_, rfl⟩, rfl⟩
    rw [Memory.length_copyAt (by omega)]
    omega

theorem pushed (room : 1 < builder.remaining) (c : UInt8) : (builder.pushed c).Valid := by
  have remaining_eq := valid.remaining_eq
  refine ⟨?_, ?_, ?_⟩
  · simpa [FixedStringBuilder.pushed] using valid.bounded
  · simpa [FixedStringBuilder.pushed] using valid.capacity_eq
  · change builder.offset + 1 ≤ builder.capacity
    omega

theorem extended (short : str.length ≤ builder.remaining) : (builder.extended str).Valid := by
  have remaining_eq := valid.remaining_eq
  have capacity_eq := valid.capacity_eq
  have offset_le := valid.offset_le
  have length_eq : (builder.extended str).buffer.length = builder.buffer.length := by
    rw [FixedStringBuilder.extended, List.length_set, Memory.length_copyAt (by omega)]
  refine ⟨?_, ?_, ?_⟩
  · rw [length_eq]
    exact valid.bounded
  · rw [length_eq]
    exact capacity_eq
  · change builder.offset + str.length ≤ builder.capacity
    omega

theorem step (step_eq : builder.step asserts call = some after) :
    after.Valid ∧ after.capacity = builder.capacity := by
  cases call with
  | appendChar c | plusChar c =>
    rcases (appendChar_eq_some_iff builder c).mp step_eq with ⟨-, rfl⟩ | ⟨room, -, rfl⟩
    · exact ⟨valid, rfl⟩
    · exact ⟨valid.pushed room c, rfl⟩
  | appendPointer str | append str | appendView str | plusPointer str | plusView str =>
    obtain ⟨-, rfl⟩ := valid.append_eq_some_iff.mp step_eq
    exact ⟨valid.extended (List.length_take_le _ _), rfl⟩

theorem length_view : builder.view.length = builder.offset := by
  have capacity_eq := valid.capacity_eq
  have offset_le := valid.offset_le
  rw [view, List.length_take]
  omega

end Valid

/-! ## What is built -/

section Building

variable {builder : FixedStringBuilder}

theorem Valid.built_extended (valid : builder.Valid) (short : str.length ≤ builder.remaining) :
    (builder.extended str).Built (builder.view ++ str) := by
  have remaining_eq := valid.remaining_eq
  have capacity_eq := valid.capacity_eq
  have offset_le := valid.offset_le
  refine ⟨?_, ?_⟩
  · rw [view, FixedStringBuilder.extended, List.take_set_of_le (Nat.le_refl _),
      Memory.take_copyAt (by omega), view]
  · rw [FixedStringBuilder.extended, List.getElem?_set_self]
    rw [Memory.length_copyAt (by omega)]
    omega

theorem Valid.append_eq (valid : builder.Valid) {asserts : Bool} {str : List UInt8}
    (room : builder.offset + str.length < builder.capacity) :
    builder.append asserts str = some (builder.extended str) := by
  have remaining_eq := valid.remaining_eq
  have short : str.length ≤ builder.remaining := by omega
  refine valid.append_eq_some_iff.mpr ⟨fun _ => ?_, ?_⟩
  · rw [Nat.min_eq_left short]
    exact room
  · rw [List.take_of_length_le short]

theorem Valid.append_built (valid : builder.Valid)
    (room : builder.offset + str.length < builder.capacity) :
    ∃ after, builder.append asserts str = some after ∧ after.Built (builder.view ++ str) := by
  have remaining_eq := valid.remaining_eq
  exact ⟨_, valid.append_eq room, valid.built_extended (by omega)⟩

theorem built_pushed_of_empty (empty : builder.offset = 0) (inside : 1 < builder.buffer.length)
    (c : UInt8) : (builder.pushed c).Built (builder.view ++ [c]) := by
  refine ⟨?_, ?_⟩
  · cases buffer_eq : builder.buffer with
    | nil => simp [buffer_eq] at inside
    | cons first rest => simp [view, pushed, empty, buffer_eq]
  · simp [pushed, empty, inside]

theorem view_pushed (positive : 0 < builder.offset) (c : UInt8) :
    (builder.pushed c).view = builder.view ++ builder.buffer[builder.offset]?.toList := by
  change ((builder.buffer.set (builder.offset + builder.offset) c).set
    (builder.offset + (builder.offset + 1)) 0).take (builder.offset + 1) = _
  rw [List.take_set_of_le (by omega), List.take_set_of_le (by omega), List.take_add_one, view]

theorem getElem?_pushed (positive : 0 < builder.offset) (c : UInt8)
    (inside : builder.offset + (builder.offset + 1) < builder.buffer.length) :
    (builder.pushed c).buffer[builder.offset + 1]? =
      if builder.offset = 1 then some c else builder.buffer[builder.offset + 1]? := by
  rw [pushed, List.getElem?_set_ne (by omega)]
  split
  · rename_i one
    rw [one]
    exact List.getElem?_set_self (by omega)
  · rw [List.getElem?_set_ne (by omega)]

/-- A character is appended to an empty builder, and elsewhere only if it is the terminator that is
there already. -/
theorem built_pushed_iff {c : UInt8}
    (inside : builder.offset + (builder.offset + 1) < builder.buffer.length)
    (terminated : builder.offset = 0 ∨ builder.buffer[builder.offset]? = some 0) :
    (builder.pushed c).Built (builder.view ++ [c]) ↔
      builder.offset = 0 ∨
        c = 0 ∧ (builder.offset = 1 ∨ builder.buffer[builder.offset + 1]? = some 0) := by
  rcases Nat.eq_zero_or_pos builder.offset with empty | positive
  · exact iff_of_true (built_pushed_of_empty empty (by omega) c) (.inl empty)
  · have zero_here : builder.buffer[builder.offset]? = some 0 :=
      terminated.resolve_left (Nat.ne_of_gt positive)
    have view_iff : (builder.pushed c).view = builder.view ++ [c] ↔ c = 0 := by
      rw [view_pushed positive, zero_here, List.append_cancel_left_eq]
      simp [eq_comm]
    have next_eq := getElem?_pushed positive c inside
    refine Iff.trans ?_ (or_iff_right (Nat.ne_of_gt positive)).symm
    constructor
    · rintro ⟨view_eq, terminated_after⟩
      have zero := view_iff.mp view_eq
      refine ⟨zero, ?_⟩
      rcases eq_or_ne builder.offset 1 with one | more
      · exact .inl one
      · rw [if_neg more] at next_eq
        exact .inr (next_eq.symm.trans terminated_after)
    · rintro ⟨zero, next_zero⟩
      refine ⟨view_iff.mpr zero, ?_⟩
      refine Eq.trans next_eq ?_
      split
      · rw [zero]
      · rename_i more
        exact next_zero.resolve_left more

end Building

/-! ## Sequences of calls -/

/-- The calls can all be made, and the builder has their concatenation and a NUL behind it. -/
def Builds (asserts : Bool) (buffer : List UInt8) (calls : List AppendCall) : Prop :=
  ∃ builder, Runs.run (step asserts) (construct buffer) calls = some builder ∧
    builder.Built (concatenation calls)

/-- A character is the first that is appended, or a NUL behind which there is another one. -/
def Safe (builder : FixedStringBuilder) : AppendCall → Prop
  | .appendChar c | .plusChar c =>
    builder.offset = 0 ∨ c = 0 ∧ (builder.offset = 1 ∨
      builder.offset + (builder.offset + 1) < builder.buffer.length ∧
        builder.buffer[builder.offset + 1]? = some 0)
  | _ => True

/-- A character is dropped or goes inside the buffer. -/
def InRange (builder : FixedStringBuilder) : AppendCall → Prop
  | .appendChar _ | .plusChar _ =>
    builder.remaining ≤ 1 ∨ builder.offset + (builder.offset + 1) < builder.buffer.length
  | _ => True

theorem concatenation_concat (front : List AppendCall) (call : AppendCall) :
    concatenation (front ++ [call]) = concatenation front ++ call.text := by
  simp [concatenation]

theorem length_concatenation_le {front calls : List AppendCall} (inside : front <+: calls) :
    (concatenation front).length ≤ (concatenation calls).length := by
  obtain ⟨back, rfl⟩ := inside
  simp [concatenation]

variable {builder : FixedStringBuilder}

theorem Valid.exists_step_iff (valid : builder.Valid) (call : AppendCall) :
    (∃ after, builder.step false call = some after) ↔ builder.InRange call := by
  cases call with
  | appendChar c | plusChar c =>
    constructor
    · rintro ⟨after, step_eq⟩
      rcases (appendChar_eq_some_iff builder c).mp step_eq with ⟨full, -⟩ | ⟨-, inside, -⟩
      · exact .inl full
      · exact .inr inside
    · intro in_range
      rcases Nat.lt_or_ge 1 builder.remaining with room | full
      · have inside := in_range.resolve_left (Nat.not_le.mpr room)
        exact ⟨_, (appendChar_eq_some_iff builder c).mpr (.inr ⟨room, inside, rfl⟩)⟩
      · exact ⟨_, (appendChar_eq_some_iff builder c).mpr (.inl ⟨full, rfl⟩)⟩
  | appendPointer str | append str | appendView str | plusPointer str | plusView str =>
    refine iff_of_true ⟨_, valid.append_eq_some_iff.mpr ⟨?_, rfl⟩⟩ trivial
    exact fun on => absurd on Bool.false_ne_true

/-- A call that leaves room appends its text and a NUL exactly when it is safe. -/
theorem Valid.built_step_iff (valid : builder.Valid)
    (terminated : builder.offset = 0 ∨ builder.buffer[builder.offset]? = some 0)
    (room : builder.offset + call.text.length < builder.capacity) :
    (∃ after, builder.step asserts call = some after ∧ after.Built (builder.view ++ call.text)) ↔
      builder.Safe call := by
  have remaining_eq := valid.remaining_eq
  have capacity_eq := valid.capacity_eq
  cases call with
  | appendChar c | plusChar c =>
    have more : 1 < builder.remaining := by
      change builder.offset + 1 < builder.capacity at room
      omega
    have step_iff (after : FixedStringBuilder) : builder.appendChar c = some after ↔
        builder.offset + (builder.offset + 1) < builder.buffer.length ∧
          after = builder.pushed c := by
      rw [appendChar_eq_some_iff, or_iff_right (by omega), and_iff_right more]
    constructor
    · rintro ⟨after, step_eq, built⟩
      obtain ⟨inside, rfl⟩ := (step_iff after).mp step_eq
      rcases (built_pushed_iff inside terminated).mp built with empty | ⟨zero, one | next_zero⟩
      · exact .inl empty
      · exact .inr ⟨zero, .inl one⟩
      · exact .inr ⟨zero, .inr ⟨inside, next_zero⟩⟩
    · intro safe
      have inside : builder.offset + (builder.offset + 1) < builder.buffer.length := by
        rcases safe with empty | ⟨-, one | ⟨inside, -⟩⟩ <;> omega
      refine ⟨_, (step_iff _).mpr ⟨inside, rfl⟩, (built_pushed_iff inside terminated).mpr ?_⟩
      rcases safe with empty | ⟨zero, one | ⟨-, next_zero⟩⟩
      · exact .inl empty
      · exact .inr ⟨zero, .inl one⟩
      · exact .inr ⟨zero, .inr next_zero⟩
  | appendPointer str | append str | appendView str | plusPointer str | plusView str =>
    exact iff_of_true (valid.append_built room) trivial

/-- What holds after calls that were all right. -/
structure Consistent (buffer : List UInt8) (front : List AppendCall)
    (builder : FixedStringBuilder) : Prop where
  valid : builder.Valid
  capacity_eq : builder.capacity = (construct buffer).capacity
  view_eq : builder.view = concatenation front
  terminated : builder.offset = 0 ∨ builder.buffer[builder.offset]? = some 0

/-- The empty sequence has a NUL behind it only if the buffer came with one.  The other beginnings
of a sequence that leaves room are built exactly when each of its calls is safe, and a build without
assertions stays inside the buffer exactly when each call is in range. -/
theorem builds_iff {buffer : List UInt8} (nonempty : buffer ≠ []) (bounded : buffer.length < 2 ^ 64)
    (asserts : Bool) (calls : List AppendCall) :
    (Builds asserts buffer [] ↔ buffer[0]? = some 0) ∧
      ((concatenation calls).length < (construct buffer).capacity →
        ((∀ front, front ≠ [] → front <+: calls → Builds asserts buffer front) ↔
          Runs.EveryAction (step asserts) (construct buffer) Safe calls)) ∧
      ((∃ builder, Runs.run (step false) (construct buffer) calls = some builder) ↔
        Runs.EveryAction (step false) (construct buffer) InRange calls) := by
  have valid := valid_construct nonempty bounded
  refine ⟨?_, fun short => ?_, ?_⟩
  · constructor
    · rintro ⟨builder, execution, built⟩
      obtain rfl := Option.some.inj execution
      exact built.terminated
    · intro zero
      exact ⟨_, rfl, rfl, zero⟩
  · refine @Runs.everyAction_iff _ _ _ _ _ (Consistent buffer) _ _ ⟨valid, rfl, rfl, .inl rfl⟩
      ?_ ?_
    · intro front before call inside consistent
      have length_le := length_concatenation_le inside
      rw [concatenation_concat, List.length_append, ← consistent.view_eq,
        consistent.valid.length_view] at length_le
      rw [concatenation_concat, ← consistent.view_eq]
      refine consistent.valid.built_step_iff consistent.terminated ?_
      rw [consistent.capacity_eq]
      exact Nat.lt_of_le_of_lt length_le short
    · intro front before call after consistent step_eq built
      obtain ⟨valid_after, capacity_eq⟩ := consistent.valid.step step_eq
      exact ⟨valid_after, capacity_eq.trans consistent.capacity_eq, built.view_eq,
        .inr built.terminated⟩
  · rw [Runs.exists_run_iff]
    have every_iff := @Runs.everyAction_iff _ _ (step false) (construct buffer) (fun _ _ => True)
      (fun _ builder => builder.Valid) InRange calls valid
      (fun _ before call _ valid => by simpa using valid.exists_step_iff call)
      (fun _ _ _ _ valid step_eq _ => (valid.step step_eq).1)
    simpa using every_iff

/-- A character and then two views. -/
theorem builds_iff_mixed : Builds true (List.replicate 8 255)
    [.appendChar 97, .appendView [98, 99], .plusView [100, 101]] := by
  have short : (concatenation [.appendChar 97, .appendView [98, 99], .plusView [100, 101]]).length <
      (construct (List.replicate 8 255)).capacity := by
    decide
  refine ((builds_iff (by decide) (by decide) true _).2.1 short).mpr ?_ _ (List.cons_ne_nil _ _)
    (List.prefix_refl _)
  rintro front action ⟨back, split⟩
  rcases front with _ | ⟨first, _ | ⟨second, _ | ⟨third, front⟩⟩⟩
  · cases split
    exact ⟨_, rfl, .inl rfl⟩
  · cases split
    exact ⟨_, rfl, trivial⟩
  · cases split
    exact ⟨_, rfl, trivial⟩
  · have length_eq := congrArg List.length split
    simp at length_eq

/-- The second of two characters goes behind the terminator of the first, and one that follows four
others leaves a buffer of eight. -/
theorem appendChar_misplaced :
    ¬ Builds false (List.replicate 8 0) [.appendChar 97, .appendChar 98] ∧
      Runs.run (step false) (construct (List.replicate 8 0))
        [.appendView [97, 98, 99, 100], .appendChar 101] = none := by
  refine ⟨?_, by decide⟩
  rintro ⟨builder, execution, built⟩
  have run_eq : Runs.run (step false) (construct (List.replicate 8 0))
      [.appendChar 97, .appendChar 98] = some ⟨[97, 0, 98, 0, 0, 0, 0, 0], 7, 2⟩ := by decide
  obtain rfl := Option.some.inj (run_eq.symm.trans execution)
  exact absurd built.view_eq (by decide)

end FixedStringBuilder

end Fusion
