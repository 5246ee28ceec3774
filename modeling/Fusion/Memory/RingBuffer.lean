import Fusion.Library.BoundedQueue
import Mathlib.Algebra.Group.Nat.Defs

/-!
# The ring buffer

`RingBuffer` keeps two offsets into an array and a flag that is to tell a full buffer from an empty
one, whose offsets agree.  A fresh buffer does not have the flag set, and an empty one has no
writable byte.  What it does implement is the queue that starts with the whole array in it and is
never drained.
-/

namespace Fusion.Memory

open BoundedQueue

/-- The fields of `RingBuffer`; `m_size` is the length of the array at `m_buffer`. -/
structure RingBuffer where
  buffer : List UInt8
  readOffset : Nat
  writeOffset : Nat
  empty : Bool
deriving Repr, DecidableEq

namespace RingBuffer

/-- Both constructors leave the offsets and the flag at their initialisers. -/
def fresh (buffer : List UInt8) : RingBuffer := ⟨buffer, 0, 0, false⟩

def size (ring : RingBuffer) : Nat := ring.buffer.length

def readableSize (ring : RingBuffer) : Nat :=
  if ring.empty then 0
  else if ring.readOffset < ring.writeOffset then ring.writeOffset - ring.readOffset
  else ring.size - ring.readOffset + ring.writeOffset

def writableSize (ring : RingBuffer) : Nat :=
  if ring.empty then 0
  else if ring.writeOffset ≤ ring.readOffset then ring.readOffset - ring.writeOffset
  else ring.size - ring.writeOffset + ring.readOffset

/-- `Peek`: the bytes copied out and the count returned; `none` is a copy from outside the array.
Sums are machine words. -/
def peek (ring : RingBuffer) (count : Nat) : Option (Response UInt8) :=
  let readLength := min count ring.readableSize
  if readLength = 0 then some ⟨[], 0⟩
  else if (ring.readOffset + readLength) % 2 ^ 64 < ring.size then do
    let bytes ← Memory.load ring.buffer ring.readOffset readLength
    return ⟨bytes, readLength⟩
  else do
    let firstRead := ring.size - ring.readOffset
    let secondRead := readLength - firstRead
    let first ← Memory.load ring.buffer ring.readOffset firstRead
    let second ← Memory.load ring.buffer 0 secondRead
    return ⟨first ++ second, readLength⟩

/-- `Skip`: a buffer that becomes empty starts over at the front of the array. -/
def skip (ring : RingBuffer) (count : Nat) : Nat × RingBuffer :=
  let skipCount := min count ring.readableSize
  if skipCount = 0 then (0, ring)
  else
    let readOffset := (ring.readOffset + skipCount) % 2 ^ 64 % ring.size
    if readOffset = ring.writeOffset then
      (skipCount, { ring with readOffset := 0, writeOffset := 0, empty := true })
    else (skipCount, { ring with readOffset := readOffset })

def read (ring : RingBuffer) (count : Nat) : Option (Response UInt8 × RingBuffer) := do
  let peeked ← ring.peek count
  let (skipped, next) := ring.skip peeked.count
  return (⟨peeked.elements, skipped⟩, next)

/-- `Write`: the count returned and the array; `none` is a copy to outside the array. -/
def write (ring : RingBuffer) (data : List UInt8) : Option (Nat × RingBuffer) :=
  let writeLength := min data.length ring.writableSize
  if writeLength = 0 then some (0, ring)
  else if (ring.writeOffset + writeLength) % 2 ^ 64 < ring.size then do
    let buffer ← Memory.store ring.buffer ring.writeOffset (data.take writeLength)
    return (writeLength, { ring with buffer := buffer })
  else do
    let firstWrite := ring.size - ring.writeOffset
    let secondWrite := writeLength - firstWrite
    let first ← Memory.store ring.buffer ring.writeOffset (data.take firstWrite)
    let buffer ← Memory.store first 0 ((data.drop firstWrite).take secondWrite)
    return (writeLength, { ring with buffer := buffer })

/-- `Advance`: `none` is a failed assertion. -/
def advance (ring : RingBuffer) (count : Nat) : Option RingBuffer :=
  if ring.writableSize < count then none
  else if count = 0 then some ring
  else if (ring.writeOffset + count) % 2 ^ 64 < ring.size then
    some { ring with writeOffset := (ring.writeOffset + count) % 2 ^ 64, empty := false }
  else
    let firstWrite := ring.size - ring.writeOffset
    let secondWrite := count - firstWrite
    some { ring with writeOffset := secondWrite, empty := false }

/-- One call; a write is followed by the advance of the count it returned. -/
def step (ring : RingBuffer) : Call UInt8 → Option (Response UInt8 × RingBuffer)
  | .write data => do
      let (count, written) ← ring.write data
      let next ← written.advance count
      return (⟨[], count⟩, next)
  | .peek count => (ring.peek count).map fun response => (response, ring)
  | .read count => ring.read count
  | .skip count =>
    let (skipped, next) := ring.skip count
    some (⟨[], skipped⟩, next)

/-- Over the whole sequence, the buffer answers as the queue does and its two sizes are those of
the queue after every call. -/
def Agrees (ring : RingBuffer) (queue : List UInt8) : List (Call UInt8) → Prop
  | [] => True
  | call :: calls =>
    ∃ next, ring.step call = some ((BoundedQueue.step ring.size queue call).1, next) ∧
      next.readableSize = (BoundedQueue.step ring.size queue call).2.length ∧
      next.writableSize = ring.size - (BoundedQueue.step ring.size queue call).2.length ∧
      Agrees next (BoundedQueue.step ring.size queue call).2 calls

/-- The queue has an element after every call. -/
def NeverDrained (capacity : Nat) (queue : List UInt8) : List (Call UInt8) → Prop
  | [] => True
  | call :: calls =>
    (BoundedQueue.step capacity queue call).2 ≠ [] ∧
      NeverDrained capacity (BoundedQueue.step capacity queue call).2 calls

/-! ## Buffers that hold a queue -/

/-- The buffer holds a non-empty queue from its read offset on. -/
structure Holds (ring : RingBuffer) (queue : List UInt8) : Prop where
  flag : ring.empty = false
  nonempty : queue ≠ []
  length_le : queue.length ≤ ring.size
  readOffset_lt : ring.readOffset < ring.size
  writeOffset_eq : ring.writeOffset = (ring.readOffset + queue.length) % ring.size
  contents : window ring.buffer ring.readOffset queue.length = queue

theorem holds_fresh {buffer : List UInt8} (nonempty : buffer ≠ []) :
    Holds (fresh buffer) buffer where
  flag := rfl
  nonempty := nonempty
  length_le := Nat.le_refl _
  readOffset_lt := List.length_pos_iff.mpr nonempty
  writeOffset_eq := by
    change 0 = (0 + buffer.length) % buffer.length
    rw [Nat.zero_add, Nat.mod_self]
  contents := by
    change (buffer.rotate 0).take buffer.length = buffer
    rw [List.rotate_zero, List.take_length]

namespace Holds

variable {ring : RingBuffer} {queue : List UInt8} (holds : Holds ring queue)
include holds

theorem length_pos : 0 < queue.length :=
  List.length_pos_iff.mpr holds.nonempty

theorem writeOffset_lt : ring.writeOffset < ring.size := by
  rw [holds.writeOffset_eq]
  exact Nat.mod_lt _ (Nat.zero_lt_of_lt holds.readOffset_lt)

theorem writeOffset_cases :
    ring.readOffset + queue.length < ring.size ∧ ring.writeOffset = ring.readOffset + queue.length ∨
      ring.size ≤ ring.readOffset + queue.length ∧
        ring.writeOffset = ring.readOffset + queue.length - ring.size := by
  have length_le := holds.length_le
  have readOffset_lt := holds.readOffset_lt
  rw [holds.writeOffset_eq]
  rcases Nat.lt_or_ge (ring.readOffset + queue.length) ring.size with straight | turned
  · exact .inl ⟨straight, Nat.mod_eq_of_lt straight⟩
  · refine .inr ⟨turned, ?_⟩
    rw [Nat.mod_eq_sub_mod turned, Nat.mod_eq_of_lt (by omega)]

theorem readableSize_eq : ring.readableSize = queue.length := by
  have length_pos := holds.length_pos
  have length_le := holds.length_le
  have readOffset_lt := holds.readOffset_lt
  rw [readableSize, holds.flag, if_neg Bool.false_ne_true]
  rcases holds.writeOffset_cases with ⟨straight, write_eq⟩ | ⟨turned, write_eq⟩
  · rw [if_pos (by omega)]
    omega
  · rw [if_neg (by omega)]
    omega

theorem writableSize_eq : ring.writableSize = ring.size - queue.length := by
  have length_pos := holds.length_pos
  have length_le := holds.length_le
  rw [writableSize, holds.flag, if_neg Bool.false_ne_true]
  rcases holds.writeOffset_cases with ⟨straight, write_eq⟩ | ⟨turned, write_eq⟩
  · rw [if_neg (by omega)]
    omega
  · rw [if_pos (by omega)]
    omega

/-- `Peek` copies the front of the queue. -/
theorem peek_eq (addressable : ring.size ≤ 2 ^ 63) (count : Nat) :
    ring.peek count = some ⟨queue.take count, min count queue.length⟩ := by
  have length_le := holds.length_le
  have readOffset_lt := holds.readOffset_lt
  have size_eq : ring.size = ring.buffer.length := rfl
  have front : queue.take count = window ring.buffer ring.readOffset (min count queue.length) := by
    conv_lhs => rw [← holds.contents, take_window]
  rw [peek, holds.readableSize_eq, front]
  generalize readLength_eq : min count queue.length = readLength
  have sum_eq : (ring.readOffset + readLength) % 2 ^ 64 = ring.readOffset + readLength :=
    Nat.mod_eq_of_lt (by omega)
  simp only [sum_eq]
  split_ifs with none_read straight
  · rw [none_read, window, List.take_zero]
  · rw [Memory.load_eq_some (by omega), window_of_straight (by omega)]
    rfl
  · rw [Memory.load_eq_some (by omega), Memory.load_eq_some (by omega),
      window_of_wrapped (by omega) (by omega) (by omega),
      List.take_of_length_le (by rw [List.length_drop]; omega)]
    rfl

end Holds

/-- The buffer holds the queue, or is flagged empty when the queue is. -/
structure Follows (ring : RingBuffer) (capacity : Nat) (queue : List UInt8) : Prop where
  size_eq : ring.size = capacity
  holds : queue ≠ [] → Holds ring queue
  drained : queue = [] → ring.empty = true

namespace Holds

variable {ring : RingBuffer} {queue : List UInt8} (holds : Holds ring queue)
include holds

theorem follows : Follows ring ring.size queue :=
  ⟨rfl, fun _ => holds, fun drained => absurd drained holds.nonempty⟩

variable (addressable : ring.size ≤ 2 ^ 63)
include addressable

/-- `Skip` drops the front of the queue. -/
theorem skip_eq (count : Nat) :
    ∃ next, ring.skip count = (min count queue.length, next) ∧
      Follows next ring.size (queue.drop count) := by
  have length_pos := holds.length_pos
  have length_le := holds.length_le
  have readOffset_lt := holds.readOffset_lt
  have sum_eq : (ring.readOffset + min count queue.length) % 2 ^ 64 =
      ring.readOffset + min count queue.length := Nat.mod_eq_of_lt (by omega)
  rw [skip, holds.readableSize_eq]
  simp only [sum_eq]
  split_ifs with none_skipped met
  · have count_eq : count = 0 := by omega
    subst count_eq
    exact ⟨ring, by rw [none_skipped], holds.follows⟩
  · refine ⟨_, rfl, ⟨rfl, fun remains => absurd ?_ remains, fun _ => rfl⟩⟩
    -- offsets that meet after a skip mean that everything was skipped
    apply List.drop_eq_nil_of_le
    rw [holds.writeOffset_eq] at met
    have whole := Nat.sub_mod_eq_zero_of_mod_eq met.symm
    rw [Nat.mod_eq_of_lt (by omega)] at whole
    omega
  · refine ⟨_, rfl, ⟨rfl, fun remains => ?_, fun drained => absurd ?_ met⟩⟩
    · have count_lt : count < queue.length := by
        by_contra all
        exact remains (List.drop_eq_nil_of_le (by omega))
      have min_eq : min count queue.length = count := by omega
      rw [min_eq]
      refine ⟨holds.flag, remains, ?_, Nat.mod_lt _ (by omega), ?_, ?_⟩
      · rw [List.length_drop]
        exact Nat.le_trans (Nat.sub_le _ _) length_le
      · change ring.writeOffset = ((ring.readOffset + count) % ring.size + _) % ring.size
        rw [List.length_drop, Nat.mod_add_mod, holds.writeOffset_eq]
        congr 1
        omega
      · conv_rhs => rw [← holds.contents, drop_window (by omega) length_le]
        rw [List.length_drop]
        rfl
    · have all := List.drop_eq_nil_iff.mp drained
      rw [Nat.min_eq_right all, holds.writeOffset_eq]

/-- `Read` is `Peek` and `Skip`. -/
theorem read_eq (count : Nat) :
    ∃ next, ring.read count = some (⟨queue.take count, min count queue.length⟩, next) ∧
      Follows next ring.size (queue.drop count) := by
  obtain ⟨next, skip_eq, follows⟩ := holds.skip_eq addressable (min count queue.length)
  have skipped : min (min count queue.length) queue.length = min count queue.length := by omega
  have dropped : queue.drop (min count queue.length) = queue.drop count := by
    rcases Nat.le_total count queue.length with part | all
    · rw [Nat.min_eq_left part]
    · rw [Nat.min_eq_right all, List.drop_length, List.drop_eq_nil_of_le all]
  rw [dropped] at follows
  rw [skipped] at skip_eq
  refine ⟨next, ?_, follows⟩
  rw [read, holds.peek_eq addressable count]
  simp only [Option.bind_eq_bind, Option.bind_some, skip_eq]
  rfl

/-- `Write` copies what there is room for behind the queue. -/
theorem write_eq (data : List UInt8) :
    ring.write data =
      some ((data.take (ring.size - queue.length)).length,
        { ring with
          buffer := copyCircular ring.buffer ring.writeOffset
            (data.take (ring.size - queue.length)) }) := by
  have size_eq : ring.size = ring.buffer.length := rfl
  have writeOffset_lt := holds.writeOffset_lt
  have taken : data.take (min data.length (ring.size - queue.length)) =
      data.take (ring.size - queue.length) := by
    rw [Nat.min_comm, ← List.take_eq_take_min]
  rw [write, holds.writableSize_eq, ← taken]
  generalize writeLength_eq : min data.length (ring.size - queue.length) = writeLength
  have length_eq : (data.take writeLength).length = writeLength := by
    rw [List.length_take]
    omega
  have sum_eq : (ring.writeOffset + writeLength) % 2 ^ 64 = ring.writeOffset + writeLength :=
    Nat.mod_eq_of_lt (by omega)
  simp only [sum_eq, length_eq]
  rcases Nat.eq_zero_or_pos writeLength with rfl | written
  · rw [if_pos rfl, List.take_zero, copyCircular_nil writeOffset_lt]
  rw [if_neg (Nat.ne_of_gt written)]
  rcases Nat.lt_or_ge (ring.writeOffset + writeLength) ring.size with straight | turned
  · rw [if_pos straight, Memory.store_eq_some (by omega), copyCircular, length_eq,
      ← size_eq, if_pos straight]
    rfl
  · have first_fits : ring.writeOffset + (data.take (ring.size - ring.writeOffset)).length ≤
        ring.buffer.length := by
      rw [List.length_take]
      omega
    have second_fits : 0 + ((data.drop (ring.size - ring.writeOffset)).take
          (writeLength - (ring.size - ring.writeOffset))).length ≤
        (Memory.copyAt ring.buffer ring.writeOffset
          (data.take (ring.size - ring.writeOffset))).length := by
      rw [Memory.length_copyAt first_fits, List.length_take, List.length_drop]
      omega
    rw [if_neg (Nat.not_lt.mpr turned), Memory.store_eq_some first_fits, Option.bind_eq_bind,
      Option.bind_some, Memory.store_eq_some second_fits, copyCircular, length_eq,
      ← size_eq, if_neg (Nat.not_lt.mpr turned), List.take_take, List.drop_take,
      Nat.min_eq_left (by omega)]
    rfl

/-- What was written lies behind the queue, which the buffer still holds. -/
theorem write_spec (data : List UInt8) :
    ∃ written, ring.write data = some ((data.take (ring.size - queue.length)).length, written) ∧
      written.size = ring.size ∧ Holds written queue ∧
      window written.buffer written.readOffset
          (queue ++ data.take (ring.size - queue.length)).length =
        queue ++ data.take (ring.size - queue.length) := by
  have length_le := holds.length_le
  have readOffset_lt := holds.readOffset_lt
  have size_eq : ring.size = ring.buffer.length := rfl
  have accepted_le : (data.take (ring.size - queue.length)).length ≤ ring.size - queue.length := by
    rw [List.length_take]
    exact Nat.min_le_left _ _
  refine ⟨_, holds.write_eq addressable data, ?_⟩
  generalize data.take (ring.size - queue.length) = accepted at accepted_le
  have array_length : size { ring with
      buffer := copyCircular ring.buffer ring.writeOffset accepted } = ring.size := by
    apply length_copyCircular
    · exact holds.writeOffset_lt
    · omega
  have extended : window (copyCircular ring.buffer ring.writeOffset accepted) ring.readOffset
      (queue ++ accepted).length = queue ++ accepted := by
    rw [List.length_append, holds.writeOffset_eq, size_eq,
      window_copyCircular (by omega) (by omega), holds.contents]
  refine ⟨array_length, ⟨holds.flag, holds.nonempty, ?_, ?_, ?_, ?_⟩, extended⟩
  · rw [array_length]
    exact length_le
  · rw [array_length]
    exact readOffset_lt
  · rw [array_length]
    exact holds.writeOffset_eq
  · have front := congrArg (List.take queue.length) extended
    rw [take_window, List.length_append, Nat.min_eq_left (Nat.le_add_right _ _),
      List.take_left] at front
    exact front

/-- `Advance` takes what lies behind the queue into it. -/
theorem advance_spec {added : List UInt8} (added_le : added.length ≤ ring.size - queue.length)
    (behind : window ring.buffer ring.readOffset (queue ++ added).length = queue ++ added) :
    ∃ next, ring.advance added.length = some next ∧ next.size = ring.size ∧
      Holds next (queue ++ added) := by
  have length_le := holds.length_le
  have writeOffset_lt := holds.writeOffset_lt
  have sum_eq : (ring.writeOffset + added.length) % 2 ^ 64 = ring.writeOffset + added.length :=
    Nat.mod_eq_of_lt (by omega)
  have advance_eq : ring.advance added.length =
      some { ring with
        writeOffset := (ring.writeOffset + added.length) % ring.size
        empty := false } := by
    rw [advance, holds.writableSize_eq, if_neg (Nat.not_lt.mpr added_le)]
    simp only [sum_eq]
    split_ifs with none_written straight
    · rw [none_written, Nat.add_zero, Nat.mod_eq_of_lt writeOffset_lt, ← holds.flag]
    · rw [Nat.mod_eq_of_lt straight]
    · have turned := Nat.not_lt.mp straight
      have second_eq : added.length - (ring.size - ring.writeOffset) =
          (ring.writeOffset + added.length) % ring.size := by
        rw [Nat.mod_eq_sub_mod turned, Nat.mod_eq_of_lt (by omega)]
        omega
      rw [second_eq]
  refine ⟨_, advance_eq, rfl, ⟨rfl, ?_, ?_, holds.readOffset_lt, ?_, behind⟩⟩
  · exact List.append_ne_nil_of_left_ne_nil holds.nonempty added
  · rw [List.length_append]
    change queue.length + added.length ≤ ring.size
    omega
  · change (ring.writeOffset + added.length) % ring.size =
      (ring.readOffset + (queue ++ added).length) % ring.size
    rw [holds.writeOffset_eq, Nat.mod_add_mod, List.length_append, Nat.add_assoc]

/-- Every call answers as the queue does and leaves a buffer that follows the queue. -/
theorem step_spec (call : Call UInt8) :
    ∃ next, ring.step call = some ((BoundedQueue.step ring.size queue call).1, next) ∧
      Follows next ring.size (BoundedQueue.step ring.size queue call).2 := by
  cases call with
  | write data =>
    obtain ⟨written, write_eq, size_eq, held, behind⟩ := holds.write_spec addressable data
    have accepted_le : (data.take (ring.size - queue.length)).length ≤
        written.size - queue.length := by
      rw [List.length_take, size_eq]
      exact Nat.min_le_left _ _
    obtain ⟨next, advance_eq, next_size, next_holds⟩ :=
      held.advance_spec (size_eq ▸ addressable) accepted_le behind
    refine ⟨next, ?_, next_size.trans size_eq, fun _ => next_holds, fun drained => ?_⟩
    · rw [step, write_eq]
      simp only [Option.bind_eq_bind, Option.bind_some, advance_eq]
      rfl
    · exact absurd drained next_holds.nonempty
  | peek count =>
    refine ⟨ring, ?_, holds.follows⟩
    rw [step, holds.peek_eq addressable count]
    rfl
  | read count => exact holds.read_eq addressable count
  | skip count =>
    obtain ⟨next, skip_eq, follows⟩ := holds.skip_eq addressable count
    refine ⟨next, ?_, follows⟩
    rw [step, skip_eq]
    rfl

theorem agrees_iff (calls : List (Call UInt8)) :
    Agrees ring queue calls ↔ NeverDrained ring.size queue calls := by
  induction calls generalizing ring queue with
  | nil => exact Iff.rfl
  | cons call calls ih =>
    obtain ⟨next, step_eq, follows⟩ := holds.step_spec addressable call
    have size_pos := Nat.lt_of_lt_of_le holds.length_pos holds.length_le
    rw [Agrees, NeverDrained, step_eq]
    generalize (BoundedQueue.step ring.size queue call).2 = later at follows ⊢
    have size_eq := follows.size_eq
    constructor
    · rintro ⟨other, same, _, writable, agrees⟩
      obtain rfl : next = other := congrArg Prod.snd (Option.some.inj same)
      have remains : later ≠ [] := by
        intro drained
        rw [writableSize, if_pos (follows.drained drained), drained] at writable
        exact absurd writable (Nat.ne_of_lt size_pos)
      have rest := (ih (follows.holds remains) (size_eq ▸ addressable)).mp agrees
      exact ⟨remains, size_eq ▸ rest⟩
    · rintro ⟨remains, rest⟩
      have held := follows.holds remains
      refine ⟨next, rfl, held.readableSize_eq, ?_, ?_⟩
      · rw [held.writableSize_eq, size_eq]
      · exact (ih held (size_eq ▸ addressable)).mpr (size_eq ▸ rest)

end Holds

theorem queues_unchanged_of_count_eq {buffer : List UInt8} (nonempty : buffer ≠ [])
    {call : Call UInt8}
    (same_count : (BoundedQueue.step buffer.length buffer call).1.count =
      (BoundedQueue.step buffer.length [] call).1.count) :
    (BoundedQueue.step buffer.length buffer call).2 = buffer ∧
      (BoundedQueue.step buffer.length [] call).2 = [] := by
  have length_pos := List.length_pos_iff.mpr nonempty
  cases call with
  | write data =>
    simp only [BoundedQueue.step, Nat.sub_self, List.take_zero, List.length_nil, Nat.sub_zero,
      List.length_take] at same_count
    have data_eq : data = [] := List.length_eq_zero_iff.mp (by omega)
    simp [BoundedQueue.step, data_eq]
  | peek count => exact ⟨rfl, rfl⟩
  | read count =>
    simp only [BoundedQueue.step, List.length_nil, Nat.min_zero] at same_count
    have count_eq : count = 0 := by omega
    simp [BoundedQueue.step, count_eq]
  | skip count =>
    simp only [BoundedQueue.step, List.length_nil, Nat.min_zero] at same_count
    have count_eq : count = 0 := by omega
    simp [BoundedQueue.step, count_eq]

theorem not_agrees_nil {buffer : List UInt8} (nonempty : buffer ≠ [])
    (addressable : buffer.length ≤ 2 ^ 63) (call : Call UInt8) (calls : List (Call UInt8)) :
    ¬ Agrees (fresh buffer) [] (call :: calls) := by
  rintro ⟨next, step_eq, readable, -⟩
  obtain ⟨follower, spec_eq, follows⟩ := (holds_fresh nonempty).step_spec addressable call
  rw [spec_eq] at step_eq
  obtain ⟨same_response, rfl⟩ := Prod.mk.inj (Option.some.inj step_eq)
  obtain ⟨full_eq, empty_eq⟩ :=
    queues_unchanged_of_count_eq nonempty (congrArg Response.count same_response)
  rw [show (fresh buffer).size = buffer.length from rfl] at follows readable
  rw [full_eq] at follows
  rw [(follows.holds nonempty).readableSize_eq, empty_eq] at readable
  exact nonempty (List.length_eq_zero_iff.mp readable)

/-- Over any array of bytes: a fresh buffer agrees with an empty queue only as long as no call is
made; it agrees with the queue of all the bytes of its array exactly as long as that queue is not
drained. -/
theorem agrees_fresh_iff (buffer : List UInt8) (nonempty : buffer ≠ [])
    (addressable : buffer.length ≤ 2 ^ 63) (calls : List (Call UInt8)) :
    (Agrees (fresh buffer) [] calls ↔ calls = []) ∧
      (Agrees (fresh buffer) buffer calls ↔ NeverDrained buffer.length buffer calls) := by
  refine ⟨⟨fun agrees => ?_, ?_⟩, (holds_fresh nonempty).agrees_iff addressable calls⟩
  · cases calls with
    | nil => rfl
    | cons call calls => exact absurd agrees (not_agrees_nil nonempty addressable call calls)
  · rintro rfl
    exact trivial

/-- A fresh buffer over four bytes is their queue, also over a write that goes around, and is not
the empty queue. -/
theorem agrees_fresh_iff_four :
    Agrees (fresh [1, 2, 3, 4]) [1, 2, 3, 4] [.skip 2, .write [5, 6, 7], .peek 3] ∧
      ¬ Agrees (fresh [1, 2, 3, 4]) [] [.peek 0] := by
  constructor
  · apply (agrees_fresh_iff [1, 2, 3, 4] (by decide) (by decide) _).2.mpr
    exact ⟨by decide, by decide, by decide, trivial⟩
  · intro agrees
    exact absurd ((agrees_fresh_iff [1, 2, 3, 4] (by decide) (by decide) _).1.mp agrees)
      (by decide)

/-- A write of one byte to a fresh buffer of one byte returns zero where a queue returns one, and
the buffer still reports one readable byte, that of its array. -/
theorem fresh_refuses_write :
    ¬ Agrees (fresh [0]) [] [.write [7]] ∧
      (fresh [0]).step (.write [7]) = some (⟨[], 0⟩, fresh [0]) ∧
      (BoundedQueue.step 1 ([] : List UInt8) (.write [7])).1 = ⟨[], 1⟩ ∧
      (fresh [0]).readableSize = 1 := by
  refine ⟨?_, by decide, by decide, by decide⟩
  rintro ⟨next, step_eq, -⟩
  have refused : (fresh [0]).step (.write [7]) = some (⟨[], 0⟩, fresh [0]) := by decide
  obtain ⟨same_response, -⟩ := Prod.mk.inj (Option.some.inj (refused.symm.trans step_eq))
  exact absurd same_response (by decide)

end RingBuffer

end Fusion.Memory
