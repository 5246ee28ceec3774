import Fusion.Library.Runs
import Fusion.Memory.RingBuffer

/-!
# The bounds of the ring buffer

The offsets and lengths of `RingBuffer` are machine words, whose sums and differences wrap.  Neither
happens as long as both offsets are inside the array, and no call takes them out of it.
-/

namespace Fusion.Memory

/-! ## The calls on machine words -/

/-- The size of an array of bytes, which is not empty; an object takes at most half of the
addresses. -/
structure Capacity where
  size : UInt64
  positive : 0 < size.toNat
  addressable : size.toNat ≤ 2 ^ 63

/-- The fields of `RingBuffer` apart from the bytes. -/
structure RingWords where
  size : UInt64
  readOffset : UInt64 := 0
  writeOffset : UInt64 := 0
  empty : Bool := false
deriving DecidableEq, Repr

/-- What a call does besides setting the fields: it copies bytes between positions of the array and
places of the caller's buffer, or divides. -/
inductive Effect
  | copy (position place length : UInt64)
  | divide (divisor : UInt64)
deriving DecidableEq, Repr

/-- What a call returns, what it does and the fields afterwards. -/
structure Outcome where
  returned : UInt64
  effects : List Effect
  ring : RingWords
deriving DecidableEq, Repr

/-- The calls, with the sizes that they are given. -/
inductive RingCall
  | write (count : UInt64)
  | peek (count : UInt64)
  | read (count : UInt64)
  | skip (count : UInt64)
  | advance (count : UInt64)
deriving DecidableEq, Repr

namespace RingWords

variable (ring : RingWords)

def readableSize : UInt64 :=
  if ring.empty then 0
  else if ring.readOffset < ring.writeOffset then ring.writeOffset - ring.readOffset
  else ring.size - ring.readOffset + ring.writeOffset

def writableSize : UInt64 :=
  if ring.empty then 0
  else if ring.writeOffset ≤ ring.readOffset then ring.readOffset - ring.writeOffset
  else ring.size - ring.writeOffset + ring.readOffset

/-- The copies of `Peek` and of `Write`: one, or two if the end of the array is reached. -/
def copies (offset length : UInt64) : List Effect :=
  if offset + length < ring.size then [.copy offset 0 length]
  else
    let first := ring.size - offset
    let second := length - first
    [.copy offset 0 first, .copy 0 first second]

def peek (count : UInt64) : Outcome :=
  let readLength := min count ring.readableSize
  if readLength = 0 then ⟨0, [], ring⟩
  else ⟨readLength, ring.copies ring.readOffset readLength, ring⟩

def skip (count : UInt64) : Outcome :=
  let skipCount := min count ring.readableSize
  if skipCount = 0 then ⟨0, [], ring⟩
  else
    let readOffset := (ring.readOffset + skipCount) % ring.size
    if readOffset = ring.writeOffset then
      ⟨skipCount, [.divide ring.size],
        { ring with readOffset := 0, writeOffset := 0, empty := true }⟩
    else ⟨skipCount, [.divide ring.size], { ring with readOffset }⟩

def read (count : UInt64) : Outcome :=
  let peeked := ring.peek count
  let skipped := ring.skip peeked.returned
  ⟨skipped.returned, peeked.effects ++ skipped.effects, skipped.ring⟩

def write (count : UInt64) : Outcome :=
  let writeLength := min count ring.writableSize
  if writeLength = 0 then ⟨0, [], ring⟩
  else ⟨writeLength, ring.copies ring.writeOffset writeLength, ring⟩

/-- `Advance`: `none` is a failed assertion. -/
def advance (count : UInt64) : Option Outcome :=
  if ¬ count ≤ ring.writableSize then none
  else if count = 0 then some ⟨0, [], ring⟩
  else if ring.writeOffset + count < ring.size then
    some ⟨count, [], { ring with writeOffset := ring.writeOffset + count, empty := false }⟩
  else
    let firstWrite := ring.size - ring.writeOffset
    let secondWrite := count - firstWrite
    some ⟨secondWrite, [], { ring with writeOffset := secondWrite, empty := false }⟩

def perform : RingCall → Option Outcome
  | .write count => some (ring.write count)
  | .peek count => some (ring.peek count)
  | .read count => some (ring.read count)
  | .skip count => some (ring.skip count)
  | .advance count => ring.advance count

def step (call : RingCall) : Option RingWords := (ring.perform call).map Outcome.ring

end RingWords

/-- The number of bytes that the caller states. -/
def RingCall.count : RingCall → UInt64
  | .write count | .peek count | .read count | .skip count | .advance count => count

/-- An effect that stays inside an array of the size and a caller's buffer of so many bytes. -/
def Effect.Within (size count : UInt64) : Effect → Prop
  | .copy position place length =>
    position.toNat + length.toNat ≤ size.toNat ∧ place.toNat + length.toNat ≤ count.toNat
  | .divide divisor => divisor ≠ 0

/-! ## The bounds -/

theorem toNat_add_of_lt {a b : UInt64} (fits : a.toNat + b.toNat < 2 ^ 64) :
    (a + b).toNat = a.toNat + b.toNat := by
  rw [UInt64.toNat_add, Nat.mod_eq_of_lt fits]

theorem toNat_sub_of_le {a b : UInt64} (ordered : b.toNat ≤ a.toNat) :
    (a - b).toNat = a.toNat - b.toNat :=
  UInt64.toNat_sub_of_le _ _ (UInt64.le_iff_toNat_le.mpr ordered)

variable {count : UInt64} {outcome : Outcome}

namespace RingWords

/-- Both offsets are inside the array. -/
structure InBounds (capacity : Capacity) (ring : RingWords) : Prop where
  size_eq : ring.size = capacity.size
  readOffset_lt : ring.readOffset.toNat < ring.size.toNat
  writeOffset_lt : ring.writeOffset.toNat < ring.size.toNat

namespace InBounds

variable {capacity : Capacity} {ring : RingWords}

section

variable (inBounds : InBounds capacity ring)
include inBounds

theorem addressable : ring.size.toNat ≤ 2 ^ 63 :=
  inBounds.size_eq ▸ capacity.addressable

theorem size_ne_zero : ring.size ≠ 0 := by
  intro none
  have inside := inBounds.readOffset_lt
  rw [none] at inside
  exact Nat.not_lt_zero _ inside

theorem toNat_readableSize :
    ring.readableSize.toNat =
      if ring.empty then 0
      else if ring.readOffset.toNat < ring.writeOffset.toNat then
        ring.writeOffset.toNat - ring.readOffset.toNat
      else ring.size.toNat - ring.readOffset.toNat + ring.writeOffset.toNat := by
  have addressable := inBounds.addressable
  have readOffset_lt := inBounds.readOffset_lt
  simp only [readableSize, UInt64.lt_iff_toNat_lt]
  split_ifs with empty ahead
  · rfl
  · exact toNat_sub_of_le (by omega)
  · have rest_eq := toNat_sub_of_le (Nat.le_of_lt readOffset_lt)
    rw [toNat_add_of_lt (by omega), rest_eq]

theorem toNat_writableSize :
    ring.writableSize.toNat =
      if ring.empty then 0
      else if ring.writeOffset.toNat ≤ ring.readOffset.toNat then
        ring.readOffset.toNat - ring.writeOffset.toNat
      else ring.size.toNat - ring.writeOffset.toNat + ring.readOffset.toNat := by
  have addressable := inBounds.addressable
  have writeOffset_lt := inBounds.writeOffset_lt
  simp only [writableSize, UInt64.le_iff_toNat_le]
  split_ifs with empty behind
  · rfl
  · exact toNat_sub_of_le (by omega)
  · have rest_eq := toNat_sub_of_le (Nat.le_of_lt writeOffset_lt)
    rw [toNat_add_of_lt (by omega), rest_eq]

theorem readableSize_le : ring.readableSize.toNat ≤ ring.size.toNat := by
  have readOffset_lt := inBounds.readOffset_lt
  have writeOffset_lt := inBounds.writeOffset_lt
  rw [inBounds.toNat_readableSize]
  split_ifs <;> omega

theorem writableSize_le : ring.writableSize.toNat ≤ ring.size.toNat := by
  have readOffset_lt := inBounds.readOffset_lt
  have writeOffset_lt := inBounds.writeOffset_lt
  rw [inBounds.toNat_writableSize]
  split_ifs <;> omega

theorem copies_within {offset length : UInt64} (inside : offset.toNat < ring.size.toNat)
    (length_le : length.toNat ≤ ring.size.toNat) (stated : length.toNat ≤ count.toNat) :
    ∀ effect ∈ ring.copies offset length, effect.Within ring.size count := by
  have addressable := inBounds.addressable
  have zero_eq : (0 : UInt64).toNat = 0 := rfl
  have sum_eq : (offset + length).toNat = offset.toNat + length.toNat :=
    toNat_add_of_lt (by omega)
  intro effect effect_mem
  simp only [copies, UInt64.lt_iff_toNat_lt, sum_eq] at effect_mem
  split_ifs at effect_mem with straight
  · obtain rfl := List.mem_singleton.mp effect_mem
    exact ⟨Nat.le_of_lt straight, by omega⟩
  · have first_eq : (ring.size - offset).toNat = ring.size.toNat - offset.toNat :=
      toNat_sub_of_le (Nat.le_of_lt inside)
    have second_eq : (length - (ring.size - offset)).toNat =
        length.toNat - (ring.size - offset).toNat := toNat_sub_of_le (by omega)
    rcases List.mem_cons.mp effect_mem with rfl | second_mem
    · exact ⟨by omega, by omega⟩
    · obtain rfl := List.mem_singleton.mp second_mem
      exact ⟨by omega, by omega⟩

end

/-! ## One call -/

/-- The offsets stay inside the array, and so does what the call does. -/
def Keeps (capacity : Capacity) (count : UInt64) (outcome : Outcome) : Prop :=
  InBounds capacity outcome.ring ∧ ∀ effect ∈ outcome.effects, effect.Within capacity.size count

variable (inBounds : InBounds capacity ring)
include inBounds

theorem keeps_nothing (count : UInt64) : Keeps capacity count ⟨0, [], ring⟩ :=
  ⟨inBounds, List.forall_mem_nil _⟩

theorem keeps_copies {offset available : UInt64} (inside : offset.toNat < ring.size.toNat)
    (available_le : available.toNat ≤ ring.size.toNat) (count : UInt64) :
    Keeps capacity count
      (if min count available = 0 then ⟨0, [], ring⟩
      else ⟨min count available, ring.copies offset (min count available), ring⟩) := by
  have min_eq := UInt64.toNat_min count available
  split_ifs
  · exact inBounds.keeps_nothing count
  · refine ⟨inBounds, ?_⟩
    rw [← inBounds.size_eq]
    exact inBounds.copies_within inside (by omega) (by omega)

theorem keeps_peek (count : UInt64) : Keeps capacity count (ring.peek count) := by
  rw [peek]
  exact inBounds.keeps_copies inBounds.readOffset_lt inBounds.readableSize_le count

theorem keeps_write (count : UInt64) : Keeps capacity count (ring.write count) := by
  rw [write]
  exact inBounds.keeps_copies inBounds.writeOffset_lt inBounds.writableSize_le count

/-- `Skip` copies nothing, whatever the caller states. -/
theorem keeps_skip (count skipped : UInt64) : Keeps capacity count (ring.skip skipped) := by
  have divided : ∀ effect ∈ [Effect.divide ring.size], effect.Within capacity.size count := by
    intro effect effect_mem
    obtain rfl := List.mem_singleton.mp effect_mem
    exact inBounds.size_ne_zero
  have positive : 0 < ring.size.toNat := Nat.zero_lt_of_lt inBounds.readOffset_lt
  simp only [skip]
  split_ifs with nothing met
  · exact inBounds.keeps_nothing count
  · exact ⟨⟨inBounds.size_eq, positive, positive⟩, divided⟩
  · refine ⟨⟨inBounds.size_eq, ?_, inBounds.writeOffset_lt⟩, divided⟩
    show ((ring.readOffset + _) % ring.size).toNat < ring.size.toNat
    rw [UInt64.toNat_mod]
    exact Nat.mod_lt _ positive

theorem keeps_read (count : UInt64) : Keeps capacity count (ring.read count) := by
  obtain ⟨-, peeked⟩ := inBounds.keeps_peek count
  obtain ⟨kept, skipped⟩ := inBounds.keeps_skip count (ring.peek count).returned
  rw [read]
  exact ⟨kept, List.forall_mem_append.mpr ⟨peeked, skipped⟩⟩

/-- `Advance` over no more than what is writable does not pass the read offset. -/
theorem keeps_advance (advanced : ring.advance count = some outcome) :
    Keeps capacity count outcome := by
  have addressable := inBounds.addressable
  have readOffset_lt := inBounds.readOffset_lt
  have writeOffset_lt := inBounds.writeOffset_lt
  have writable_le := inBounds.writableSize_le
  have writable_eq := inBounds.toNat_writableSize
  simp only [advance, UInt64.le_iff_toNat_le, UInt64.lt_iff_toNat_lt] at advanced
  split_ifs at advanced with allowed nothing straight
  · obtain rfl := Option.some.inj advanced
    exact inBounds.keeps_nothing count
  · obtain rfl := Option.some.inj advanced
    exact ⟨⟨inBounds.size_eq, readOffset_lt, straight⟩, List.forall_mem_nil _⟩
  · obtain rfl := Option.some.inj advanced
    refine ⟨⟨inBounds.size_eq, readOffset_lt, ?_⟩, List.forall_mem_nil _⟩
    show (count - (ring.size - ring.writeOffset)).toNat < ring.size.toNat
    have sum_eq : (ring.writeOffset + count).toNat = ring.writeOffset.toNat + count.toNat :=
      toNat_add_of_lt (by omega)
    have first_eq := toNat_sub_of_le (Nat.le_of_lt writeOffset_lt)
    rw [toNat_sub_of_le (by omega), first_eq]
    split_ifs at writable_eq with empty behind <;> omega

theorem keeps_perform {call : RingCall} (performed : ring.perform call = some outcome) :
    Keeps capacity call.count outcome := by
  cases call with
  | write count => exact Option.some.inj performed ▸ inBounds.keeps_write count
  | peek count => exact Option.some.inj performed ▸ inBounds.keeps_peek count
  | read count => exact Option.some.inj performed ▸ inBounds.keeps_read count
  | skip count => exact Option.some.inj performed ▸ inBounds.keeps_skip count count
  | advance count => exact inBounds.keeps_advance performed

end InBounds

/-! ## Every sequence of calls -/

/-- The constructors leave the offsets and the flag at their initialisers. -/
def fresh (capacity : Capacity) : RingWords := { size := capacity.size }

theorem inBounds_fresh (capacity : Capacity) : InBounds capacity (fresh capacity) :=
  ⟨rfl, capacity.positive, capacity.positive⟩

theorem inBounds_of_run {capacity : Capacity} {calls : List RingCall} {ring : RingWords}
    (execution : Runs.run step (fresh capacity) calls = some ring) : InBounds capacity ring := by
  refine Runs.Reachable.invariant (inBounds_fresh capacity) ?_ ⟨calls, execution⟩
  intro before call after inBounds stepped
  obtain ⟨outcome, performed, rfl⟩ := Option.map_eq_some_iff.mp stepped
  exact (inBounds.keeps_perform performed).1

end RingWords

/-- Whatever the calls: the offsets are below the size of the array, the two sizes are at most it,
and the next call copies inside the array and inside what its caller states, and does not divide by
zero. -/
theorem ringWords_inBounds (capacity : Capacity) (calls : List RingCall) (ring : RingWords)
    (execution : Runs.run RingWords.step (RingWords.fresh capacity) calls = some ring) :
    ring.readOffset < capacity.size ∧ ring.writeOffset < capacity.size ∧
      ring.readableSize ≤ capacity.size ∧ ring.writableSize ≤ capacity.size ∧
      ∀ call outcome, ring.perform call = some outcome →
        ∀ effect ∈ outcome.effects, effect.Within capacity.size call.count := by
  have inBounds := RingWords.inBounds_of_run execution
  have size_eq := inBounds.size_eq
  simp only [UInt64.lt_iff_toNat_lt, UInt64.le_iff_toNat_le, ← size_eq]
  exact ⟨inBounds.readOffset_lt, inBounds.writeOffset_lt, inBounds.readableSize_le,
    inBounds.writableSize_le, fun call outcome performed =>
      size_eq ▸ (inBounds.keeps_perform performed).2⟩

/-- Five bytes: a part is read, written again and passed, so that the copies wrap. -/
theorem ringWords_inBounds_five :
    ∃ (capacity : Capacity) (ring : RingWords),
      Runs.run RingWords.step (RingWords.fresh capacity)
          [.read 4, .write 9, .advance 3, .peek 5] = some ring ∧
        ring.readOffset < capacity.size ∧ ring.writeOffset < capacity.size ∧
        ring.readableSize ≤ capacity.size ∧ ring.writableSize ≤ capacity.size ∧
        ∀ call outcome, ring.perform call = some outcome →
          ∀ effect ∈ outcome.effects, effect.Within capacity.size call.count := by
  have execution : Runs.run RingWords.step
      (RingWords.fresh ⟨5, by decide, by decide⟩) [.read 4, .write 9, .advance 3, .peek 5] =
        some ⟨5, 4, 3, false⟩ := by
    decide
  exact ⟨_, _, execution, ringWords_inBounds _ _ _ execution⟩

/-! ## The buffer with its bytes -/

/-- The fields are those of a buffer with bytes. -/
structure RingWords.Represents (ring : RingWords) (bytes : RingBuffer) : Prop where
  size_eq : ring.size.toNat = bytes.size
  readOffset_eq : ring.readOffset.toNat = bytes.readOffset
  writeOffset_eq : ring.writeOffset.toNat = bytes.writeOffset
  empty_eq : ring.empty = bytes.empty

/-- A call on a buffer with bytes; a write gets them from its caller. -/
def RingBuffer.perform (bytes : RingBuffer) (given : List UInt8) : RingCall → Option RingBuffer
  | .write _ => (bytes.write given).map Prod.snd
  | .peek count => (bytes.peek count.toNat).map fun _ => bytes
  | .read count => (bytes.read count.toNat).map Prod.snd
  | .skip count => some (bytes.skip count.toNat).2
  | .advance count => bytes.advance count.toNat

namespace RingWords

variable {capacity : Capacity} {ring : RingWords} {bytes : RingBuffer}
  (represents : Represents ring bytes)
include represents

section

variable (inBounds : InBounds capacity ring)
include inBounds

theorem Represents.readableSize_eq : ring.readableSize.toNat = bytes.readableSize := by
  rw [inBounds.toNat_readableSize, RingBuffer.readableSize, represents.size_eq,
    represents.readOffset_eq, represents.writeOffset_eq, represents.empty_eq]

theorem Represents.writableSize_eq : ring.writableSize.toNat = bytes.writableSize := by
  rw [inBounds.toNat_writableSize, RingBuffer.writableSize, represents.size_eq,
    represents.readOffset_eq, represents.writeOffset_eq, represents.empty_eq]

theorem Represents.toNat_min_readableSize (count : UInt64) :
    (min count ring.readableSize).toNat = min count.toNat bytes.readableSize := by
  rw [UInt64.toNat_min, represents.readableSize_eq inBounds]

theorem Represents.bounds :
    bytes.readOffset < bytes.buffer.length ∧ bytes.writeOffset < bytes.buffer.length ∧
      bytes.buffer.length ≤ 2 ^ 63 ∧ bytes.readableSize ≤ bytes.buffer.length ∧
      bytes.writableSize ≤ bytes.buffer.length := by
  have size_eq : ring.size.toNat = bytes.buffer.length := represents.size_eq
  rw [← represents.readableSize_eq inBounds, ← represents.writableSize_eq inBounds,
    ← represents.readOffset_eq, ← represents.writeOffset_eq, ← size_eq]
  exact ⟨inBounds.readOffset_lt, inBounds.writeOffset_lt, inBounds.addressable,
    inBounds.readableSize_le, inBounds.writableSize_le⟩

/-- `Peek` finds its bytes in the array. -/
theorem Represents.peek (count : UInt64) :
    ∃ response, bytes.peek count.toNat = some response ∧
      response.count = (ring.peek count).returned.toNat := by
  obtain ⟨read_lt, -, addressable, readable_le, -⟩ := represents.bounds inBounds
  have length_eq := represents.toNat_min_readableSize inBounds count
  have size_eq : bytes.size = bytes.buffer.length := rfl
  have sum_eq : (bytes.readOffset + min count.toNat bytes.readableSize) % 2 ^ 64 =
      bytes.readOffset + min count.toNat bytes.readableSize := Nat.mod_eq_of_lt (by omega)
  simp only [RingBuffer.peek, RingWords.peek, ← UInt64.toNat_inj, length_eq, UInt64.toNat_zero,
    sum_eq]
  split_ifs with nothing straight
  · exact ⟨_, rfl, rfl⟩
  · rw [Memory.load_eq_some (by omega)]
    exact ⟨_, rfl, length_eq.symm⟩
  · rw [Memory.load_eq_some (by omega), Memory.load_eq_some (by omega)]
    exact ⟨_, rfl, length_eq.symm⟩

theorem Represents.skip (count : UInt64) :
    Represents (ring.skip count).ring (bytes.skip count.toNat).2 := by
  have length_eq := represents.toNat_min_readableSize inBounds count
  have offset_eq : ((ring.readOffset + min count ring.readableSize) % ring.size).toNat =
      (bytes.readOffset + min count.toNat bytes.readableSize) % 2 ^ 64 % bytes.size := by
    rw [UInt64.toNat_mod, UInt64.toNat_add, length_eq, represents.readOffset_eq, represents.size_eq]
  simp only [RingBuffer.skip, RingWords.skip, ← UInt64.toNat_inj, length_eq, offset_eq,
    UInt64.toNat_zero, represents.writeOffset_eq]
  split_ifs with nothing met
  · exact represents
  · exact ⟨represents.size_eq, rfl, rfl, rfl⟩
  · exact ⟨represents.size_eq, offset_eq, represents.writeOffset_eq, represents.empty_eq⟩

end

theorem Represents.with_buffer {buffer : List UInt8}
    (same_length : buffer.length = bytes.buffer.length) : Represents ring { bytes with buffer } :=
  ⟨represents.size_eq.trans same_length.symm, represents.readOffset_eq, represents.writeOffset_eq,
    represents.empty_eq⟩

variable (inBounds : InBounds capacity ring)
include inBounds

/-- `Write` finds room for its bytes in the array. -/
theorem Represents.write (count : UInt64) (given : List UInt8) :
    ∃ next, (bytes.write given).map Prod.snd = some next ∧
      Represents (ring.write count).ring next := by
  obtain ⟨-, write_lt, addressable, -, writable_le⟩ := represents.bounds inBounds
  have size_eq : bytes.size = bytes.buffer.length := rfl
  have sum_eq : (bytes.writeOffset + min given.length bytes.writableSize) % 2 ^ 64 =
      bytes.writeOffset + min given.length bytes.writableSize := Nat.mod_eq_of_lt (by omega)
  have ring_eq : (ring.write count).ring = ring := by
    rw [RingWords.write]
    split_ifs <;> rfl
  rw [ring_eq]
  simp only [RingBuffer.write, sum_eq]
  split_ifs with nothing straight
  · exact ⟨bytes, rfl, represents⟩
  · have fits : bytes.writeOffset +
        (given.take (min given.length bytes.writableSize)).length ≤ bytes.buffer.length := by
      rw [List.length_take]
      omega
    rw [Memory.store_eq_some fits]
    exact ⟨_, rfl, represents.with_buffer (Memory.length_copyAt fits)⟩
  · have first_fits : bytes.writeOffset +
        (given.take (bytes.size - bytes.writeOffset)).length ≤ bytes.buffer.length := by
      rw [List.length_take]
      omega
    have first_length := Memory.length_copyAt first_fits
    have second_fits : 0 + ((given.drop (bytes.size - bytes.writeOffset)).take
          (min given.length bytes.writableSize - (bytes.size - bytes.writeOffset))).length ≤
        (Memory.copyAt bytes.buffer bytes.writeOffset
          (given.take (bytes.size - bytes.writeOffset))).length := by
      rw [first_length, List.length_take]
      omega
    have second_length := Memory.length_copyAt second_fits
    rw [Memory.store_eq_some first_fits]
    simp only [Option.bind_eq_bind, Option.bind_some, Memory.store_eq_some second_fits]
    exact ⟨_, rfl, represents.with_buffer (second_length.trans first_length)⟩

theorem Represents.advance (advanced : ring.advance count = some outcome) :
    ∃ next, bytes.advance count.toNat = some next ∧ Represents outcome.ring next := by
  obtain ⟨-, write_lt, addressable, -, writable_le⟩ := represents.bounds inBounds
  have size_eq : bytes.size = bytes.buffer.length := rfl
  have sum_eq : (ring.writeOffset + count).toNat = (bytes.writeOffset + count.toNat) % 2 ^ 64 := by
    rw [UInt64.toNat_add, represents.writeOffset_eq]
  simp only [RingWords.advance, UInt64.le_iff_toNat_le, UInt64.lt_iff_toNat_lt,
    ← UInt64.toNat_inj, UInt64.toNat_zero, sum_eq, represents.writableSize_eq inBounds,
    represents.size_eq, Nat.not_le] at advanced
  simp only [RingBuffer.advance]
  split_ifs at advanced ⊢ with beyond nothing straight
  · obtain rfl := Option.some.inj advanced
    exact ⟨bytes, rfl, represents⟩
  · obtain rfl := Option.some.inj advanced
    exact ⟨_, rfl, represents.size_eq, represents.readOffset_eq, sum_eq, rfl⟩
  · obtain rfl := Option.some.inj advanced
    refine ⟨_, rfl, represents.size_eq, represents.readOffset_eq, ?_, rfl⟩
    show (count - (ring.size - ring.writeOffset)).toNat =
      count.toNat - (bytes.size - bytes.writeOffset)
    have first_eq := toNat_sub_of_le (Nat.le_of_lt inBounds.writeOffset_lt)
    rw [represents.size_eq, represents.writeOffset_eq] at first_eq
    rw [toNat_sub_of_le (by omega), first_eq]

theorem Represents.perform {call : RingCall} (performed : ring.perform call = some outcome)
    (given : List UInt8) :
    ∃ next, bytes.perform given call = some next ∧ Represents outcome.ring next := by
  cases call with
  | write count => exact Option.some.inj performed ▸ represents.write inBounds count given
  | peek count =>
    obtain ⟨response, peeked, -⟩ := represents.peek inBounds count
    have ring_eq : (ring.peek count).ring = ring := by
      rw [RingWords.peek]
      split_ifs <;> rfl
    obtain rfl := Option.some.inj performed
    exact ⟨bytes, by rw [RingBuffer.perform, peeked]; rfl, ring_eq.symm ▸ represents⟩
  | read count =>
    obtain ⟨response, peeked, count_eq⟩ := represents.peek inBounds count
    obtain rfl := Option.some.inj performed
    rw [RingWords.read]
    refine ⟨_, ?_, represents.skip inBounds (ring.peek count).returned⟩
    rw [RingBuffer.perform, RingBuffer.read, peeked, ← count_eq]
    rfl
  | skip count =>
    exact Option.some.inj performed ▸ ⟨_, rfl, represents.skip inBounds count⟩
  | advance count => exact represents.advance inBounds performed

end RingWords

end Fusion.Memory
