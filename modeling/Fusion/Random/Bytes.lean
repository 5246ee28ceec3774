import Fusion.Library.Memory
import Fusion.Library.WordStream
import Fusion.Memory.Equality
import Fusion.Random.Generators

/-!
# Random bytes

`Bytes` copies whole words of a generator to a buffer while more than one word is missing, and then
the beginning of one more word.  What it leaves there is the beginning of one stream of bytes.
-/

namespace Fusion.Random

open MemoryUtil WordStream

/-! ## The overloads -/

/-- An overload of `Bytes`: a generator, whether the pointer is null, the buffer and a size give the
buffer and the generator afterwards. -/
abbrev BytesCall (σ : Type) := σ → Bool → List UInt8 → Nat → Option (List UInt8 × σ)

section Bytes

variable {σ : Type} (source : Source σ UInt8)

/-- The loop of `Bytes` and what follows it, from a place of the buffer on; `none` is a copy to
outside the buffer. -/
def bytesFrom (state : σ) (buffer : List UInt8) (start size : Nat) : Option (List UInt8 × σ) :=
  if source.width < size then do
    let (value, next) := source.draw state
    let written ← Memory.store buffer start value
    bytesFrom next written (start + source.width) (size - source.width)
  else if 0 < size then do
    let (value, next) := source.draw state
    let written ← Memory.store buffer start (value.take size)
    return (written, next)
  else return (buffer, state)
termination_by size
decreasing_by
  have := source.positive
  omega

/-- `Bytes` for the words of a generator. -/
def bytes : BytesCall σ := fun state null buffer size =>
  if null ∨ size = 0 then some (buffer, state) else bytesFrom source state buffer 0 size

end Bytes

theorem four_bytes : 0 < 4 := by decide

theorem eight_bytes : 0 < 8 := by decide

/-- The words that `Bytes` draws, as they lie in memory. -/
def XorShift32.wordSource : Source XorShift32 UInt8 where
  width := 4
  positive := four_bytes
  draw := fun self => (@objectBytes 4 self.bits32.1.toBitVec, self.bits32.2)
  length_draw := fun _ => length_objectBytes _

/-- The words that `Bytes` draws, as they lie in memory. -/
def XorShift128.wordSource : Source XorShift128 UInt8 where
  width := 8
  positive := eight_bytes
  draw := fun self => (@objectBytes 8 self.bits64.1.toBitVec, self.bits64.2)
  length_draw := fun _ => length_objectBytes _

/-- The words that `Bytes` draws, as they lie in memory. -/
def XorShift1024.wordSource : Source XorShift1024 UInt8 where
  width := 8
  positive := eight_bytes
  draw := fun self => (@objectBytes 8 self.bits64.1.toBitVec, self.bits64.2)
  length_draw := fun _ => length_objectBytes _

def XorShift32.bytes : BytesCall XorShift32 := Random.bytes wordSource

def XorShift128.bytes : BytesCall XorShift128 := Random.bytes wordSource

def XorShift1024.bytes : BytesCall XorShift1024 := Random.bytes wordSource

/-! ## The stream -/

section Stream

variable {σ : Type} (source : Source σ UInt8)

/-- The loop copies the beginning of the stream. -/
theorem bytesFrom_eq {state : σ} {buffer : List UInt8} {start size : Nat}
    (fits : start + size ≤ buffer.length) :
    bytesFrom source state buffer start size =
      some (Memory.copyAt buffer start (source.leading size state),
        source.after (source.words size) state) := by
  -- Each round takes one word from the size.
  induction size using Nat.strongRecOn generalizing state buffer start with
  | ind size ih =>
    have positive := source.positive
    have value_length := source.length_draw state
    rw [bytesFrom]
    by_cases more : source.width < size
    · obtain ⟨rest, size_eq⟩ := Nat.exists_eq_add_of_le (Nat.le_of_lt more)
      rw [Nat.add_comm] at size_eq
      subst size_eq
      have word_fits : start + (source.draw state).1.length ≤ buffer.length := by omega
      have rest_fits : start + source.width + rest ≤
          (Memory.copyAt buffer start (source.draw state).1).length := by
        rw [Memory.length_copyAt word_fits]
        omega
      have copied := @Memory.copyAt_append _ buffer (source.draw state).1
        (source.leading rest (source.draw state).2) start (by omega)
      rw [value_length] at copied
      rw [if_pos more]
      simp only [Memory.store_eq_some word_fits, Option.bind_eq_bind, Option.bind_some,
        Nat.add_sub_cancel]
      rw [ih rest (by omega) rest_fits, copied, source.leading_add_width,
        source.words_add_width, Source.after]
    · rw [if_neg more]
      by_cases some_left : 0 < size
      · have part_fits : start + ((source.draw state).1.take size).length ≤ buffer.length := by
          rw [List.length_take]
          omega
        rw [if_pos some_left]
        simp only [Memory.store_eq_some part_fits, Option.bind_eq_bind, Option.bind_some]
        rw [source.leading_of_le some_left (by omega), source.words_of_le some_left (by omega)]
        rfl
      · have none_left : size = 0 := by omega
        rw [if_neg some_left, none_left, source.leading_zero, source.words_zero, Memory.copyAt_nil]
        rfl

theorem bytes_eq {state : σ} {buffer : List UInt8} {size : Nat} (fits : size ≤ buffer.length) :
    bytes source state false buffer size =
      some (Memory.copyAt buffer 0 (source.leading size state),
        source.after (source.words size) state) := by
  rw [bytes]
  by_cases nothing : size = 0
  · rw [if_pos (.inr nothing), nothing, source.leading_zero, source.words_zero, Memory.copyAt_nil]
    rfl
  · rw [if_neg (by simp [nothing]), bytesFrom_eq source (by omega)]

end Stream

/-- A call for so many bytes leaves these at the beginning of every buffer that has room for them,
and this generator. -/
def Yields {σ : Type} (call : BytesCall σ) (state : σ) (size : Nat) (output : List UInt8)
    (next : σ) : Prop :=
  output.length = size ∧ ∀ buffer : List UInt8, size ≤ buffer.length →
    call state false buffer size = some (Memory.copyAt buffer 0 output, next)

/-- Calls of different sizes give the beginnings of one stream of bytes, with as many draws as words
are begun, and behind whole words the next call goes on with the stream.  The other overload is the
one for a generator that counts its draws. -/
structure Consistent {σ : Type} (width : Nat) (call : BytesCall σ)
    (counting : BytesCall (σ × Nat)) : Prop where
  yields : ∀ state size, ∃ output next, Yields call state size output next
  begins : ∀ state small large output next longer last, small ≤ large →
    Yields call state small output next → Yields call state large longer last → output <+: longer
  draws : ∀ state size output next, Yields call state size output next →
    Yields counting (state, 0) size output (next, (size + width - 1) / width)
  continues : ∀ state size more output next rest last, width ∣ size →
    Yields call state size output next → Yields call next more rest last →
      Yields call state (size + more) (output ++ rest) last

section Consistency

variable {σ : Type} (source : Source σ UInt8)

theorem yields_iff {state next : σ} {size : Nat} {output : List UInt8} :
    Yields (bytes source) state size output next ↔
      output = source.leading size state ∧ next = source.after (source.words size) state := by
  constructor
  · rintro ⟨output_length, leaves⟩
    have fits : size ≤ output.length := Nat.le_of_eq output_length.symm
    have left := leaves output fits
    rw [bytes_eq source fits, Option.some.injEq, Prod.mk.injEq] at left
    obtain ⟨memory_eq, next_eq⟩ := left
    have filled : ∀ bytes : List UInt8, bytes.length = output.length →
        Memory.copyAt output 0 bytes = bytes := by
      intro bytes same_length
      rw [Memory.copyAt_of_end (by omega), List.take_zero, List.nil_append]
    rw [filled _ (by rw [source.length_leading, output_length]), filled _ rfl] at memory_eq
    exact ⟨memory_eq.symm, next_eq.symm⟩
  · rintro ⟨rfl, rfl⟩
    exact ⟨source.length_leading size state, fun buffer fits => bytes_eq source fits⟩

theorem consistent : Consistent source.width (bytes source) (bytes source.counted) := by
  constructor
  · intro state size
    exact ⟨_, _, (yields_iff source).mpr ⟨rfl, rfl⟩⟩
  · intro state small large output next longer last smaller small_call large_call
    rw [((yields_iff source).mp small_call).1, ((yields_iff source).mp large_call).1,
      ← source.take_leading smaller]
    exact List.take_prefix ..
  · intro state size output next call
    obtain ⟨rfl, rfl⟩ := (yields_iff source).mp call
    refine (yields_iff source.counted).mpr ⟨(source.leading_counted size state 0).symm, ?_⟩
    refine Eq.trans ?_ (source.after_counted _ state 0).symm
    rw [Nat.zero_add]
    rfl
  · rintro state size more output next rest last ⟨count, rfl⟩ call later
    obtain ⟨rfl, rfl⟩ := (yields_iff source).mp call
    obtain ⟨rfl, rfl⟩ := (yields_iff source).mp later
    rw [Nat.mul_comm, source.words_mul_width]
    refine (yields_iff source).mpr ⟨(source.leading_mul_width_add count more state).symm, ?_⟩
    rw [source.words_mul_width_add, source.after_add]

end Consistency

/-- The bytes of each generator are one stream. -/
theorem bytes_consistent :
    Consistent 4 XorShift32.bytes (bytes XorShift32.wordSource.counted) ∧
      Consistent 8 XorShift128.bytes (bytes XorShift128.wordSource.counted) ∧
      Consistent 8 XorShift1024.bytes (bytes XorShift1024.wordSource.counted) :=
  ⟨consistent XorShift32.wordSource, consistent XorShift128.wordSource,
    consistent XorShift1024.wordSource⟩

end Fusion.Random
