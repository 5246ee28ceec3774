import Fusion.Hash.HMAC

/-!
# What `Finish` leaves behind

`Finish` pads inside the block buffer and restores the digest words.  The padding starts behind the
bytes that wait, so nothing that a later call reads has changed.
-/

namespace Fusion.MDHash

/-- The calls of the interface after `Reset`. -/
inductive Call
  | process (chunk : List UInt8)
  | finish (digest : List UInt8)

def call {algorithm : Algorithm} (hasher : MDHash algorithm) : Call → MDHash algorithm
  | .process chunk => process hasher chunk
  | .finish digest => (finish hasher digest).1

/-- The hasher after some calls. -/
def afterCalls (algorithm : Algorithm) (calls : List Call) : MDHash algorithm :=
  calls.foldl call (reset algorithm)

variable {algorithm : Algorithm}

theorem take_paddedBlocks (hasher : MDHash algorithm) :
    (paddedBlocks hasher).1.take hasher.bufferSize = hasher.pending := by
  have short := hasher.bufferSize_lt
  have cleared : (hasher.pending ++ 128 :: List.replicate (63 - hasher.bufferSize) 0).take
      hasher.bufferSize = hasher.pending := List.take_left' (length_pending hasher)
  simp only [paddedBlocks, if_pos short, fillFrom_set_eq, padding_eq short]
  split
  · -- The length is written at place 56, which is not before the end of the bytes that wait.
    split
    · rw [Memory.take_copyAt_of_le, cleared]
      · omega
      · rw [List.length_append, length_pending, List.length_cons, List.length_replicate]
        omega
    · omega
  · exact cleared

theorem pending_finish (hasher : MDHash algorithm) (digest : List UInt8) :
    (finish hasher digest).1.pending = hasher.pending := by
  rw [finish_eq]
  exact take_paddedBlocks hasher

/-- What `Finish` returns depends on the folded blocks and the waiting bytes only. -/
theorem finish_snd_congr {left right : MDHash algorithm}
    (chaining_eq : left.chaining = right.chaining) (pending_eq : left.pending = right.pending)
    (digest : List UInt8) : (finish left digest).2 = (finish right digest).2 := by
  simp only [finish_eq, processBuffer_eq_of_pending_eq chaining_eq pending_eq]

/-- The digest that `Finish` leaves in a buffer does not depend on what was there. -/
theorem take_finish_snd (type : MdHashType) (hasher : MDHash type.algorithm) {digest : List UInt8}
    {count : Nat} (inside : count ≤ type.length) (room : count ≤ digest.length) :
    (finish hasher digest).2.take count =
      ((processBuffer hasher).digest.toList.flatMap type.algorithm.wordBytes).take count := by
  have whole := type.length_flatMap_wordBytes (processBuffer hasher).digest
  rw [finish_eq_take_append rfl whole, List.take_append_of_le_length, List.take_take,
    Nat.min_eq_left room]
  rw [List.length_take, whole, type.four_mul_words]
  exact Nat.le_min.mpr ⟨room, inside⟩

/-- `Finish` keeps everything that a later call depends on.  A second call leaves in a buffer what
the first would have left there, and the bytes of the digest are those of the first call. -/
theorem finish_only_looks (type : MdHashType) (calls : List Call) (digest again : List UInt8) :
    let hasher := afterCalls type.algorithm calls
    let finished := (finish hasher digest).1
    hasher.bufferSize < 64 ∧ finished.digest = hasher.digest ∧ finished.size = hasher.size ∧
      finished.bufferSize = hasher.bufferSize ∧
      finished.buffer.take hasher.bufferSize = hasher.buffer.take hasher.bufferSize ∧
      (finish finished again).2 = (finish hasher again).2 ∧
      ∀ count ≤ type.length, count ≤ digest.length → count ≤ again.length →
        (finish finished again).2.take count = (finish hasher digest).2.take count := by
  intro hasher finished
  have pending_eq : finished.pending = hasher.pending := pending_finish hasher digest
  have finished_eq : finished.digest = hasher.digest ∧ finished.size = hasher.size ∧
      finished.bufferSize = hasher.bufferSize := by
    simp only [finished, finish_eq, and_self]
  obtain ⟨digest_eq, size_eq, bufferSize_eq⟩ := finished_eq
  have chaining_eq : finished.chaining = hasher.chaining := Prod.ext digest_eq size_eq
  have again_eq := finish_snd_congr chaining_eq pending_eq again
  have kept : finished.buffer.take hasher.bufferSize = hasher.buffer.take hasher.bufferSize := by
    rw [← bufferSize_eq]
    exact pending_eq.trans (by rw [pending, bufferSize_eq])
  refine ⟨hasher.bufferSize_lt, digest_eq, size_eq, bufferSize_eq, kept, again_eq, ?_⟩
  intro count inside digest_room again_room
  rw [again_eq, take_finish_snd type hasher inside again_room,
    take_finish_snd type hasher inside digest_room]

end Fusion.MDHash
