import Fusion.Hash.Streaming
import Fusion.Library.MerkleDamgard
import Mathlib.Algebra.Group.Nat.Defs

/-!
# The buffered hasher as an iterated hash function

`ProcessBuffer` pads the buffer in place and spills into an extra block where the length field
does not fit.  With the block function, the initial digest and the byte order of an iterated hash
function, `Reset`, one `Process` and `Finish` produce its digest.
-/

namespace Fusion
variable {algorithm : Algorithm}

namespace MDHash

/-- The bit count that `ProcessBuffer` stores. -/
def msgBits {algorithm : Algorithm} (hasher : MDHash algorithm) : UInt64 :=
  8 * (hasher.size + UInt64.ofNat hasher.bufferSize)

theorem processBuffer_of_lt (hasher : MDHash algorithm) (fits : hasher.bufferSize < 56) :
    (processBuffer hasher).digest =
      algorithm.processBlock hasher.digest
        (hasher.pending ++ (128 :: List.replicate (55 - hasher.bufferSize) 0 ++
          algorithm.lengthBytes hasher.msgBits)) := by
  have short := hasher.bufferSize_lt
  have cleared : hasher.pending ++ 128 :: List.replicate (63 - hasher.bufferSize) 0 =
      (hasher.pending ++ 128 :: List.replicate (55 - hasher.bufferSize) 0) ++
        List.replicate 8 0 := by
    rw [show 63 - hasher.bufferSize = 55 - hasher.bufferSize + 8 by omega, List.replicate_add]
    simp
  have front_length :
      (hasher.pending ++ 128 :: List.replicate (55 - hasher.bufferSize) 0).length = 56 := by
    simp only [List.length_append, length_pending, List.length_cons, List.length_replicate]
    omega
  simp only [digest_processBuffer, paddedBlocks, if_pos short, padding_eq short, if_pos fits,
    fillFrom_set_eq]
  rw [if_neg (by decide), if_pos (by decide), cleared, Memory.copyAt_of_end,
    List.take_left' front_length, msgBits, List.append_assoc]
  rw [algorithm.length_lengthBytes, List.length_append, front_length, List.length_replicate]

theorem processBuffer_of_le (hasher : MDHash algorithm) (spills : 56 ≤ hasher.bufferSize) :
    (processBuffer hasher).digest =
      algorithm.processBlock
        (algorithm.processBlock hasher.digest
          (hasher.pending ++ 128 :: List.replicate (63 - hasher.bufferSize) 0))
        (List.replicate 56 0 ++ algorithm.lengthBytes hasher.msgBits) := by
  have short := hasher.bufferSize_lt
  simp only [digest_processBuffer, paddedBlocks, if_pos short, padding_eq short,
    if_neg (Nat.not_lt.mpr spills), fillFrom_set_eq]
  rw [if_pos (by decide), if_neg (by decide), Memory.copyAt_of_end, msgBits]
  · rfl
  · rw [algorithm.length_lengthBytes, List.length_replicate]

/-- After one `Process` call from `Reset` the hasher has counted every byte. -/
theorem msgBits_process_reset (algorithm : Algorithm) (message : List UInt8) :
    (process (reset algorithm) message).msgBits = 8 * UInt64.ofNat message.length := by
  have taken := process_absorbed (reset algorithm) message (.inl rfl)
  have counted : ((absorbed (reset algorithm) message).1).2 +
      UInt64.ofNat (absorbed (reset algorithm) message).2.length = UInt64.ofNat message.length := by
    refine @Blocks.absorb_invariant _ _ 64 (absorbBlock algorithm)
      (fun state rest => state.2 + UInt64.ofNat rest.length = UInt64.ofNat message.length)
      ?_ _ _ ?_
    · intro state word long counted
      rw [← counted, absorbBlock, List.length_drop, UInt64.add_assoc]
      congr 1
      rw [show (64 : UInt64) = UInt64.ofNat 64 from rfl, ← UInt64.ofNat_add]
      congr 1
      omega
    · simp [chaining, pending, reset]
  rw [← taken] at counted
  rw [msgBits, ← counted, length_pending]
  rfl

end MDHash

/-- The specialization supplies the parts of the iterated hash function. -/
structure Algorithm.Implements (algorithm : Algorithm)
    (hash : MerkleDamgard (Vector UInt32 algorithm.words)) : Prop where
  initialDigest_eq : algorithm.initialDigest = hash.initial
  processBlock_eq : algorithm.processBlock = hash.compress
  lengthBytes_eq : ∀ bits, algorithm.lengthBytes bits = hash.encode bits.toNat
  wordBytes_eq : ∀ digest : Vector UInt32 algorithm.words,
    digest.toList.flatMap algorithm.wordBytes = hash.output digest
  length_output : ∀ digest, (hash.output digest).length = 4 * algorithm.words

namespace MDHash

/-- What one `Process` call from `Reset` leaves is the absorption of the message. -/
theorem process_reset_absorb (algorithm : Algorithm) (message : List UInt8) :
    Blocks.absorb 64 algorithm.processBlock algorithm.initialDigest message =
      ((process (reset algorithm) message).digest,
        (process (reset algorithm) message).pending) := by
  have taken := process_absorbed (reset algorithm) message (.inl rfl)
  have digest_absorbed := @Blocks.absorb_map _ _ _ 64 (absorbBlock algorithm)
    algorithm.processBlock Prod.fst (fun _ _ => rfl) (reset algorithm).chaining message
  rw [show Blocks.absorb 64 (absorbBlock algorithm) (reset algorithm).chaining message =
    absorbed (reset algorithm) message from rfl, ← taken] at digest_absorbed
  exact digest_absorbed

variable {hash : MerkleDamgard (Vector UInt32 algorithm.words)} {message : List UInt8}

/-- `ProcessBuffer` folds the trailer of the message. -/
theorem processBuffer_process_reset (implements : algorithm.Implements hash)
    (short : message.length < 2 ^ 61) :
    (processBuffer (process (reset algorithm) message)).digest =
      (Blocks.absorb 64 hash.compress hash.initial (message ++ hash.trailer message.length)).1 := by
  have absorbed := process_reset_absorb algorithm message
  have bits : algorithm.lengthBytes (process (reset algorithm) message).msgBits =
      hash.encode (8 * message.length) := by
    rw [implements.lengthBytes_eq, msgBits_process_reset]
    congr 1
    rw [UInt64.toNat_mul, UInt64.toNat_ofNat']
    change 8 * (message.length % 2 ^ 64) % 2 ^ 64 = 8 * message.length
    omega
  have filled : (process (reset algorithm) message).bufferSize = message.length % 64 := by
    rw [← length_pending, ← show _ = (process (reset algorithm) message).pending from
      congrArg Prod.snd absorbed]
    exact Blocks.length_absorb _ _ _ (by decide)
  have pending_length := length_pending (process (reset algorithm) message)
  rw [Blocks.absorb_append _ _ _ _ (by decide), ← implements.processBlock_eq,
    ← implements.initialDigest_eq, absorbed]
  by_cases fits : message.length % 64 < 56
  · have block_length : ((process (reset algorithm) message).pending ++
        (128 :: List.replicate (55 - message.length % 64) 0 ++
          hash.encode (8 * message.length))).length = 64 := by
      simp only [List.length_append, List.length_cons, List.length_replicate, pending_length,
        filled, hash.length_encode]
      omega
    rw [processBuffer_of_lt _ (filled ▸ fits), bits, filled, hash.trailer_of_lt fits,
      Blocks.absorb_block _ _ (by decide) block_length]
  · have spills : 56 ≤ message.length % 64 := Nat.not_lt.mp fits
    have first_length : ((process (reset algorithm) message).pending ++
        128 :: List.replicate (63 - message.length % 64) 0).length = 64 := by
      simp only [List.length_append, List.length_cons, List.length_replicate, pending_length,
        filled]
      omega
    have second_length : (List.replicate 56 0 ++ hash.encode (8 * message.length)).length = 64 := by
      rw [List.length_append, List.length_replicate, hash.length_encode]
    rw [processBuffer_of_le _ (filled ▸ spills), bits, filled, hash.trailer_of_le spills,
      ← List.append_assoc, Blocks.absorb_block_append _ _ _ (by decide) first_length,
      Blocks.absorb_block _ _ (by decide) second_length]

/-- `Reset`, one `Process` and `Finish` write the digest, or as much of it as the buffer holds. -/
theorem oneShot_eq_digest_of_implements (implements : algorithm.Implements hash)
    (short : message.length < 2 ^ 61) (buffer : List UInt8) :
    oneShot algorithm message buffer =
      (hash.digest message).take buffer.length ++ buffer.drop (4 * algorithm.words) := by
  have output_eq : (processBuffer (process (reset algorithm) message)).digest.toList.flatMap
      algorithm.wordBytes = hash.digest message := by
    rw [implements.wordBytes_eq, processBuffer_process_reset implements short]
    rfl
  exact finish_eq_take_append output_eq (implements.length_output _) buffer

end MDHash
end Fusion
