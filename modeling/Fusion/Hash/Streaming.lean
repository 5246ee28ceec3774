import Fusion.Hash.Compression
import Fusion.Library.Blocks

/-!
# Streaming against one-shot hashing

A hasher stands for the blocks it has folded and the bytes that wait in its buffer.  A call of
`Process` that starts at a block boundary or completes the open block absorbs its chunk exactly.
A call that neither starts nor completes a block copies its chunk over the waiting bytes, because
the final copy of `Process` targets the start of the buffer.
-/

namespace Fusion.MDHash

/-- Digest and byte count after the blocks folded so far. -/
def chaining {algorithm : Algorithm} (hasher : MDHash algorithm) :
    Vector UInt32 algorithm.words × UInt64 :=
  (hasher.digest, hasher.size)

/-- Bytes that wait in the buffer for their block to be completed. -/
def pending {algorithm : Algorithm} (hasher : MDHash algorithm) : List UInt8 :=
  hasher.buffer.take hasher.bufferSize

/-- Fold one block into the digest and count its bytes. -/
def absorbBlock (algorithm : Algorithm) (state : Vector UInt32 algorithm.words × UInt64)
    (block : List UInt8) : Vector UInt32 algorithm.words × UInt64 :=
  (algorithm.processBlock state.1 block, state.2 + 64)

/-- Everything that the hasher stands for after it has taken a word. -/
def absorbed {algorithm : Algorithm} (hasher : MDHash algorithm) (word : List UInt8) :
    (Vector UInt32 algorithm.words × UInt64) × List UInt8 :=
  Blocks.absorb 64 (absorbBlock algorithm) hasher.chaining (hasher.pending ++ word)

variable {algorithm : Algorithm} (hasher : MDHash algorithm)

@[simp]
theorem length_pending : hasher.pending.length = hasher.bufferSize := by
  have short := hasher.bufferSize_lt
  have length := hasher.buffer_length
  simp only [pending, List.length_take]
  omega

theorem pending_eq_nil {hasher : MDHash algorithm} (empty : hasher.bufferSize = 0) :
    hasher.pending = [] := by
  rw [pending, empty, List.take_zero]

/-! ## One call of `Process` -/

theorem absorbed_processBlocks (input : List UInt8) :
    absorbed (processBlocks hasher input).1 (processBlocks hasher input).2 =
      absorbed hasher input := by
  fun_induction processBlocks hasher input with
  | case1 hasher input full available buffer ih =>
    rw [ih]
    have short := hasher.bufferSize_lt
    have length := hasher.buffer_length
    have available_eq : available = 64 - hasher.bufferSize := by
      simp only [available]
      omega
    have taken : (input.take available).length = available := by
      rw [List.length_take]
      omega
    have buffer_eq : buffer = hasher.pending ++ input.take available :=
      Memory.copyAt_of_end (by omega)
    have block_length : buffer.length = 64 := by
      rw [buffer_eq, List.length_append, length_pending, taken]
      omega
    have word_eq : hasher.pending ++ input = buffer ++ input.drop available := by
      rw [buffer_eq, List.append_assoc, List.take_append_drop]
    rw [absorbed, absorbed, word_eq, Blocks.absorb_block_append _ _ _ (by decide) block_length]
    rfl
  | case2 => rfl

theorem processBlocks_eq_or_empty (input : List UInt8) :
    processBlocks hasher input = (hasher, input) ∧ hasher.bufferSize + input.length < 64 ∨
      (processBlocks hasher input).1.bufferSize = 0 := by
  fun_induction processBlocks hasher input with
  | case1 hasher input full available buffer ih =>
    right
    obtain ⟨unchanged, _⟩ | empty := ih
    · rw [unchanged]
    · exact empty
  | case2 hasher input short => exact .inl ⟨rfl, by omega⟩

/-- A chunk is absorbed exactly when it meets an empty buffer, is empty, or completes the open
block. -/
theorem process_absorbed (chunk : List UInt8)
    (safe : hasher.bufferSize = 0 ∨ chunk = [] ∨ 64 ≤ hasher.bufferSize + chunk.length) :
    ((process hasher chunk).chaining, (process hasher chunk).pending) = absorbed hasher chunk := by
  have bound := bufferSize_add_processBlocks_lt hasher chunk
  have whole := absorbed_processBlocks hasher chunk
  have residual :
      absorbed (processBlocks hasher chunk).1 (processBlocks hasher chunk).2 =
        ((processBlocks hasher chunk).1.chaining,
          (processBlocks hasher chunk).1.pending ++ (processBlocks hasher chunk).2) := by
    apply Blocks.absorb_of_lt
    rw [List.length_append, length_pending]
    exact bound
  rw [← whole, residual]
  simp only [process]
  split
  · rename_i remaining_pos
    have empty : (processBlocks hasher chunk).1.bufferSize = 0 := by
      obtain ⟨unchanged, short⟩ | empty := processBlocks_eq_or_empty hasher chunk
      · rw [unchanged] at remaining_pos ⊢
        obtain empty | rfl | full := safe
        · exact empty
        · simp at remaining_pos
        · omega
      · exact empty
    have copied := @Memory.take_copyAt _ (processBlocks hasher chunk).1.buffer
      (processBlocks hasher chunk).2 0 (Nat.zero_le _)
    rw [pending_eq_nil empty, List.nil_append]
    simp only [pending, chaining, empty]
    rw [copied, List.take_zero, List.nil_append]
  · rename_i remaining_zero
    have exhausted : (processBlocks hasher chunk).2 = [] := by
      apply List.eq_nil_of_length_eq_zero
      omega
    rw [exhausted, List.append_nil]

/-! ## Sequences of calls -/

/-- Starting with `filled` bytes in the open block, every chunk starts at a block boundary, is
empty, or completes the open block. -/
def KeepsBlocks : Nat → List (List UInt8) → Prop
  | _, [] => True
  | filled, chunk :: chunks =>
    (filled = 0 ∨ chunk = [] ∨ 64 ≤ filled + chunk.length) ∧
      KeepsBlocks ((filled + chunk.length) % 64) chunks

theorem foldl_process_absorbed (chunks : List (List UInt8))
    (keeps : KeepsBlocks hasher.bufferSize chunks) :
    ((chunks.foldl process hasher).chaining, (chunks.foldl process hasher).pending) =
      absorbed hasher chunks.flatten := by
  induction chunks generalizing hasher with
  | nil =>
    rw [List.flatten_nil, absorbed, List.append_nil, Blocks.absorb_of_lt]
    · rfl
    · rw [length_pending]
      exact hasher.bufferSize_lt
  | cons chunk chunks ih =>
    obtain ⟨safe, later⟩ := keeps
    have step := process_absorbed hasher chunk safe
    have chaining_eq := congrArg Prod.fst step
    have pending_eq := congrArg Prod.snd step
    have filled_eq :
        (process hasher chunk).bufferSize = (hasher.bufferSize + chunk.length) % 64 := by
      rw [← length_pending (process hasher chunk), ← length_pending hasher]
      rw [show (process hasher chunk).pending = (absorbed hasher chunk).2 from pending_eq]
      rw [absorbed, Blocks.length_absorb _ _ _ (by decide), List.length_append]
    rw [List.foldl_cons, ih _ (filled_eq ▸ later), List.flatten_cons, absorbed]
    rw [show (process hasher chunk).chaining = (absorbed hasher chunk).1 from chaining_eq]
    rw [show (process hasher chunk).pending = (absorbed hasher chunk).2 from pending_eq]
    rw [absorbed, absorbed, ← List.append_assoc, ← Blocks.absorb_append _ _ _ _ (by decide)]

/-! ## The final block -/

theorem fillFrom_set_eq :
    Memory.fillFrom (hasher.buffer.set hasher.bufferSize 128) (hasher.bufferSize + 1) 0 =
      hasher.pending ++ 128 :: List.replicate (63 - hasher.bufferSize) 0 := by
  have short := hasher.bufferSize_lt
  have length := hasher.buffer_length
  have set_eq :
      hasher.buffer.set hasher.bufferSize 128 =
        (hasher.pending ++ [128]) ++ hasher.buffer.drop (hasher.bufferSize + 1) := by
    rw [List.set_eq_take_append_cons_drop, if_pos (by omega)]
    simp [pending]
  have zeros : 64 - (hasher.bufferSize + 1) = 63 - hasher.bufferSize := by omega
  rw [Memory.fillFrom, List.length_set, length, zeros, set_eq, List.take_left' (by simp)]
  simp

theorem processBuffer_eq_of_pending_eq {left right : MDHash algorithm}
    (chaining_eq : left.chaining = right.chaining) (pending_eq : left.pending = right.pending) :
    (processBuffer left).digest = (processBuffer right).digest := by
  have digest_eq : left.digest = right.digest := congrArg Prod.fst chaining_eq
  have size_eq : left.size = right.size := congrArg Prod.snd chaining_eq
  have bufferSize_eq : left.bufferSize = right.bufferSize := by
    rw [← length_pending left, ← length_pending right, pending_eq]
  have blocks_eq : paddedBlocks left = paddedBlocks right := by
    simp only [paddedBlocks, if_pos left.bufferSize_lt, if_pos right.bufferSize_lt, fillFrom_set_eq]
    rw [pending_eq, bufferSize_eq, size_eq]
  simp only [digest_processBuffer, blocks_eq, digest_eq, bufferSize_eq]

/-- `Finish` writes as much of the digest as the buffer holds and leaves what is behind it. -/
theorem finish_eq_take_append {hasher : MDHash algorithm} {bytes : List UInt8}
    (bytes_eq : (processBuffer hasher).digest.toList.flatMap algorithm.wordBytes = bytes)
    (bytes_length : bytes.length = 4 * algorithm.words) (buffer : List UInt8) :
    (finish hasher buffer).2 = bytes.take buffer.length ++ buffer.drop (4 * algorithm.words) := by
  have whole : bytes.take (min buffer.length (4 * algorithm.words)) = bytes.take buffer.length := by
    rw [← bytes_length, ← List.take_eq_take_min]
  have behind : buffer.drop (min buffer.length (4 * algorithm.words)) =
      buffer.drop (4 * algorithm.words) := by
    rcases Nat.le_total buffer.length (4 * algorithm.words) with covered | longer
    · rw [Nat.min_eq_left covered, List.drop_length, List.drop_eq_nil_of_le covered]
    · rw [Nat.min_eq_right longer]
  simp only [finish_eq, bytes_eq, Memory.copyAt, List.take_zero, List.nil_append, Nat.zero_add,
    whole, List.length_take, bytes_length, behind]

/-- The digest of a sequence of chunks, as `Reset`, `Process` calls and `Finish` produce it. -/
def streamed (algorithm : Algorithm) (chunks : List (List UInt8)) (digest : List UInt8) :
    List UInt8 :=
  (finish (chunks.foldl process (reset algorithm)) digest).2

/-- The digest of one message, as `Reset`, one `Process` call and `Finish` produce it. -/
def oneShot (algorithm : Algorithm) (message digest : List UInt8) : List UInt8 :=
  (finish (process (reset algorithm) message) digest).2

theorem finish_foldl_process {algorithm : Algorithm} {chunks : List (List UInt8)}
    (keeps : KeepsBlocks 0 chunks) (digest : List UInt8) :
    (finish (chunks.foldl process (reset algorithm)) digest).2 =
      oneShot algorithm chunks.flatten digest := by
  have whole := process_absorbed (reset algorithm) chunks.flatten (.inl rfl)
  have parts := foldl_process_absorbed (reset algorithm) chunks keeps
  have agree := parts.trans whole.symm
  have same := processBuffer_eq_of_pending_eq
    (congrArg Prod.fst agree) (congrArg Prod.snd agree)
  simp only [oneShot, finish_eq, same]

/-- Streaming agrees with one-shot hashing whenever every chunk starts at a block boundary, is
empty, or completes the block left open before it. -/
theorem streamed_eq_oneShot (type : MdHashType) (chunks : List (List UInt8))
    (keeps : KeepsBlocks 0 chunks) (digest : List UInt8) :
    streamed type.algorithm chunks digest = oneShot type.algorithm chunks.flatten digest :=
  finish_foldl_process keeps digest

/-- A block boundary inside the message: a full block, a short chunk and an empty chunk. -/
theorem streamed_eq_oneShot_block_then_tail :
    KeepsBlocks 0 [List.replicate 64 97, [98], []] ∧
      streamed MdHashType.sha256.algorithm [List.replicate 64 97, [98], []]
          (List.replicate 32 0) =
        oneShot MdHashType.sha256.algorithm (List.replicate 64 97 ++ [98])
          (List.replicate 32 0) := by
  have keeps : KeepsBlocks 0 [List.replicate 64 97, [98], []] := by simp [KeepsBlocks]
  exact ⟨keeps, streamed_eq_oneShot .sha256 _ keeps _⟩

/-- Two one-byte chunks are not hashed as their concatenation by any of the three hashes. -/
theorem streamed_ne_oneShot_two_bytes :
    streamed MdHashType.md5.algorithm [[97], [98]] (List.replicate 16 0) ≠
        oneShot MdHashType.md5.algorithm [97, 98] (List.replicate 16 0) ∧
      streamed MdHashType.sha1.algorithm [[97], [98]] (List.replicate 20 0) ≠
        oneShot MdHashType.sha1.algorithm [97, 98] (List.replicate 20 0) ∧
      streamed MdHashType.sha256.algorithm [[97], [98]] (List.replicate 32 0) ≠
        oneShot MdHashType.sha256.algorithm [97, 98] (List.replicate 32 0) := by
  refine ⟨?_, ?_, ?_⟩
  · decide +kernel
  · decide +kernel
  · decide +kernel

end Fusion.MDHash
