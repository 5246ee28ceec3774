import Mathlib.Data.List.Basic
import Mathlib.Data.Vector.Defs
import Fusion.Library.Memory

/-!
# The block-buffered hasher

`MDHash<Type>` is one class template whose block function, initial digest and byte order are
supplied by each of its three specializations.  An `Algorithm` collects what the specializations
supply; the buffered operations are then written once over it.  Assertions are compiled out.
-/

namespace Fusion

/-- Hash selector; its value is the digest length in bytes. -/
inductive MdHashType
  | md5
  | sha1
  | sha256
deriving DecidableEq, Repr

/-- What one specialization of `MDHash` supplies. -/
structure Algorithm where
  /-- Number of 32-bit words in `DigestStorage`. -/
  words : Nat
  initialDigest : Vector UInt32 words
  /-- Fold one 64-byte block into the digest. -/
  processBlock : Vector UInt32 words → List UInt8 → Vector UInt32 words
  /-- The eight bytes that `ProcessBuffer` stores for the message length in bits. -/
  lengthBytes : UInt64 → List UInt8
  /-- The four bytes that `Finish` stores for one digest word. -/
  wordBytes : UInt32 → List UInt8
  length_lengthBytes : ∀ bits, (lengthBytes bits).length = 8

def bigEndianBytes (bits : UInt64) : List UInt8 :=
  [((bits >>> 56) &&& 0xFF).toUInt8, ((bits >>> 48) &&& 0xFF).toUInt8,
    ((bits >>> 40) &&& 0xFF).toUInt8, ((bits >>> 32) &&& 0xFF).toUInt8,
    ((bits >>> 24) &&& 0xFF).toUInt8, ((bits >>> 16) &&& 0xFF).toUInt8,
    ((bits >>> 8) &&& 0xFF).toUInt8, (bits &&& 0xFF).toUInt8]

/-- Eight bytes of a 64-bit value, shifted out from the least significant end. -/
def littleEndianBytes (bits : UInt64) : List UInt8 :=
  let emit (bits : UInt64) : UInt8 := (bits &&& 0xFF).toUInt8
  let bits₁ := bits >>> 8
  let bits₂ := bits₁ >>> 8
  let bits₃ := bits₂ >>> 8
  let bits₄ := bits₃ >>> 8
  let bits₅ := bits₄ >>> 8
  let bits₆ := bits₅ >>> 8
  let bits₇ := bits₆ >>> 8
  [emit bits, emit bits₁, emit bits₂, emit bits₃, emit bits₄, emit bits₅, emit bits₆, emit bits₇]

def bigEndianWord (word : UInt32) : List UInt8 :=
  [((word >>> 24) &&& 0xFF).toUInt8, ((word >>> 16) &&& 0xFF).toUInt8,
    ((word >>> 8) &&& 0xFF).toUInt8, (word &&& 0xFF).toUInt8]

def littleEndianWord (word : UInt32) : List UInt8 :=
  [(word &&& 0xFF).toUInt8, ((word >>> 8) &&& 0xFF).toUInt8,
    ((word >>> 16) &&& 0xFF).toUInt8, ((word >>> 24) &&& 0xFF).toUInt8]

/-- A hasher between two calls of its interface. -/
structure MDHash (algorithm : Algorithm) where
  /-- Size of processed data in bytes, modulo `2 ^ 64`. -/
  size : UInt64
  /-- Valid bytes in the buffer. -/
  bufferSize : Nat
  digest : Vector UInt32 algorithm.words
  buffer : List UInt8
  /-- The buffer is a fixed array of one block. -/
  buffer_length : buffer.length = 64
  /-- A complete block never stays in the buffer. -/
  bufferSize_lt : bufferSize < 64

namespace MDHash

def reset (algorithm : Algorithm) : MDHash algorithm where
  size := 0
  bufferSize := 0
  digest := algorithm.initialDigest
  buffer := List.replicate 64 0
  buffer_length := by simp
  bufferSize_lt := by decide

/-- The loop of `MDHash::Process` that consumes as many full blocks as possible. -/
def processBlocks {algorithm : Algorithm} (hasher : MDHash algorithm) (input : List UInt8) :
    MDHash algorithm × List UInt8 :=
  if full : 64 ≤ hasher.bufferSize + input.length then
    let available := min 64 (64 - hasher.bufferSize)
    let buffer := Memory.copyAt hasher.buffer hasher.bufferSize (input.take available)
    processBlocks
      { size := hasher.size + 64
        bufferSize := 0
        digest := algorithm.processBlock hasher.digest buffer
        buffer
        buffer_length := by
          have short := hasher.bufferSize_lt
          have length := hasher.buffer_length
          rw [Memory.length_copyAt]
          · exact length
          · simp only [List.length_take, available]
            omega
        bufferSize_lt := by decide }
      (input.drop available)
  else
    (hasher, input)
termination_by input.length
decreasing_by
  have short := hasher.bufferSize_lt
  simp only [List.length_drop]
  omega

variable {algorithm : Algorithm} (hasher : MDHash algorithm)

theorem bufferSize_add_processBlocks_lt (input : List UInt8) :
    (processBlocks hasher input).1.bufferSize + (processBlocks hasher input).2.length < 64 := by
  fun_induction processBlocks hasher input with
  | case1 hasher input full available buffer ih => exact ih
  | case2 hasher input short =>
    change hasher.bufferSize + input.length < 64
    omega

/-- `MDHash::Process`.  The remaining input is copied to the start of the buffer. -/
def process {algorithm : Algorithm} (hasher : MDHash algorithm) (input : List UInt8) :
    MDHash algorithm :=
  let remaining := (processBlocks hasher input).2
  let consumed := (processBlocks hasher input).1
  if 0 < remaining.length then
    { consumed with
      buffer := Memory.copyAt consumed.buffer 0 remaining
      bufferSize := consumed.bufferSize + remaining.length
      buffer_length := by
        have bound := bufferSize_add_processBlocks_lt hasher input
        have length := consumed.buffer_length
        rw [Memory.length_copyAt]
        · exact length
        · simp only [remaining]
          omega
      bufferSize_lt := bufferSize_add_processBlocks_lt hasher input }
  else
    consumed

/-- Byte position of the message length computed by `MDHash::ProcessBuffer`. -/
def padding (bufferSize : Nat) : Nat :=
  let padding := bufferSize * 8 + 1
  let lower11Bits := padding % 512
  (if lower11Bits ≤ 448 then padding + (448 - lower11Bits)
    else padding + (512 + 448 - lower11Bits)) / 8

/-- The two blocks assembled by `MDHash::ProcessBuffer`: the padded buffer and the extra block. -/
def paddedBlocks {algorithm : Algorithm} (hasher : MDHash algorithm) : List UInt8 × List UInt8 :=
  let padding := padding hasher.bufferSize
  let extra := List.replicate 64 0
  let marked :=
    if hasher.bufferSize < 64 then (hasher.buffer.set hasher.bufferSize 128, extra)
    else (hasher.buffer, extra.set 0 128)
  let cleared := Memory.fillFrom marked.1 (hasher.bufferSize + 1) 0
  let msgBits := 8 * (hasher.size + UInt64.ofNat hasher.bufferSize)
  if padding < 64 then
    (Memory.copyAt cleared padding (algorithm.lengthBytes msgBits), marked.2)
  else
    (cleared, Memory.copyAt marked.2 (padding - 64) (algorithm.lengthBytes msgBits))

theorem padding_eq {bufferSize : Nat} (short : bufferSize < 64) :
    padding bufferSize = if bufferSize < 56 then 56 else 120 := by
  simp only [padding]
  split <;> split <;> omega

theorem length_paddedBlocks : (paddedBlocks hasher).1.length = 64 := by
  have short := hasher.bufferSize_lt
  have length := hasher.buffer_length
  have cleared_length :
      (Memory.fillFrom (hasher.buffer.set hasher.bufferSize 128)
        (hasher.bufferSize + 1) 0).length = 64 := by
    rw [Memory.length_fillFrom _ _ (by simp; omega)]
    simp [length]
  simp only [paddedBlocks, if_pos short, padding_eq short]
  split
  · split
    · rw [Memory.length_copyAt]
      · exact cleared_length
      · refine Nat.le_of_eq ?_
        rw [algorithm.length_lengthBytes, cleared_length]
    · omega
  · exact cleared_length

/-- `MDHash::ProcessBlock` folds a block into the digest of the hasher. -/
def processBlock {algorithm : Algorithm} (hasher : MDHash algorithm) (block : List UInt8) :
    MDHash algorithm :=
  { hasher with digest := algorithm.processBlock hasher.digest block }

/-- `MDHash::ProcessBuffer`.  It pads in the buffer and overwrites the digest. -/
def processBuffer {algorithm : Algorithm} (hasher : MDHash algorithm) : MDHash algorithm :=
  let blocks := paddedBlocks hasher
  let padded : MDHash algorithm :=
    { hasher with buffer := blocks.1, buffer_length := length_paddedBlocks hasher }
  let processed := padded.processBlock padded.buffer
  if 64 < padding hasher.bufferSize then processed.processBlock blocks.2 else processed

theorem digest_processBuffer :
    (processBuffer hasher).digest =
      if 64 < padding hasher.bufferSize then
        algorithm.processBlock (algorithm.processBlock hasher.digest (paddedBlocks hasher).1)
          (paddedBlocks hasher).2
      else algorithm.processBlock hasher.digest (paddedBlocks hasher).1 := by
  simp only [processBuffer]
  split <;> rfl

/-- The loop of `MDHash::Finish` that saves the digest word by word. -/
def saveDigest {algorithm : Algorithm} (hasher : MDHash algorithm) :
    Vector UInt32 algorithm.words :=
  (List.finRange algorithm.words).foldl
    (fun old (i : Fin algorithm.words) => old.set i hasher.digest[i])
    (Vector.replicate algorithm.words 0)

/-- One round of the last loop of `MDHash::Finish`: the bytes of a word go to the output, and the
word is restored. -/
def restoreWord {algorithm : Algorithm} (old : Vector UInt32 algorithm.words)
    (state : MDHash algorithm × List UInt8) (i : Fin algorithm.words) :
    MDHash algorithm × List UInt8 :=
  ({ state.1 with digest := state.1.digest.set i old[i] },
    state.2 ++ algorithm.wordBytes state.1.digest[i])

/-- `MDHash::Finish` into a caller's buffer. -/
def finish {algorithm : Algorithm} (hasher : MDHash algorithm) (digest : List UInt8) :
    MDHash algorithm × List UInt8 :=
  let old := saveDigest hasher
  let (restored, output) :=
    (List.finRange algorithm.words).foldl (restoreWord old) (processBuffer hasher, [])
  (restored, Memory.copyAt digest 0 (output.take (min digest.length (4 * algorithm.words))))

/-! ## The loops of `Finish` -/

theorem getElem_foldl_set {words : Nat} (source : Vector UInt32 words) (indices : List (Fin words))
    (target : Vector UInt32 words) {i : Fin words} (covered : i ∈ indices ∨ target[i] = source[i]) :
    (indices.foldl (fun target i => target.set i source[i]) target)[i] = source[i] := by
  induction indices generalizing target with
  | nil => exact covered.resolve_left List.not_mem_nil
  | cons head indices ih =>
    rw [List.foldl_cons]
    refine ih _ ?_
    by_cases same : head = i
    · subst same
      exact .inr (Vector.getElem_set_self _)
    · have apart : (head : Nat) ≠ i := fun equal => same (Fin.ext equal)
      have kept : (target.set head source[head])[i] = target[i] := Vector.getElem_set_ne _ _ apart
      rw [kept]
      exact covered.imp_left fun member => (List.mem_cons.mp member).resolve_left (Ne.symm same)

theorem foldl_set_finRange {words : Nat} (source target : Vector UInt32 words) :
    (List.finRange words).foldl (fun target i => target.set i source[i]) target = source := by
  refine Vector.ext fun i inside => ?_
  exact getElem_foldl_set source _ target (.inl (List.mem_finRange (⟨i, inside⟩ : Fin words)))

theorem saveDigest_eq : saveDigest hasher = hasher.digest :=
  foldl_set_finRange hasher.digest _

theorem foldl_restoreWord (old : Vector UInt32 algorithm.words)
    {indices : List (Fin algorithm.words)} (distinct : indices.Nodup) (hasher : MDHash algorithm)
    (output : List UInt8) :
    indices.foldl (restoreWord old) (hasher, output) =
      ({ hasher with
          digest := indices.foldl (fun digest (i : Fin algorithm.words) => digest.set i old[i])
            hasher.digest },
        output ++ indices.flatMap fun i => algorithm.wordBytes hasher.digest[i]) := by
  induction indices generalizing hasher output with
  | nil => simp
  | cons head indices ih =>
    obtain ⟨absent, distinct⟩ := List.nodup_cons.mp distinct
    have later : ∀ i ∈ indices, (hasher.digest.set head old[head])[i] = hasher.digest[i] := by
      intro i member
      have apart : (head : Nat) ≠ i := fun equal => absent (Fin.ext equal ▸ member)
      exact Vector.getElem_set_ne _ _ apart
    rw [List.foldl_cons, restoreWord, ih distinct, List.foldl_cons, List.flatMap_cons,
      List.append_assoc]
    congr 3
    exact List.flatMap_congr fun i member => congrArg algorithm.wordBytes (later i member)

theorem finish_eq (digest : List UInt8) :
    finish hasher digest =
      ({ hasher with
          buffer := (paddedBlocks hasher).1
          buffer_length := length_paddedBlocks hasher },
        Memory.copyAt digest 0 (((processBuffer hasher).digest.toList.flatMap
          algorithm.wordBytes).take (min digest.length (4 * algorithm.words)))) := by
  have words_eq : (List.finRange algorithm.words).map (fun i => (processBuffer hasher).digest[i]) =
      (processBuffer hasher).digest.toList := by
    refine List.ext_getElem (by simp) fun i _ _ => ?_
    simp
  have output_eq : ((List.finRange algorithm.words).flatMap fun i =>
      algorithm.wordBytes (processBuffer hasher).digest[i]) =
        (processBuffer hasher).digest.toList.flatMap algorithm.wordBytes := by
    rw [← words_eq, List.flatMap_map]
  have restored_eq : ({ processBuffer hasher with digest := hasher.digest } : MDHash algorithm) =
      { hasher with
        buffer := (paddedBlocks hasher).1
        buffer_length := length_paddedBlocks hasher } := by
    by_cases spills : 64 < padding hasher.bufferSize
    · simp only [processBuffer, if_pos spills, processBlock]
    · simp only [processBuffer, if_neg spills, processBlock]
  simp only [finish, foldl_restoreWord _ (List.nodup_finRange _), foldl_set_finRange,
    saveDigest_eq, List.nil_append, output_eq, restored_eq]

theorem length_finish (digest : List UInt8) : (finish hasher digest).2.length = digest.length := by
  rw [finish_eq]
  apply Memory.length_copyAt
  rw [Nat.zero_add, List.length_take]
  omega

end MDHash
end Fusion
