import Fusion.Hash.Streaming
import Fusion.Hex
import Fusion.Library.KeyedHash

/-!
# Message authentication over the hashers

`HMAC` hashes a pad block and what follows it in two `Process` calls.  The block fills the buffer
exactly, so both calls keep to blocks and the result is that of the concatenation.
-/

namespace Fusion

open KeyedHash

/-- `MDHash::LENGTH`, the value of the enumerator. -/
def MdHashType.length : MdHashType → Nat
  | .md5 => 16
  | .sha1 => 20
  | .sha256 => 32

/-- The one-shot hash into a buffer of the digest's size. -/
def MdHashType.hash (type : MdHashType) (message : List UInt8) : List UInt8 :=
  MDHash.oneShot type.algorithm message (List.replicate type.length 0)

/-- `MDHash::Finish` into a `Digest`. -/
def MDHash.finishDigest {algorithm : Algorithm} (hasher : MDHash algorithm)
    (digest : Hex (4 * algorithm.words)) : MDHash algorithm × Hex (4 * algorithm.words) :=
  ((finish hasher digest.data).1,
    { data := (finish hasher digest.data).2
      size := 4 * algorithm.words
      length_data := (length_finish hasher digest.data).trans digest.length_data })

namespace Internal

open MDHash

/-- The block `hmac` after the key is stored in it. -/
def keyBlock (algorithm : Algorithm) (key : List UInt8) : List UInt8 :=
  let hmac := List.replicate 64 (0 : UInt8)
  if key.length ≤ hmac.length then Memory.copyAt hmac 0 key
  else
    let m := process (reset algorithm) key
    (finish m (hmac.take (4 * algorithm.words))).2 ++ hmac.drop (4 * algorithm.words)

def hmac (algorithm : Algorithm) (key data output : List UInt8) : List UInt8 :=
  let hmac := (keyBlock algorithm key).map (· ^^^ 0x36)
  let m := process (process (reset algorithm) hmac) data
  let digest := (finishDigest m (Hex.empty _)).2
  let hmac := hmac.map (· ^^^ (0x5C ^^^ 0x36))
  let m := process (process (reset algorithm) hmac) digest.span
  (finish m output).2

theorem length_hmac (algorithm : Algorithm) (key data output : List UInt8) :
    (hmac algorithm key data output).length = output.length :=
  length_finish _ output

end Internal

/-- `HMAC` into a span, for a hash selected at run time. -/
def hmac (key data output : List UInt8) (type : MdHashType) : List UInt8 :=
  match type with
  | .md5 => Internal.hmac MD5.algorithm key data output
  | .sha1 => Internal.hmac SHA1.algorithm key data output
  | .sha256 => Internal.hmac SHA256.algorithm key data output

theorem hmac_eq_internal (key data output : List UInt8) (type : MdHashType) :
    hmac key data output type = Internal.hmac type.algorithm key data output := by
  cases type <;> rfl

/-- `HMAC` into a `Digest`. -/
def hmacDigest (type : MdHashType) (key data : List UInt8) (output : Hex type.length) :
    Hex type.length where
  data := hmac key data output.data type
  size := type.length
  length_data := by rw [hmac_eq_internal, Internal.length_hmac, output.length_data]

/-! ## The hash as a function of the message -/

namespace MdHashType

open MDHash

variable (type : MdHashType)

theorem four_mul_words : 4 * type.algorithm.words = type.length := by
  cases type <;> rfl

theorem length_flatMap_wordBytes (digest : Vector UInt32 type.algorithm.words) :
    (digest.toList.flatMap type.algorithm.wordBytes).length = 4 * type.algorithm.words := by
  have four : ∀ word, (type.algorithm.wordBytes word).length = 4 := by
    cases type <;> exact fun _ => rfl
  simp [List.length_flatMap, four, Nat.mul_comm]

theorem oneShot_eq_hash_append (message : List UInt8) {output : List UInt8}
    (large : type.length ≤ output.length) :
    oneShot type.algorithm message output = type.hash message ++ output.drop type.length := by
  have written := finish_eq_take_append
    (rfl : (processBuffer (process (reset type.algorithm) message)).digest.toList.flatMap _ = _)
    (type.length_flatMap_wordBytes _)
  have whole := type.length_flatMap_wordBytes
    (processBuffer (process (reset type.algorithm) message)).digest
  rw [four_mul_words] at written whole
  rw [hash, oneShot, oneShot, written, written, List.length_replicate,
    List.take_of_length_le (Nat.le_of_eq whole), List.take_of_length_le (whole ▸ large),
    List.drop_eq_nil_of_le (Nat.le_of_eq List.length_replicate), List.append_nil]

theorem length_hash (message : List UInt8) : (type.hash message).length = type.length :=
  (length_finish _ _).trans List.length_replicate

end MdHashType

/-! ## The code of the standard -/

namespace Internal

open MDHash

theorem keyBlock_eq_blockKey (type : MdHashType) (key : List UInt8) :
    keyBlock type.algorithm key = blockKey type.hash 64 key := by
  have fits : type.length ≤ 64 := by cases type <;> decide
  simp only [keyBlock, blockKey, List.length_replicate, type.four_mul_words]
  split
  · simp only [Memory.copyAt, List.take_zero, List.nil_append, Nat.zero_add, List.drop_replicate]
  · rw [type.length_hash, List.take_replicate, List.drop_replicate, Nat.min_eq_left fits]
    rfl

theorem finish_process_block {algorithm : Algorithm} {block : List UInt8}
    (full : block.length = 64) (data output : List UInt8) :
    (finish (process (process (reset algorithm) block) data) output).2 =
      oneShot algorithm (block ++ data) output := by
  have keeps : KeepsBlocks 0 [block, data] := ⟨.inl rfl, .inl (by rw [full]), trivial⟩
  have joined := @finish_foldl_process algorithm _ keeps output
  rwa [List.flatten_cons, List.flatten_singleton] at joined

theorem span_finishDigest_process_block (type : MdHashType) {block : List UInt8}
    (full : block.length = 64) (data : List UInt8) :
    (finishDigest (process (process (reset type.algorithm) block) data) (Hex.empty _)).2.span =
      type.hash (block ++ data) := by
  change ((finish _ (List.replicate (4 * type.algorithm.words) 0)).2).take
    (4 * type.algorithm.words) = _
  rw [finish_process_block full, type.four_mul_words]
  exact List.take_of_length_le (Nat.le_of_eq (type.length_hash (block ++ data)))

theorem hmac_eq_authenticate_append (type : MdHashType) (key data : List UInt8)
    {output : List UInt8} (large : type.length ≤ output.length) :
    hmac type.algorithm key data output =
      authenticate type.hash 64 key data ++ output.drop type.length := by
  have fits : ∀ message, (type.hash message).length ≤ 64 := by
    intro message
    rw [type.length_hash]
    cases type <;> decide
  have inner_length : (masked 0x36 (blockKey type.hash 64 key)).length = 64 := by
    rw [length_masked, length_blockKey fits]
  have outer_length : (masked 0x5C (blockKey type.hash 64 key)).length = 64 := by
    rw [length_masked, length_blockKey fits]
  have outer_eq := masked_xor_masked 0x36 0x5C (blockKey type.hash 64 key)
  simp only [masked] at inner_length outer_length outer_eq
  simp only [hmac, keyBlock_eq_blockKey, outer_eq]
  rw [span_finishDigest_process_block type inner_length, finish_process_block outer_length,
    type.oneShot_eq_hash_append _ large]
  rfl

end Internal

/-- Both `HMAC` functions write the authentication code over the one-shot hash. -/
theorem hmac_eq_authenticate (type : MdHashType) (key data : List UInt8) :
    (∀ output : List UInt8, type.length ≤ output.length →
      hmac key data output type = authenticate type.hash 64 key data ++ output.drop type.length) ∧
      ∀ output : Hex type.length, (hmacDigest type key data output).span =
        authenticate type.hash 64 key data := by
  have written : ∀ output : List UInt8, type.length ≤ output.length →
      hmac key data output type =
        authenticate type.hash 64 key data ++ output.drop type.length := by
    intro output large
    rw [hmac_eq_internal, Internal.hmac_eq_authenticate_append type key data large]
  refine ⟨written, ?_⟩
  intro output
  have full := output.length_data
  simp only [hmacDigest, Hex.span]
  rw [written output.data (Nat.le_of_eq full.symm)]
  exact List.take_left' (type.length_hash _)

/-- A key longer than a block. -/
theorem hmac_eq_authenticate_long_key :
    MdHashType.sha256.length ≤ (List.replicate 40 0).length ∧
      hmac (List.replicate 65 1) [] (List.replicate 40 0) .sha256 =
        authenticate MdHashType.sha256.hash 64 (List.replicate 65 1) [] ++
          (List.replicate 40 0).drop 32 :=
  ⟨by decide, (hmac_eq_authenticate .sha256 _ _).1 _ (by decide)⟩

end Fusion
