import Fusion.Library.Blocks

/-!
# Iterated hash functions over padded messages

The message is followed by a one bit, by zeros and by its length in bits, so that the whole is a
number of 64-byte blocks, and a compression function is iterated over these blocks.
-/

/-- What an iterated hash function with 64-byte blocks and a 64-bit length field consists of. -/
structure MerkleDamgard (σ : Type*) where
  initial : σ
  compress : σ → List UInt8 → σ
  /-- The length field for a message of so many bits. -/
  encode : Nat → List UInt8
  /-- The bytes of the digest. -/
  output : σ → List UInt8
  length_encode : ∀ bits, (encode bits).length = 8

namespace MerkleDamgard

/-- What is appended to a message of so many bytes. -/
def trailer {σ : Type*} (hash : MerkleDamgard σ) (length : Nat) : List UInt8 :=
  0x80 :: List.replicate ((119 - length % 64) % 64) 0 ++ hash.encode (8 * length)

def digest {σ : Type*} (hash : MerkleDamgard σ) (message : List UInt8) : List UInt8 :=
  hash.output
    (Blocks.absorb 64 hash.compress hash.initial (message ++ hash.trailer message.length)).1

variable {length : Nat} {σ : Type*}

theorem trailer_of_lt (hash : MerkleDamgard σ) (fits : length % 64 < 56) :
    hash.trailer length =
      0x80 :: List.replicate (55 - length % 64) 0 ++ hash.encode (8 * length) := by
  rw [trailer, show (119 - length % 64) % 64 = 55 - length % 64 by omega]

/-- Where the length does not fit behind the message, its field ends a second block. -/
theorem trailer_of_le (hash : MerkleDamgard σ) (spills : 56 ≤ length % 64) :
    hash.trailer length =
      0x80 :: List.replicate (63 - length % 64) 0 ++
        (List.replicate 56 0 ++ hash.encode (8 * length)) := by
  rw [trailer, show (119 - length % 64) % 64 = 63 - length % 64 + 56 by omega,
    List.replicate_add, ← List.cons_append, List.append_assoc]

end MerkleDamgard
