import Mathlib.Data.List.Basic

/-!
# Keyed hashing

The message authentication code over any hash function that works on blocks of `width` bytes.
-/

namespace KeyedHash

/-- The key, hashed where it is longer than a block, and filled up with zeros. -/
def blockKey (hash : List UInt8 → List UInt8) (width : Nat) (key : List UInt8) : List UInt8 :=
  let short := if key.length ≤ width then key else hash key
  short ++ List.replicate (width - short.length) 0

/-- Every byte of a block xor the pad byte. -/
def masked (pad : UInt8) (block : List UInt8) : List UInt8 := block.map (· ^^^ pad)

def authenticate (hash : List UInt8 → List UInt8) (width : Nat) (key data : List UInt8) :
    List UInt8 :=
  hash (masked 0x5C (blockKey hash width key) ++
    hash (masked 0x36 (blockKey hash width key) ++ data))

theorem length_blockKey {hash : List UInt8 → List UInt8} {width : Nat}
    (fits : ∀ message, (hash message).length ≤ width) (key : List UInt8) :
    (blockKey hash width key).length = width := by
  have short : (if key.length ≤ width then key else hash key).length ≤ width := by
    split
    · assumption
    · exact fits key
  simp only [blockKey, List.length_append, List.length_replicate]
  omega

@[simp]
theorem length_masked (pad : UInt8) (block : List UInt8) :
    (masked pad block).length = block.length :=
  List.length_map ..

/-- One more xor turns one pad into another. -/
theorem masked_xor_masked (inner outer : UInt8) (block : List UInt8) :
    masked (outer ^^^ inner) (masked inner block) = masked outer block := by
  have swapped : ∀ byte : UInt8, byte ^^^ inner ^^^ (outer ^^^ inner) = byte ^^^ outer := by
    intro byte
    rw [UInt8.xor_comm outer, UInt8.xor_assoc, ← UInt8.xor_assoc inner, UInt8.xor_self,
      UInt8.zero_xor]
  simp only [masked, List.map_map, Function.comp_def, swapped]

end KeyedHash
