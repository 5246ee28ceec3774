import Fusion.Library.MerkleDamgard
import Fusion.Library.Words

/-!
# The secure hash standards SHA-1 and SHA-256

Functions, constants, message schedules and rounds in the terms of the standard: a schedule is a
recurrence over the words of the block, and a round moves every variable on by one place.
-/

namespace SecureHash

open Words

/-- The word at the given place of a block, most significant byte first. -/
def blockWord (block : List UInt8) (t : Nat) : UInt32 :=
  UInt32.ofNat (ofBigEndian
    [block.getD (4 * t) 0, block.getD (4 * t + 1) 0, block.getD (4 * t + 2) 0,
      block.getD (4 * t + 3) 0])

/-- The hash words as bytes, most significant byte first. -/
def hashBytes {count : Nat} (hash : Vector UInt32 count) : List UInt8 :=
  hash.toList.flatMap fun word => bigEndian 4 word.toNat

theorem length_hashBytes {count : Nat} (hash : Vector UInt32 count) :
    (hashBytes hash).length = 4 * count := by
  simp [hashBytes, Nat.mul_comm]

theorem foldl_range_add {σ : Type*} (round : σ → Nat → σ) (count more : Nat) (state : σ) :
    (List.range (count + more)).foldl round state =
      (List.range' count more).foldl round ((List.range count).foldl round state) := by
  have split : List.range (count + more) = List.range count ++ List.range' count more := by
    rw [List.range_eq_range', List.range_eq_range', ← List.range'_append_1, Nat.zero_add]
  rw [split, List.foldl_append]

theorem getD_map_range (schedule : Nat → UInt32) {count t : Nat} (below : t < count) :
    ((List.range count).map schedule).getD t 0 = schedule t := by
  simp [below]

/-- Words that are appended by the recurrence of a schedule are the schedule. -/
theorem extend_map_range {extend : Nat → List UInt32 → List UInt32}
    {next : (Nat → UInt32) → Nat → UInt32} {schedule : Nat → UInt32}
    (extend_zero : ∀ words, extend 0 words = words)
    (extend_succ : ∀ count words, extend (count + 1) words =
      extend count (words ++ [next (fun t => words.getD t 0) words.length]))
    (recurrence : ∀ known t, 16 ≤ t → (∀ earlier, earlier < t → known earlier = schedule earlier) →
      next known t = schedule t)
    {known : Nat} (enough : 16 ≤ known) (count : Nat) :
    extend count ((List.range known).map schedule) = (List.range (known + count)).map schedule := by
  induction count generalizing known with
  | zero => exact extend_zero _
  | succ count ih =>
    have appended : next (fun t => ((List.range known).map schedule).getD t 0) known =
        schedule known :=
      recurrence _ known enough fun earlier below => getD_map_range schedule below
    rw [extend_succ, List.length_map, List.length_range, appended,
      ← List.map_singleton, ← List.map_append, ← List.range_succ, ih (Nat.le_succ_of_le enough),
      Nat.succ_add_eq_add_succ]

/-! ## SHA-1 -/

namespace SHA1

def initialHash : List UInt32 := [0x67452301, 0xefcdab89, 0x98badcfe, 0x10325476, 0xc3d2e1f0]

/-- The logical function of a round. -/
def logical (t : Nat) : UInt32 → UInt32 → UInt32 → UInt32 :=
  if t < 20 then choose else if t < 40 then parity else if t < 60 then majority else parity

def constant (t : Nat) : UInt32 :=
  if t < 20 then 0x5a827999 else if t < 40 then 0x6ed9eba1
  else if t < 60 then 0x8f1bbcdc else 0xca62c1d6

/-- The message schedule. -/
def schedule (message : Nat → UInt32) (t : Nat) : UInt32 :=
  if 16 ≤ t then
    rotateLeft
      (schedule message (t - 3) ^^^ schedule message (t - 8) ^^^ schedule message (t - 14) ^^^
        schedule message (t - 16)) 1
  else message t

structure Variables where
  a : UInt32
  b : UInt32
  c : UInt32
  d : UInt32
  e : UInt32

def round (f : UInt32 → UInt32 → UInt32 → UInt32) (constant word : UInt32) (v : Variables) :
    Variables :=
  { a := rotateLeft v.a 5 + f v.b v.c v.d + v.e + constant + word
    b := v.a
    c := rotateLeft v.b 30
    d := v.c
    e := v.d }

/-- The first `count` rounds for a block. -/
def rounds (block : List UInt8) (count : Nat) (v : Variables) : Variables :=
  (List.range count).foldl
    (fun v t => round (logical t) (constant t) (schedule (blockWord block) t) v) v

def compress (hash : Vector UInt32 5) (block : List UInt8) : Vector UInt32 5 :=
  let v := rounds block 80 ⟨hash.get 0, hash.get 1, hash.get 2, hash.get 3, hash.get 4⟩
  #v[v.a + hash.get 0, v.b + hash.get 1, v.c + hash.get 2, v.d + hash.get 3, v.e + hash.get 4]

end SHA1

def sha1 : MerkleDamgard (Vector UInt32 5) where
  initial := Vector.ofFn fun word => SHA1.initialHash.getD word 0
  compress := SHA1.compress
  encode := bigEndian 8
  output := hashBytes
  length_encode := length_bigEndian 8

/-! ## SHA-256 -/

namespace SHA256

/-- The first 32 bits of the fractional parts of the square roots of the first eight primes. -/
def initialHash : List UInt32 :=
  [0x6a09e667, 0xbb67ae85, 0x3c6ef372, 0xa54ff53a, 0x510e527f, 0x9b05688c, 0x1f83d9ab, 0x5be0cd19]

def bigSigma0 (x : UInt32) : UInt32 := rotateRight x 2 ^^^ rotateRight x 13 ^^^ rotateRight x 22

def bigSigma1 (x : UInt32) : UInt32 := rotateRight x 6 ^^^ rotateRight x 11 ^^^ rotateRight x 25

def smallSigma0 (x : UInt32) : UInt32 := rotateRight x 7 ^^^ rotateRight x 18 ^^^ (x >>> 3)

def smallSigma1 (x : UInt32) : UInt32 := rotateRight x 17 ^^^ rotateRight x 19 ^^^ (x >>> 10)

/-- The first 32 bits of the fractional parts of the cube roots of the first 64 primes. -/
def constants : List UInt32 :=
  [0x428a2f98, 0x71374491, 0xb5c0fbcf, 0xe9b5dba5, 0x3956c25b, 0x59f111f1,
    0x923f82a4, 0xab1c5ed5, 0xd807aa98, 0x12835b01, 0x243185be, 0x550c7dc3,
    0x72be5d74, 0x80deb1fe, 0x9bdc06a7, 0xc19bf174, 0xe49b69c1, 0xefbe4786,
    0x0fc19dc6, 0x240ca1cc, 0x2de92c6f, 0x4a7484aa, 0x5cb0a9dc, 0x76f988da,
    0x983e5152, 0xa831c66d, 0xb00327c8, 0xbf597fc7, 0xc6e00bf3, 0xd5a79147,
    0x06ca6351, 0x14292967, 0x27b70a85, 0x2e1b2138, 0x4d2c6dfc, 0x53380d13,
    0x650a7354, 0x766a0abb, 0x81c2c92e, 0x92722c85, 0xa2bfe8a1, 0xa81a664b,
    0xc24b8b70, 0xc76c51a3, 0xd192e819, 0xd6990624, 0xf40e3585, 0x106aa070,
    0x19a4c116, 0x1e376c08, 0x2748774c, 0x34b0bcb5, 0x391c0cb3, 0x4ed8aa4a,
    0x5b9cca4f, 0x682e6ff3, 0x748f82ee, 0x78a5636f, 0x84c87814, 0x8cc70208,
    0x90befffa, 0xa4506ceb, 0xbef9a3f7, 0xc67178f2]

/-- The message schedule. -/
def schedule (message : Nat → UInt32) (t : Nat) : UInt32 :=
  if 16 ≤ t then
    smallSigma1 (schedule message (t - 2)) + schedule message (t - 7) +
      smallSigma0 (schedule message (t - 15)) + schedule message (t - 16)
  else message t

structure Variables where
  a : UInt32
  b : UInt32
  c : UInt32
  d : UInt32
  e : UInt32
  f : UInt32
  g : UInt32
  h : UInt32

def round (constant word : UInt32) (v : Variables) : Variables :=
  let t1 := v.h + bigSigma1 v.e + choose v.e v.f v.g + constant + word
  let t2 := bigSigma0 v.a + majority v.a v.b v.c
  { a := t1 + t2, b := v.a, c := v.b, d := v.c, e := v.d + t1, f := v.e, g := v.f, h := v.g }

/-- The first `count` rounds for a block. -/
def rounds (block : List UInt8) (count : Nat) (v : Variables) : Variables :=
  (List.range count).foldl
    (fun v t => round (constants.getD t 0) (schedule (blockWord block) t) v) v

def compress (hash : Vector UInt32 8) (block : List UInt8) : Vector UInt32 8 :=
  let v := rounds block 64
    ⟨hash.get 0, hash.get 1, hash.get 2, hash.get 3, hash.get 4, hash.get 5, hash.get 6, hash.get 7⟩
  #v[v.a + hash.get 0, v.b + hash.get 1, v.c + hash.get 2, v.d + hash.get 3, v.e + hash.get 4,
    v.f + hash.get 5, v.g + hash.get 6, v.h + hash.get 7]

end SHA256

def sha256 : MerkleDamgard (Vector UInt32 8) where
  initial := Vector.ofFn fun word => SHA256.initialHash.getD word 0
  compress := SHA256.compress
  encode := bigEndian 8
  output := hashBytes
  length_encode := length_bigEndian 8

end SecureHash
