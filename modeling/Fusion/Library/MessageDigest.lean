import Fusion.Library.MerkleDamgard
import Fusion.Library.Words

/-!
# The message-digest algorithm MD5

Each of the sixty-four operations computes one register from all four, and the registers change
places after it, so that the operation always acts on the first of them.
-/

namespace MessageDigest

open Words

/-- The word at the given place of a block, least significant byte first. -/
def blockWord (block : List UInt8) (k : Nat) : UInt32 :=
  UInt32.ofNat (ofLittleEndian
    [block.getD (4 * k) 0, block.getD (4 * k + 1) 0, block.getD (4 * k + 2) 0,
      block.getD (4 * k + 3) 0])

/-- The digest words as bytes, least significant byte first. -/
def hashBytes (hash : Vector UInt32 4) : List UInt8 :=
  hash.toList.flatMap fun word => littleEndian 4 word.toNat

theorem length_hashBytes (hash : Vector UInt32 4) : (hashBytes hash).length = 16 := by
  simp [hashBytes]

def auxiliaryF (x y z : UInt32) : UInt32 := (x &&& y) ||| (~~~x &&& z)

def auxiliaryG (x y z : UInt32) : UInt32 := (x &&& z) ||| (y &&& ~~~z)

def auxiliaryH (x y z : UInt32) : UInt32 := x ^^^ y ^^^ z

def auxiliaryI (x y z : UInt32) : UInt32 := y ^^^ (x ||| ~~~z)

/-- The integer parts of `2 ^ 32` times the absolute value of the sine of 1, ..., 64 radians. -/
def sines : List UInt32 :=
  [0xd76aa478, 0xe8c7b756, 0x242070db, 0xc1bdceee, 0xf57c0faf, 0x4787c62a,
    0xa8304613, 0xfd469501, 0x698098d8, 0x8b44f7af, 0xffff5bb1, 0x895cd7be,
    0x6b901122, 0xfd987193, 0xa679438e, 0x49b40821, 0xf61e2562, 0xc040b340,
    0x265e5a51, 0xe9b6c7aa, 0xd62f105d, 0x02441453, 0xd8a1e681, 0xe7d3fbc8,
    0x21e1cde6, 0xc33707d6, 0xf4d50d87, 0x455a14ed, 0xa9e3e905, 0xfcefa3f8,
    0x676f02d9, 0x8d2a4c8a, 0xfffa3942, 0x8771f681, 0x6d9d6122, 0xfde5380c,
    0xa4beea44, 0x4bdecfa9, 0xf6bb4b60, 0xbebfbc70, 0x289b7ec6, 0xeaa127fa,
    0xd4ef3085, 0x04881d05, 0xd9d4d039, 0xe6db99e5, 0x1fa27cf8, 0xc4ac5665,
    0xf4292244, 0x432aff97, 0xab9423a7, 0xfc93a039, 0x655b59c3, 0x8f0ccc92,
    0xffeff47d, 0x85845dd1, 0x6fa87e4f, 0xfe2ce6e0, 0xa3014314, 0x4e0811a1,
    0xf7537e82, 0xbd3af235, 0x2ad7d2bb, 0xeb86d391]

/-- What an operation takes: its function, the place of its word, its shift and its constant. -/
structure Operation where
  f : UInt32 → UInt32 → UInt32 → UInt32
  k : Nat
  s : UInt32
  t : UInt32

/-- The operation with the given number, counted from zero. -/
def operation (i : Nat) : Operation :=
  let t := sines.getD i 0
  if i < 16 then ⟨auxiliaryF, i, [7, 12, 17, 22].getD (i % 4) 0, t⟩
  else if i < 32 then ⟨auxiliaryG, (5 * i + 1) % 16, [5, 9, 14, 20].getD (i % 4) 0, t⟩
  else if i < 48 then ⟨auxiliaryH, (3 * i + 5) % 16, [4, 11, 16, 23].getD (i % 4) 0, t⟩
  else ⟨auxiliaryI, 7 * i % 16, [6, 10, 15, 21].getD (i % 4) 0, t⟩

structure Registers where
  a : UInt32
  b : UInt32
  c : UInt32
  d : UInt32

def operate (x : Nat → UInt32) (operation : Operation) (r : Registers) : Registers :=
  { a := r.d
    b := r.b + rotateLeft (r.a + operation.f r.b r.c r.d + x operation.k + operation.t) operation.s
    c := r.b
    d := r.c }

def initialHash : List UInt32 := [0x67452301, 0xefcdab89, 0x98badcfe, 0x10325476]

/-- The first `count` operations for a block. -/
def operations (block : List UInt8) (count : Nat) (r : Registers) : Registers :=
  (List.range count).foldl (fun r i => operate (blockWord block) (operation i) r) r

def compress (hash : Vector UInt32 4) (block : List UInt8) : Vector UInt32 4 :=
  let r := operations block 64 ⟨hash.get 0, hash.get 1, hash.get 2, hash.get 3⟩
  #v[r.a + hash.get 0, r.b + hash.get 1, r.c + hash.get 2, r.d + hash.get 3]

def md5 : MerkleDamgard (Vector UInt32 4) where
  initial := Vector.ofFn fun word => initialHash.getD word 0
  compress := compress
  encode := littleEndian 8
  output := hashBytes
  length_encode := length_littleEndian 8

end MessageDigest
