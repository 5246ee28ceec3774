import Fusion.Hash.MDHash

/-!
# The block functions of MD5, SHA1 and SHA256

Each source line that updates the working registers is one register transformer, and the lines are
listed in source order.  Words are loaded as on a little-endian host.
-/

namespace Fusion

/-- `Endian::ConstSwap` on 32-bit words: move the bytes out of `x` from its low end. -/
def Endian.constSwap (x : UInt32) (result : UInt32 := 0) : (remaining : Nat := 4) → UInt32
  | 0 => result
  | remaining + 1 => constSwap (x >>> 8) ((result <<< 8) ||| (x &&& 0xFF)) remaining

/-- `input32[index]`, read through a `uint32_t` pointer on a little-endian host. -/
def input32 (input : List UInt8) (index : Nat) : UInt32 :=
  (input.getD (4 * index) 0).toUInt32 |||
    ((input.getD (4 * index + 1) 0).toUInt32 <<< 8) |||
    ((input.getD (4 * index + 2) 0).toUInt32 <<< 16) |||
    ((input.getD (4 * index + 3) 0).toUInt32 <<< 24)

namespace MD5

/-- The four working registers. -/
structure Registers where
  a : UInt32
  b : UInt32
  c : UInt32
  d : UInt32
deriving DecidableEq, Repr

def f1 (b c d : UInt32) : UInt32 := d ^^^ (b &&& (c ^^^ d))

def f2 (b c d : UInt32) : UInt32 := c ^^^ (d &&& (b ^^^ c))

def f3 (b c d : UInt32) : UInt32 := b ^^^ c ^^^ d

def f4 (b c d : UInt32) : UInt32 := c ^^^ (b ||| ~~~d)

def rotate (a c : UInt32) : UInt32 := (a <<< c) ||| (a >>> (32 - c))

/-- Byte order of the input words on a little-endian host. -/
def swap (x : UInt32) : UInt32 := x

/-- The line that assigns `a`. -/
def setA (f : UInt32 → UInt32 → UInt32 → UInt32) (word constant shift : UInt32) (r : Registers) :
    Registers :=
  { r with a := rotate (r.a + f r.b r.c r.d + word + constant) shift + r.b }

def setD (f : UInt32 → UInt32 → UInt32 → UInt32) (word constant shift : UInt32) (r : Registers) :
    Registers :=
  { r with d := rotate (r.d + f r.a r.b r.c + word + constant) shift + r.a }

def setC (f : UInt32 → UInt32 → UInt32 → UInt32) (word constant shift : UInt32) (r : Registers) :
    Registers :=
  { r with c := rotate (r.c + f r.d r.a r.b + word + constant) shift + r.d }

def setB (f : UInt32 → UInt32 → UInt32 → UInt32) (word constant shift : UInt32) (r : Registers) :
    Registers :=
  { r with b := rotate (r.b + f r.c r.d r.a + word + constant) shift + r.c }

/-- The sixty-four lines of the four rounds. -/
def lines (word : Nat → UInt32) : List (Registers → Registers) :=
  [setA f1 (word 0) 0xd76aa478 7, setD f1 (word 1) 0xe8c7b756 12,
    setC f1 (word 2) 0x242070db 17, setB f1 (word 3) 0xc1bdceee 22,
    setA f1 (word 4) 0xf57c0faf 7, setD f1 (word 5) 0x4787c62a 12,
    setC f1 (word 6) 0xa8304613 17, setB f1 (word 7) 0xfd469501 22,
    setA f1 (word 8) 0x698098d8 7, setD f1 (word 9) 0x8b44f7af 12,
    setC f1 (word 10) 0xffff5bb1 17, setB f1 (word 11) 0x895cd7be 22,
    setA f1 (word 12) 0x6b901122 7, setD f1 (word 13) 0xfd987193 12,
    setC f1 (word 14) 0xa679438e 17, setB f1 (word 15) 0x49b40821 22,
    setA f2 (word 1) 0xf61e2562 5, setD f2 (word 6) 0xc040b340 9,
    setC f2 (word 11) 0x265e5a51 14, setB f2 (word 0) 0xe9b6c7aa 20,
    setA f2 (word 5) 0xd62f105d 5, setD f2 (word 10) 0x02441453 9,
    setC f2 (word 15) 0xd8a1e681 14, setB f2 (word 4) 0xe7d3fbc8 20,
    setA f2 (word 9) 0x21e1cde6 5, setD f2 (word 14) 0xc33707d6 9,
    setC f2 (word 3) 0xf4d50d87 14, setB f2 (word 8) 0x455a14ed 20,
    setA f2 (word 13) 0xa9e3e905 5, setD f2 (word 2) 0xfcefa3f8 9,
    setC f2 (word 7) 0x676f02d9 14, setB f2 (word 12) 0x8d2a4c8a 20,
    setA f3 (word 5) 0xfffa3942 4, setD f3 (word 8) 0x8771f681 11,
    setC f3 (word 11) 0x6d9d6122 16, setB f3 (word 14) 0xfde5380c 23,
    setA f3 (word 1) 0xa4beea44 4, setD f3 (word 4) 0x4bdecfa9 11,
    setC f3 (word 7) 0xf6bb4b60 16, setB f3 (word 10) 0xbebfbc70 23,
    setA f3 (word 13) 0x289b7ec6 4, setD f3 (word 0) 0xeaa127fa 11,
    setC f3 (word 3) 0xd4ef3085 16, setB f3 (word 6) 0x04881d05 23,
    setA f3 (word 9) 0xd9d4d039 4, setD f3 (word 12) 0xe6db99e5 11,
    setC f3 (word 15) 0x1fa27cf8 16, setB f3 (word 2) 0xc4ac5665 23,
    setA f4 (word 0) 0xf4292244 6, setD f4 (word 7) 0x432aff97 10,
    setC f4 (word 14) 0xab9423a7 15, setB f4 (word 5) 0xfc93a039 21,
    setA f4 (word 12) 0x655b59c3 6, setD f4 (word 3) 0x8f0ccc92 10,
    setC f4 (word 10) 0xffeff47d 15, setB f4 (word 1) 0x85845dd1 21,
    setA f4 (word 8) 0x6fa87e4f 6, setD f4 (word 15) 0xfe2ce6e0 10,
    setC f4 (word 6) 0xa3014314 15, setB f4 (word 13) 0x4e0811a1 21,
    setA f4 (word 4) 0xf7537e82 6, setD f4 (word 11) 0xbd3af235 10,
    setC f4 (word 2) 0x2ad7d2bb 15, setB f4 (word 9) 0xeb86d391 21]

def processBlock (digest : Vector UInt32 4) (input : List UInt8) : Vector UInt32 4 :=
  let word (index : Nat) := swap (input32 input index)
  let r := (lines word).foldl (fun r line => line r) ⟨digest[0], digest[1], digest[2], digest[3]⟩
  #v[digest[0] + r.a, digest[1] + r.b, digest[2] + r.c, digest[3] + r.d]

def algorithm : Algorithm where
  words := 4
  initialDigest := #v[0x67452301, 0xefcdab89, 0x98badcfe, 0x10325476]
  processBlock := processBlock
  lengthBytes := littleEndianBytes
  wordBytes := littleEndianWord
  length_lengthBytes _ := rfl

end MD5

namespace SHA1

structure Registers where
  a : UInt32
  b : UInt32
  c : UInt32
  d : UInt32
  e : UInt32
deriving DecidableEq, Repr

def f1 (b c d : UInt32) : UInt32 := d ^^^ (b &&& (c ^^^ d))

def f2 (b c d : UInt32) : UInt32 := b ^^^ c ^^^ d

def f3 (b c d : UInt32) : UInt32 := (b &&& c) ||| (b &&& d) ||| (c &&& d)

def rotate (a c : UInt32) : UInt32 := (a <<< c) ||| (a >>> (32 - c))

def swap (x : UInt32) : UInt32 := Endian.constSwap x

/-- Extend the sixteen input words by one word at a time up to `count` further words. -/
def extend : Nat → List UInt32 → List UInt32
  | 0, words => words
  | count + 1, words =>
    let i := words.length
    let word (index : Nat) := words.getD index 0
    extend count
      (words ++ [rotate (word (i - 3) ^^^ word (i - 8) ^^^ word (i - 14) ^^^ word (i - 16)) 1])

/-- The five lines of one loop iteration, starting at word `offset`. -/
def iteration (f : UInt32 → UInt32 → UInt32 → UInt32) (constant : UInt32) (word : Nat → UInt32)
    (offset : Nat) (r : Registers) : Registers :=
  let r := { r with
    e := r.e + (rotate r.a 5 + f r.b r.c r.d + word offset + constant), b := rotate r.b 30 }
  let r := { r with
    d := r.d + (rotate r.e 5 + f r.a r.b r.c + word (offset + 1) + constant), a := rotate r.a 30 }
  let r := { r with
    c := r.c + (rotate r.d 5 + f r.e r.a r.b + word (offset + 2) + constant), e := rotate r.e 30 }
  let r := { r with
    b := r.b + (rotate r.c 5 + f r.d r.e r.a + word (offset + 3) + constant), d := rotate r.d 30 }
  { r with
    a := r.a + (rotate r.b 5 + f r.c r.d r.e + word (offset + 4) + constant), c := rotate r.c 30 }

/-- One round: the loop over the four indices from `first` on. -/
def round (f : UInt32 → UInt32 → UInt32 → UInt32) (constant : UInt32) (word : Nat → UInt32)
    (first : Nat) (r : Registers) : Registers :=
  (List.range' first 4).foldl (fun r i => iteration f constant word (5 * i) r) r

def processBlock (digest : Vector UInt32 5) (input : List UInt8) : Vector UInt32 5 :=
  let words := extend 64 ((List.range 16).map fun i => swap (input32 input i))
  let word (index : Nat) := words.getD index 0
  let r : Registers := ⟨digest[0], digest[1], digest[2], digest[3], digest[4]⟩
  let r := round f1 0x5a827999 word 0 r
  let r := round f2 0x6ed9eba1 word 4 r
  let r := round f3 0x8f1bbcdc word 8 r
  let r := round f2 0xca62c1d6 word 12 r
  #v[digest[0] + r.a, digest[1] + r.b, digest[2] + r.c, digest[3] + r.d, digest[4] + r.e]

def algorithm : Algorithm where
  words := 5
  initialDigest := #v[0x67452301, 0xefcdab89, 0x98badcfe, 0x10325476, 0xc3d2e1f0]
  processBlock := processBlock
  lengthBytes := bigEndianBytes
  wordBytes := bigEndianWord
  length_lengthBytes _ := rfl

end SHA1

namespace SHA256

structure Registers where
  a : UInt32
  b : UInt32
  c : UInt32
  d : UInt32
  e : UInt32
  f : UInt32
  g : UInt32
  h : UInt32
deriving DecidableEq, Repr

def rotate (a c : UInt32) : UInt32 := (a >>> c) ||| (a <<< (32 - c))

/-- Choice summand of a round. -/
def f1 (e f g : UInt32) : UInt32 :=
  (rotate e 6 ^^^ rotate e 11 ^^^ rotate e 25) + ((e &&& f) ^^^ (~~~e &&& g))

/-- Majority summand of a round. -/
def f2 (a b c : UInt32) : UInt32 :=
  (rotate a 2 ^^^ rotate a 13 ^^^ rotate a 22) + (((a ||| b) &&& c) ||| (a &&& b))

def swap (x : UInt32) : UInt32 := Endian.constSwap x

/-- The line that assigns `d` and `h`. -/
def lineH (constant word : UInt32) (r : Registers) : Registers :=
  let x := r.h + f1 r.e r.f r.g + constant + word
  { r with d := r.d + x, h := x + f2 r.a r.b r.c }

def lineG (constant word : UInt32) (r : Registers) : Registers :=
  let x := r.g + f1 r.d r.e r.f + constant + word
  { r with c := r.c + x, g := x + f2 r.h r.a r.b }

def lineF (constant word : UInt32) (r : Registers) : Registers :=
  let x := r.f + f1 r.c r.d r.e + constant + word
  { r with b := r.b + x, f := x + f2 r.g r.h r.a }

def lineE (constant word : UInt32) (r : Registers) : Registers :=
  let x := r.e + f1 r.b r.c r.d + constant + word
  { r with a := r.a + x, e := x + f2 r.f r.g r.h }

def lineD (constant word : UInt32) (r : Registers) : Registers :=
  let x := r.d + f1 r.a r.b r.c + constant + word
  { r with h := r.h + x, d := x + f2 r.e r.f r.g }

def lineC (constant word : UInt32) (r : Registers) : Registers :=
  let x := r.c + f1 r.h r.a r.b + constant + word
  { r with g := r.g + x, c := x + f2 r.d r.e r.f }

def lineB (constant word : UInt32) (r : Registers) : Registers :=
  let x := r.b + f1 r.g r.h r.a + constant + word
  { r with f := r.f + x, b := x + f2 r.c r.d r.e }

def lineA (constant word : UInt32) (r : Registers) : Registers :=
  let x := r.a + f1 r.f r.g r.h + constant + word
  { r with e := r.e + x, a := x + f2 r.b r.c r.d }

/-- The eight line forms in the order in which every round lists them. -/
def lineForms : List (UInt32 → UInt32 → Registers → Registers) :=
  [lineH, lineG, lineF, lineE, lineD, lineC, lineB, lineA]

/-- One round: eight lines with their constants, starting at word `offset`. -/
def round (constants : List UInt32) (offset : Nat) (words : List UInt32) (r : Registers) :
    Registers :=
  let calls := lineForms.zip (constants.zip (words.drop offset))
  calls.foldl (fun r call => call.1 call.2.1 call.2.2 r) r

/-- Extend the word list one word at a time by `count` further words. -/
def extend : Nat → List UInt32 → List UInt32
  | 0, words => words
  | count + 1, words =>
    let i := words.length
    let word (index : Nat) := words.getD index 0
    extend count
      (words ++
        [word (i - 16) +
          (rotate (word (i - 15)) 7 ^^^ rotate (word (i - 15)) 18 ^^^ (word (i - 15) >>> 3)) +
          word (i - 7) +
          (rotate (word (i - 2)) 17 ^^^ rotate (word (i - 2)) 19 ^^^ (word (i - 2) >>> 10))])

def processBlock (digest : Vector UInt32 8) (input : List UInt8) : Vector UInt32 8 :=
  let r : Registers :=
    ⟨digest[0], digest[1], digest[2], digest[3], digest[4], digest[5], digest[6], digest[7]⟩
  let words := (List.range 16).map fun i => swap (input32 input i)
  let r := round [0x428a2f98, 0x71374491, 0xb5c0fbcf, 0xe9b5dba5,
    0x3956c25b, 0x59f111f1, 0x923f82a4, 0xab1c5ed5] 0 words r
  let r := round [0xd807aa98, 0x12835b01, 0x243185be, 0x550c7dc3,
    0x72be5d74, 0x80deb1fe, 0x9bdc06a7, 0xc19bf174] 8 words r
  let words := extend 8 words
  let r := round [0xe49b69c1, 0xefbe4786, 0x0fc19dc6, 0x240ca1cc,
    0x2de92c6f, 0x4a7484aa, 0x5cb0a9dc, 0x76f988da] 16 words r
  let words := extend 8 words
  let r := round [0x983e5152, 0xa831c66d, 0xb00327c8, 0xbf597fc7,
    0xc6e00bf3, 0xd5a79147, 0x06ca6351, 0x14292967] 24 words r
  let words := extend 8 words
  let r := round [0x27b70a85, 0x2e1b2138, 0x4d2c6dfc, 0x53380d13,
    0x650a7354, 0x766a0abb, 0x81c2c92e, 0x92722c85] 32 words r
  let words := extend 8 words
  let r := round [0xa2bfe8a1, 0xa81a664b, 0xc24b8b70, 0xc76c51a3,
    0xd192e819, 0xd6990624, 0xf40e3585, 0x106aa070] 40 words r
  let words := extend 8 words
  let r := round [0x19a4c116, 0x1e376c08, 0x2748774c, 0x34b0bcb5,
    0x391c0cb3, 0x4ed8aa4a, 0x5b9cca4f, 0x682e6ff3] 48 words r
  let words := extend 8 words
  let r := round [0x748f82ee, 0x78a5636f, 0x84c87814, 0x8cc70208,
    0x90befffa, 0xa4506ceb, 0xbef9a3f7, 0xc67178f2] 56 words r
  #v[digest[0] + r.a, digest[1] + r.b, digest[2] + r.c, digest[3] + r.d,
    digest[4] + r.e, digest[5] + r.f, digest[6] + r.g, digest[7] + r.h]

def algorithm : Algorithm where
  words := 8
  initialDigest := #v[0x6a09e667, 0xbb67ae85, 0x3c6ef372, 0xa54ff53a,
    0x510e527f, 0x9b05688c, 0x1f83d9ab, 0x5be0cd19]
  processBlock := processBlock
  lengthBytes := bigEndianBytes
  wordBytes := bigEndianWord
  length_lengthBytes _ := rfl

end SHA256

/-- The specialization selected by a hash type. -/
def MdHashType.algorithm : MdHashType → Algorithm
  | .md5 => MD5.algorithm
  | .sha1 => SHA1.algorithm
  | .sha256 => SHA256.algorithm

end Fusion
