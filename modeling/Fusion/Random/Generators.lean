import Mathlib.Data.List.Basic

/-!
# Random number generators

The three xorshift generators of `Random`, their seeds, and what they draw.
-/

namespace Fusion.Random

/-! ## Utilities -/

/-- `Mix64`, which scrambles a seed. -/
def mix64 (value : UInt64) : UInt64 :=
  let value := value ^^^ (value >>> 33)
  let value := value * 0xff51afd7ed558ccd
  let value := value ^^^ (value >>> 33)
  let value := value * 0xc4ceb9fe1a85ec53
  value ^^^ (value >>> 33)

def rotl (value count : UInt64) : UInt64 := (value <<< count) ||| (value >>> (64 - count))

/-! ## States -/

structure XorShift32 where
  state : UInt32

structure XorShift128 where
  state0 : UInt64
  state1 : UInt64

/-- Sixteen words and an index. -/
structure XorShift1024 where
  words : List UInt64
  p : Nat
  /-- The words are a fixed array. -/
  length_words : words.length = 16

/-- The constructor with a seed. -/
def XorShift32.ofSeed (seed : UInt32) : XorShift32 := { state := if seed ≠ 0 then seed else 1 }

/-- The constructor with a seed. -/
def XorShift128.ofSeed (seed : UInt64) : XorShift128 :=
  let seed := if seed = 0 then 1 else seed
  { state0 := mix64 seed, state1 := mix64 (mix64 seed) }

/-- The words that the constructor of `XorShift1024` puts into the array from here on. -/
def mixedWords : Nat → UInt64 → List UInt64
  | 0, _ => []
  | count + 1, seed => mix64 seed :: mixedWords count (mix64 seed)

theorem length_mixedWords (count : Nat) (seed : UInt64) :
    (mixedWords count seed).length = count := by
  induction count generalizing seed with
  | zero => rfl
  | succ count ih => rw [mixedWords, List.length_cons, ih]

/-- The constructor with a seed. -/
def XorShift1024.ofSeed (seed : UInt64) : XorShift1024 :=
  let seed := if seed = 0 then 1 else seed
  { words := mixedWords 16 seed, p := 0, length_words := length_mixedWords 16 seed }

/-! ## Draws -/

/-- What the templates of `Random` ask of a generator. -/
class RandomState (σ : Type) where
  bits32 : σ → UInt32 × σ
  bits64 : σ → UInt64 × σ

namespace XorShift32

/-- The next state. -/
def next (state : UInt32) : UInt32 :=
  let state := state ^^^ (state <<< 13)
  let state := state ^^^ (state >>> 17)
  state ^^^ (state <<< 5)

def bits32 (self : XorShift32) : UInt32 × XorShift32 :=
  let seed := self.state
  let state := next seed
  (state + seed, { state })

def bits64 (self : XorShift32) : UInt64 × XorShift32 :=
  let (high, self) := self.bits32
  let (low, self) := self.bits32
  ((high.toUInt64 <<< 32) ||| low.toUInt64, self)

instance : RandomState XorShift32 := { bits32, bits64 }

end XorShift32

namespace XorShift128

def bits64 (self : XorShift128) : UInt64 × XorShift128 :=
  let state0 := self.state0
  let state1 := self.state1
  let result := state0 + state1
  let state1 := state1 ^^^ state0
  (result, { state0 := rotl state0 55 ^^^ state1 ^^^ (state1 <<< 14), state1 := rotl state1 36 })

def bits32 (self : XorShift128) : UInt32 × XorShift128 :=
  let (result, self) := self.bits64
  (result.toUInt32, self)

instance : RandomState XorShift128 := { bits32, bits64 }

end XorShift128

namespace XorShift1024

/-- The word that replaces the next one. -/
def mixed (state0 state1 : UInt64) : UInt64 :=
  let state1 := state1 ^^^ (state1 <<< 31)
  state1 ^^^ state0 ^^^ (state1 >>> 11) ^^^ (state0 >>> 30)

def bits64 (self : XorShift1024) : UInt64 × XorShift1024 :=
  let state0 := self.words.getD self.p 0
  let p := (self.p + 1) &&& 15
  let state1 := self.words.getD p 0
  let word := mixed state0 state1
  (word * 0x9e3779b97f4a7c13,
    { words := self.words.set p word, p,
      length_words := by rw [List.length_set, self.length_words] })

def bits32 (self : XorShift1024) : UInt32 × XorShift1024 :=
  let (result, self) := self.bits64
  (result.toUInt32, self)

instance : RandomState XorShift1024 := { bits32, bits64 }

end XorShift1024

end Fusion.Random
