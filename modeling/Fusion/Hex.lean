import Mathlib.Data.List.Basic

/-!
# Byte strings of fixed capacity

`Hex<N>` owns an array of `N` bytes of which the first `size` are in use.
-/

namespace Fusion

structure Hex (capacity : Nat) where
  data : List UInt8
  size : Nat
  /-- The bytes are a fixed array. -/
  length_data : data.length = capacity

namespace Hex

/-- The default constructor. -/
def empty (capacity : Nat) : Hex capacity where
  data := List.replicate capacity 0
  size := 0
  length_data := List.length_replicate

/-- The conversion to a span, for a size within the capacity. -/
def span {capacity : Nat} (hex : Hex capacity) : List UInt8 := hex.data.take hex.size

end Hex
end Fusion
