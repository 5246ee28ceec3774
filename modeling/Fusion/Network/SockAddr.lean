import Fusion.Network.SocketAddress

/-!
# Socket addresses through a `sockaddr`

`ToSockAddr` writes the fields of the platform's structure and `FromSockAddr` reads them back.  For
Unix addresses the reader measures the text of the object that it fills, not the one it reads, and
takes nothing over.
-/

namespace Fusion.Network.SocketAddress

open Words

/-- The size of the structure for a family. -/
def sockLen : AddressFamily → Nat
  | .inet4 => 16
  | .inet6 => 28
  | .unix => 110
  | .none | .unspecified => 0

section Fields

variable {memory : List UInt8}

theorem familyAt_of_peek {family : AddressFamily}
    (read : Memory.peek 0 memory 0 2 = littleEndian 2 family.number) :
    AddressFamily.ofNumber (familyAt memory) = AddressFamily.ofNumber family.number := by
  have small : family.number < 256 ^ 2 := by cases family <;> decide
  rw [familyAt, read, ofLittleEndian_littleEndian small]

theorem portAt_of_peek {port : UInt16}
    (read : Memory.peek 0 memory 2 2 = bigEndian 2 port.toNat) : portAt memory = port := by
  rw [portAt, read, ofBigEndian_bigEndian port.toNat_lt, UInt16.ofNat_toNat]

theorem wordAt_of_peek {offset : Nat} {word : UInt32}
    (read : Memory.peek 0 memory offset 4 = bigEndian 4 word.toNat) :
    wordAt memory offset = word := by
  rw [wordAt, read, ofBigEndian_bigEndian word.toNat_lt, UInt32.ofNat_toNat]

theorem bytesAt_of_peek {offset count : Nat} {bytes : Vector UInt8 count}
    (read : Memory.peek 0 memory offset count = bytes.toList) :
    bytesAt memory offset count = bytes := by
  apply Vector.toList_inj.mp
  simpa [bytesAt] using read

theorem fit_inetFields {inet : InetAddr} (large : 16 ≤ memory.length) :
    Memory.Fit (inetFields inet) memory.length := by
  simp only [Memory.Fit, inetFields, clearField, familyField, portField, List.forall_mem_cons]
  simp
  omega

theorem fit_inet6Fields {inet6 : Inet6Addr} (large : 28 ≤ memory.length) :
    Memory.Fit (inet6Fields inet6) memory.length := by
  simp only [Memory.Fit, inet6Fields, clearField, familyField, portField, List.forall_mem_cons]
  simp
  omega

theorem fit_unixFields {unix : UnixAddr} (large : 110 ≤ memory.length) :
    Memory.Fit (unixFields unix) memory.length := by
  simp only [Memory.Fit, unixFields, clearField, familyField, List.forall_mem_cons]
  simp
  omega

variable (asserts : Bool) (start : SocketAddress)

/-- The fields of a `sockaddr_in` are read back. -/
theorem fromSockAddr_inetFields (inet : InetAddr) (large : 16 ≤ memory.length) :
    fromSockAddr asserts start (Memory.copyAll memory (inetFields inet)) =
      ({ family := .inet4, address := .inet inet }, .ok ()) := by
  have fit := @fit_inetFields memory inet large
  have family := Memory.peek_copyAll 0 (show (inetFields inet)[1]? = some (0, _) from rfl)
    (length_littleEndian 2 _) fit (by simp [inetFields, portField])
  have address := Memory.peek_copyAll 0 (show (inetFields inet)[2]? = some (4, _) from rfl)
    inet.address.length_toList fit (by simp [inetFields, portField])
  have port := Memory.peek_copyAll 0 (show (inetFields inet)[3]? = some (2, _) from rfl)
    (length_bigEndian 2 _) fit (by simp [inetFields])
  have family_eq : AddressFamily.ofNumber (familyAt (Memory.copyAll memory (inetFields inet))) =
      .inet4 := familyAt_of_peek family
  rw [fromSockAddr, family_eq, bytesAt_of_peek address, portAt_of_peek port]

/-- The fields of a `sockaddr_in6` are read back. -/
theorem fromSockAddr_inet6Fields (inet6 : Inet6Addr) (large : 28 ≤ memory.length) :
    fromSockAddr asserts start (Memory.copyAll memory (inet6Fields inet6)) =
      ({ family := .inet6, address := .inet6 inet6 }, .ok ()) := by
  have fit := @fit_inet6Fields memory inet6 large
  have family := Memory.peek_copyAll 0 (show (inet6Fields inet6)[1]? = some (0, _) from rfl)
    (length_littleEndian 2 _) fit (by simp [inet6Fields, portField])
  have port := Memory.peek_copyAll 0 (show (inet6Fields inet6)[2]? = some (2, _) from rfl)
    (length_bigEndian 2 _) fit (by simp [inet6Fields])
  have flowInfo := Memory.peek_copyAll 0 (show (inet6Fields inet6)[3]? = some (4, _) from rfl)
    (length_bigEndian 4 _) fit (by simp [inet6Fields])
  have scope := Memory.peek_copyAll 0 (show (inet6Fields inet6)[4]? = some (24, _) from rfl)
    (length_bigEndian 4 _) fit (by simp [inet6Fields])
  have address := Memory.peek_copyAll 0 (show (inet6Fields inet6)[5]? = some (8, _) from rfl)
    inet6.address.length_toList fit (by simp [inet6Fields])
  have family_eq : AddressFamily.ofNumber (familyAt (Memory.copyAll memory (inet6Fields inet6))) =
      .inet6 := familyAt_of_peek family
  rw [fromSockAddr, family_eq, bytesAt_of_peek address, portAt_of_peek port,
    wordAt_of_peek flowInfo, wordAt_of_peek scope]

/-- The new object's text is empty, so nothing of `sun_path` is copied. -/
theorem unixFrom_eq (memory : List UInt8) : unixFrom memory = {} := by
  have length_eq : StringUtil.length ({} : UnixAddr).path.toList 104 = 0 := by decide +kernel
  unfold unixFrom
  simp only [length_eq, Nat.not_lt_zero, if_false]
  refine congrArg UnixAddr.mk (Vector.ext fun place place_lt => ?_)
  simp [Vector.get]

theorem fromSockAddr_unixFields (unix : UnixAddr) (large : 110 ≤ memory.length) :
    fromSockAddr asserts start (Memory.copyAll memory (unixFields unix)) =
      ({ family := .unix, address := .unix {} }, .ok ()) := by
  have fit := @fit_unixFields memory unix large
  have family := Memory.peek_copyAll 0 (show (unixFields unix)[1]? = some (0, _) from rfl)
    (length_littleEndian 2 _) fit (by simp [unixFields])
  have family_eq : AddressFamily.ofNumber (familyAt (Memory.copyAll memory (unixFields unix))) =
      .unix := familyAt_of_peek family
  rw [fromSockAddr, family_eq, unixFrom_eq]

end Fields

section RoundTrip

variable {memory : List UInt8} {len : Nat}

theorem fill_of_large {α : Type} {size : Nat} {value : α} {fields : α → List (Nat × List UInt8)}
    (large : size ≤ len) :
    fill size (.ok value) fields memory len =
      .ok { memory := Memory.copyAll memory (fields value), len := size, returned := true } := by
  rw [fill, if_neg (Nat.not_lt.mpr large)]
  rfl

theorem equal_inet (left right : InetAddr) :
    equal { family := .inet4, address := .inet left } { family := .inet4, address := .inet right } =
      .ok (left.port == right.port &&
        MemoryUtil.equal left.address.toList right.address.toList 4) := rfl

theorem equal_inet6 (left right : Inet6Addr) :
    equal { family := .inet6, address := .inet6 left }
        { family := .inet6, address := .inet6 right } =
      .ok (left.port == right.port &&
        MemoryUtil.equal left.address.toList right.address.toList 16) := rfl

theorem equal_unix (left right : UnixAddr) :
    equal { family := .unix, address := .unix left } { family := .unix, address := .unix right } =
      .ok (MemoryUtil.equal left.path.toList right.path.toList 104) := rfl

/-- An address comes back from its `sockaddr` exactly if it is not a Unix address with a path. -/
theorem fromSockAddr_toSockAddr_iff (asserts : Bool) (start : SocketAddress)
    {self : SocketAddress} (tagged : self.Tagged)
    (addressed : self.family = .inet4 ∨ self.family = .inet6 ∨ self.family = .unix)
    (large : sockLen self.family ≤ len) (inside : len ≤ memory.length) :
    ∃ written, self.toSockAddr asserts (some memory) len =
        .ok { memory := written, len := sockLen self.family, returned := true } ∧
      ((start.fromSockAddr asserts written).1.equal self = .ok true ↔
        ∀ unix, self.address = .unix unix → unix.path.toList.take 104 = List.replicate 104 0) := by
  have nonzero : len ≠ 0 := by
    rcases addressed with family_eq | family_eq | family_eq
    all_goals
      rw [family_eq, sockLen] at large
      omega
  obtain ⟨address, family⟩ := self
  rcases addressed with rfl | rfl | rfl
  · obtain ⟨inet, rfl⟩ := tagged
    refine ⟨Memory.copyAll memory (inetFields inet), ?_, ?_⟩
    · rw [toSockAddr, if_neg nonzero]
      exact fill_of_large large
    · rw [fromSockAddr_inetFields asserts start inet (large.trans inside), equal_inet]
      simp [MemoryUtil.equal_iff]
  · obtain ⟨inet6, rfl⟩ := tagged
    refine ⟨Memory.copyAll memory (inet6Fields inet6), ?_, ?_⟩
    · rw [toSockAddr, if_neg nonzero]
      exact fill_of_large large
    · rw [fromSockAddr_inet6Fields asserts start inet6 (large.trans inside), equal_inet6]
      simp [MemoryUtil.equal_iff]
  · obtain ⟨unix, rfl⟩ := tagged
    refine ⟨Memory.copyAll memory (unixFields unix), ?_, ?_⟩
    · rw [toSockAddr, if_neg nonzero]
      exact fill_of_large large
    · rw [fromSockAddr_unixFields asserts start unix (large.trans inside), equal_unix]
      have empty : ({} : UnixAddr).path.toList.take 104 = List.replicate 104 0 := by decide +kernel
      rw [Except.ok.injEq, MemoryUtil.equal_iff (by simp), empty]
      constructor
      · rintro same other ⟨⟩
        exact same.symm
      · intro blank
        exact (blank unix rfl).symm

end RoundTrip

theorem fromSockAddr_toSockAddr_iff_loopback :
    ∃ written, (ofInet #v[127, 0, 0, 1] 80).toSockAddr true (some (List.replicate 128 7)) 128 =
        .ok { memory := written, len := 16, returned := true } ∧
      (fromSockAddr true {} written).1.equal (ofInet #v[127, 0, 0, 1] 80) = .ok true := by
  obtain ⟨written, filled, back⟩ := @fromSockAddr_toSockAddr_iff (List.replicate 128 7) 128 true {}
    (ofInet #v[127, 0, 0, 1] 80) ⟨_, rfl⟩ (.inl rfl) (by decide) (by simp)
  exact ⟨written, filled, back.mpr (by simp [ofInet])⟩

/-- A Unix address with the path `a`. -/
def pathA : SocketAddress where
  family := .unix
  address := .unix { path := (Vector.replicate 105 0).set 0 97 }

/-- The path is written and not read back. -/
theorem fromSockAddr_loses_path :
    ∃ written, pathA.toSockAddr true (some (List.replicate 110 0)) 110 =
        .ok { memory := written, len := 110, returned := true } ∧
      written.take 4 = [1, 0, 97, 0] ∧
      (fromSockAddr true {} written).1.equal pathA = .ok false := by
  exact ⟨_, rfl, by decide +kernel, by decide +kernel⟩

end Fusion.Network.SocketAddress
