import Fusion.Network.Address

/-!
# Mapped addresses

`AsV6` puts an IPv4 address into the block ::ffff:0:0/96, which `IsMappedV4` recognises, and `AsV4`
takes it out again.  The address without any bits is the empty one in both families, and that is
what it is converted to.
-/

namespace Fusion.Network

/-! ## The conversions -/

/-- The default address, all of whose bytes are zero. -/
def InetAddress.any : InetAddress := Vector.replicate 4 0

def Inet6Address.any : Inet6Address := Vector.replicate 16 0

def InetAddress.isEmpty (address : InetAddress) : Bool := address.toList.all (· == 0)

def Inet6Address.isEmpty (address : Inet6Address) : Bool := address.toList.all (· == 0)

def InetAddress.asV6 (address : InetAddress) : Inet6Address :=
  if address.isEmpty then .any
  else
    (((((Inet6Address.any.set! 10 0xff).set! 11 0xff).set! 12 address[0]!).set! 13 address[1]!).set!
      14 address[2]!).set! 15 address[3]!

def Inet6Address.isMappedV4 (address : Inet6Address) : Bool :=
  if address.isEmpty then false
  -- The loop over the first ten bytes stops at one that is not zero.
  else if (address.toList.take 10).any (· != 0x00) then false
  else address[10]! == 0xff && address[11]! == 0xff

def Inet6Address.asV4 (address : Inet6Address) : InetAddress :=
  if address.isEmpty || !address.isMappedV4 then .any
  else
    (((InetAddress.any.set! 0 address[12]!).set! 1 address[13]!).set! 2 address[14]!).set! 3
      address[15]!

/-! ## The block -/

/-- The first 96 bits of ::ffff:0:0. -/
def mappedBytes : List UInt8 := List.replicate 10 0 ++ [0xff, 0xff]

/-- The addresses of ::ffff:0:0/96. -/
def InMappedBlock (address : Inet6Address) : Prop := address.toList.take 12 = mappedBytes

/-- The address ::ffff:0.0.0.0. -/
def mappedAny : Inet6Address := (Inet6Address.any.set! 10 0xff).set! 11 0xff

instance (address : Inet6Address) : Decidable (InMappedBlock address) :=
  inferInstanceAs (Decidable (_ = _))

theorem all_zero_iff {size : Nat} {address : Vector UInt8 size} :
    address.toList.all (· == 0) = true ↔ address = Vector.replicate size 0 := by
  rw [← Vector.toList_inj, Vector.toList_replicate, List.eq_replicate_iff, List.all_eq_true]
  simp

theorem InetAddress.isEmpty_iff {address : InetAddress} : address.isEmpty = true ↔ address = .any :=
  all_zero_iff

variable {address : Inet6Address}

theorem Inet6Address.isEmpty_iff : address.isEmpty = true ↔ address = .any :=
  all_zero_iff

theorem drop_toList_eq {start : Nat} (address : Vector UInt8 (start + 4)) :
    address.toList.drop start =
      [address[start]!, address[start + 1]!, address[start + 2]!, address[start + 3]!] := by
  have size_eq := address.length_toList
  rw [List.drop_eq_getElem_cons (by omega), List.drop_eq_getElem_cons (by omega),
    List.drop_eq_getElem_cons (by omega), List.drop_eq_getElem_cons (by omega),
    List.drop_of_length_le (by omega), getElem!_pos address start (by omega),
    getElem!_pos address (start + 1) (by omega), getElem!_pos address (start + 2) (by omega),
    getElem!_pos address (start + 3) (by omega)]
  simp only [Vector.getElem_toList]

theorem Inet6Address.take_toList (address : Inet6Address) :
    address.toList.take 12 = address.toList.take 10 ++ [address[10]!, address[11]!] := by
  rw [List.take_add_one, List.take_add_one, List.append_assoc]
  simp

theorem InetAddress.asV6_any : InetAddress.any.asV6 = .any :=
  if_pos (isEmpty_iff.mpr rfl)

theorem InetAddress.toList_asV6 {address : InetAddress} (filled : address ≠ .any) :
    address.asV6.toList = mappedBytes ++ address.toList := by
  have bytes_eq := @drop_toList_eq 0 address
  rw [List.drop_zero] at bytes_eq
  rw [asV6, if_neg (fun empty => filled (isEmpty_iff.mp empty)), bytes_eq]
  rfl

theorem not_inMappedBlock_any : ¬ InMappedBlock .any := by
  decide

theorem not_isEmpty_of_mapped (mapped : InMappedBlock address) : address.isEmpty ≠ true := by
  intro empty
  rw [Inet6Address.isEmpty_iff.mp empty] at mapped
  exact not_inMappedBlock_any mapped

/-- The checks of `IsMappedV4` are those of the block. -/
theorem Inet6Address.isMappedV4_iff : address.isMappedV4 = true ↔ InMappedBlock address := by
  have zeros_iff : (address.toList.take 10).any (· != 0x00) = false ↔
      address.toList.take 10 = List.replicate 10 0 := by
    rw [List.eq_replicate_iff, List.any_eq_false]
    simp
  rw [isMappedV4]
  constructor
  · intro recognised
    split_ifs at recognised with empty other
    rw [Bool.not_eq_true, zeros_iff] at other
    rw [Bool.and_eq_true, beq_iff_eq, beq_iff_eq] at recognised
    rw [InMappedBlock, take_toList, other, recognised.1, recognised.2]
    rfl
  · intro mapped
    have filled := not_isEmpty_of_mapped mapped
    rw [InMappedBlock, take_toList] at mapped
    obtain ⟨zeros, ones⟩ := List.append_inj' mapped rfl
    obtain ⟨tenth, rest⟩ := List.cons.inj ones
    have eleventh := (List.cons.inj rest).1
    rw [if_neg filled, zeros_iff.mpr zeros, tenth, eleventh]
    rfl

theorem Inet6Address.toList_asV4 (mapped : InMappedBlock address) :
    address.asV4.toList = address.toList.drop 12 := by
  have recognised := isMappedV4_iff.mpr mapped
  have filled := not_isEmpty_of_mapped mapped
  rw [asV4, if_neg (by simp [recognised, filled]), @drop_toList_eq 12 address]
  rfl

/-- What `AsV4` gives for an address outside the block. -/
theorem Inet6Address.asV4_of_not_mapped (outside : ¬ InMappedBlock address) :
    address.asV4 = .any := by
  rw [← isMappedV4_iff] at outside
  rw [asV4, if_pos (by simp [outside])]

theorem inMappedBlock_asV6 {address : InetAddress} (filled : address ≠ .any) :
    InMappedBlock address.asV6 := by
  rw [InMappedBlock, InetAddress.toList_asV6 filled]
  exact List.take_left' rfl

/-- Addresses of either family come back from the other one: those of the first all, those of the
second from the block ::ffff:0:0/96, which is what is recognised as mapped.  The one that the empty
address is mapped to in the block comes back as the empty one. -/
theorem mappedAddress_roundTrip :
    (∀ address : InetAddress, address.asV6.asV4 = address) ∧
      (∀ address : InetAddress, address.asV6.isMappedV4 = true ↔ address ≠ .any) ∧
      (∀ address : Inet6Address, address.isMappedV4 = true ↔ InMappedBlock address) ∧
      (∀ address : Inet6Address, address.isMappedV4 = true → address ≠ mappedAny →
        address.asV4.asV6 = address) ∧
      mappedAny.asV4.asV6 = .any := by
  refine ⟨?_, ?_, fun address => Inet6Address.isMappedV4_iff, ?_, by decide⟩
  · intro address
    by_cases empty : address = .any
    · rw [empty, InetAddress.asV6_any, Inet6Address.asV4_of_not_mapped not_inMappedBlock_any]
    · apply Vector.toList_inj.mp
      rw [Inet6Address.toList_asV4 (inMappedBlock_asV6 empty), InetAddress.toList_asV6 empty]
      exact List.drop_left' rfl
  · intro address
    rw [Inet6Address.isMappedV4_iff]
    constructor
    · rintro mapped rfl
      rw [InetAddress.asV6_any] at mapped
      exact not_inMappedBlock_any mapped
    · exact inMappedBlock_asV6
  · intro address recognised other
    have mapped := Inet6Address.isMappedV4_iff.mp recognised
    have bytes_eq := Inet6Address.toList_asV4 mapped
    have split_eq : address.toList = mappedBytes ++ address.asV4.toList := by
      rw [bytes_eq, ← mapped, List.take_append_drop]
    have filled : address.asV4 ≠ .any := by
      intro empty
      apply other
      apply Vector.toList_inj.mp
      rw [split_eq, empty]
      rfl
    apply Vector.toList_inj.mp
    rw [InetAddress.toList_asV6 filled, split_eq]

/-- The address ::ffff:0.0.0.0 is mapped, and comes back as ::. -/
theorem mappedAny_asV4_asV6 : mappedAny.isMappedV4 = true ∧ mappedAny.asV4.asV6 ≠ mappedAny := by
  decide

end Fusion.Network
