import Fusion.Network.SocketAddress

/-!
# The order of socket addresses

`<` compares the bytes of addresses with one port and calls addresses with different ports
unordered, where `==` tells them apart.
-/

namespace Fusion.Network

/-- The port, which only Internet addresses have. -/
def AddressData.port : AddressData → UInt16
  | .inet address => address.port
  | .inet6 address => address.port
  | .unix _ => 0
  | .monostate => 0

/-- The bytes that are compared. -/
def AddressData.bytes : AddressData → List UInt8
  | .inet address => address.address.toList
  | .inet6 address => address.address.toList
  | .unix address => address.path.toList.take 104
  | .monostate => []

namespace SocketAddress

/-- One of three, and no two. -/
def ExactlyOne (first second third : Prop) : Prop :=
  first ∧ ¬second ∧ ¬third ∨ ¬first ∧ second ∧ ¬third ∨ ¬first ∧ ¬second ∧ third

section Order

variable {left right other : SocketAddress}

/-- Two addresses of one family that has an alternative. -/
structure Comparable (left right : SocketAddress) : Prop where
  left_tagged : left.Tagged
  right_tagged : right.Tagged
  same : left.family = right.family
  addressed : left.family = .inet4 ∨ left.family = .inet6 ∨ left.family = .unix

theorem Comparable.symm (comparable : Comparable left right) : Comparable right left where
  left_tagged := comparable.right_tagged
  right_tagged := comparable.left_tagged
  same := comparable.same.symm
  addressed := comparable.same ▸ comparable.addressed

theorem Comparable.trans (first : Comparable left right) (second : Comparable right other) :
    Comparable left other where
  left_tagged := first.left_tagged
  right_tagged := second.right_tagged
  same := first.same.trans second.same
  addressed := first.addressed

section

variable (comparable : Comparable left right)
include comparable

theorem Comparable.cases :
    (∃ l r : InetAddr, left = ⟨.inet l, .inet4⟩ ∧ right = ⟨.inet r, .inet4⟩) ∨
      (∃ l r : Inet6Addr, left = ⟨.inet6 l, .inet6⟩ ∧ right = ⟨.inet6 r, .inet6⟩) ∨
      ∃ l r : UnixAddr, left = ⟨.unix l, .unix⟩ ∧ right = ⟨.unix r, .unix⟩ := by
  obtain ⟨left, family⟩ := left
  obtain ⟨right, _⟩ := right
  obtain ⟨left_tagged, right_tagged, rfl, rfl | rfl | rfl⟩ := comparable
  · obtain ⟨l, rfl⟩ := left_tagged
    obtain ⟨r, rfl⟩ := right_tagged
    exact .inl ⟨l, r, rfl, rfl⟩
  · obtain ⟨l, rfl⟩ := left_tagged
    obtain ⟨r, rfl⟩ := right_tagged
    exact .inr (.inl ⟨l, r, rfl, rfl⟩)
  · obtain ⟨l, rfl⟩ := left_tagged
    obtain ⟨r, rfl⟩ := right_tagged
    exact .inr (.inr ⟨l, r, rfl, rfl⟩)

theorem Comparable.length_bytes : left.address.bytes.length = right.address.bytes.length := by
  obtain ⟨l, r, rfl, rfl⟩ | ⟨l, r, rfl, rfl⟩ | ⟨l, r, rfl, rfl⟩ := comparable.cases
  all_goals simp [AddressData.bytes]

/-- Both comparisons ask for one port and for an outcome of `memcmp`. -/
theorem Comparable.compareBy_memcmp (outcome : Ordering) :
    compareBy (fun left right count => memcmp (left.take count) (right.take count) = outcome)
        left right =
      .ok (left.address.port = right.address.port ∧
        memcmp left.address.bytes right.address.bytes = outcome : Bool) := by
  obtain ⟨l, r, rfl, rfl⟩ | ⟨l, r, rfl, rfl⟩ | ⟨l, r, rfl, rfl⟩ := comparable.cases
  · refine congrArg Except.ok (Bool.eq_iff_iff.mpr ?_)
    rw [decide_eq_true_iff]
    simp [AddressData.port, AddressData.bytes, List.take_of_length_le]
  · refine congrArg Except.ok (Bool.eq_iff_iff.mpr ?_)
    rw [decide_eq_true_iff]
    simp [AddressData.port, AddressData.bytes, List.take_of_length_le]
  · refine congrArg Except.ok (Bool.eq_iff_iff.mpr ?_)
    rw [decide_eq_true_iff]
    simp [AddressData.port, AddressData.bytes]

theorem Comparable.equal_iff :
    left.equal right = .ok true ↔ left.address.port = right.address.port ∧
      memcmp left.address.bytes right.address.bytes = .eq := by
  rw [equal, show compareBy MemoryUtil.equal left right = _ from
    comparable.compareBy_memcmp .eq]
  simp

theorem Comparable.less_iff :
    left.less right = .ok true ↔ left.address.port = right.address.port ∧
      memcmp left.address.bytes right.address.bytes = .lt := by
  rw [less, show compareBy MemoryUtil.less left right = _ from
    comparable.compareBy_memcmp .lt]
  simp

end

/-- For two addresses of one family exactly one of `<`, `==` and `>` holds if and only if they have
one port; `<` is transitive in any case. -/
theorem order_iff (comparable : Comparable left right) (next : Comparable right other) :
    (ExactlyOne (left.less right = .ok true) (left.equal right = .ok true)
        (right.less left = .ok true) ↔ left.address.port = right.address.port) ∧
      (left.less right = .ok true → right.less other = .ok true → left.less other = .ok true) := by
  constructor
  · rw [comparable.less_iff, comparable.equal_iff, comparable.symm.less_iff,
      memcmp_swap left.address.bytes]
    by_cases same : left.address.port = right.address.port
    · cases memcmp left.address.bytes right.address.bytes <;> simp [ExactlyOne, same]
    · simp [ExactlyOne, same, Ne.symm same]
  · rw [comparable.less_iff, next.less_iff, (comparable.trans next).less_iff,
      memcmp_lt_iff comparable.length_bytes, memcmp_lt_iff next.length_bytes,
      memcmp_lt_iff (comparable.trans next).length_bytes]
    rintro ⟨same, below⟩ ⟨same_next, below_next⟩
    exact ⟨same.trans same_next, List.lt_trans below below_next⟩

end Order

theorem comparable_ofInet (left right : InetAddress) (leftPort rightPort : UInt32) :
    Comparable (ofInet left leftPort) (ofInet right rightPort) where
  left_tagged := ⟨_, rfl⟩
  right_tagged := ⟨_, rfl⟩
  same := rfl
  addressed := .inl rfl

theorem order_iff_loopback :
    (ofInet #v[127, 0, 0, 1] 80).less (ofInet #v[127, 0, 0, 2] 80) = .ok true ∧
      (ofInet #v[127, 0, 0, 2] 80).less (ofInet #v[127, 0, 0, 3] 80) = .ok true ∧
      (ofInet #v[127, 0, 0, 1] 80).less (ofInet #v[127, 0, 0, 3] 80) = .ok true := by
  have first : (ofInet #v[127, 0, 0, 1] 80).less (ofInet #v[127, 0, 0, 2] 80) = .ok true := by
    decide +kernel
  have second : (ofInet #v[127, 0, 0, 2] 80).less (ofInet #v[127, 0, 0, 3] 80) = .ok true := by
    decide +kernel
  exact ⟨first, second, (order_iff (comparable_ofInet _ _ _ _)
    (comparable_ofInet _ _ _ _)).2 first second⟩

/-- Two ports of one host are neither equal nor ordered. -/
theorem ports_unordered :
    (ofInet #v[127, 0, 0, 1] 80).less (ofInet #v[127, 0, 0, 1] 81) = .ok false ∧
      (ofInet #v[127, 0, 0, 1] 80).equal (ofInet #v[127, 0, 0, 1] 81) = .ok false ∧
      (ofInet #v[127, 0, 0, 1] 81).less (ofInet #v[127, 0, 0, 1] 80) = .ok false := by
  refine ⟨?_, ?_, ?_⟩ <;> decide +kernel

end SocketAddress
end Fusion.Network
