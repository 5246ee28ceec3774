import Fusion.Library.Memory
import Fusion.Library.Runs
import Fusion.Library.Words
import Fusion.Memory.MemoryUtil
import Fusion.Network.Address
import Mathlib.Data.List.Basic

/-!
# Socket addresses

A `SocketAddress` is a family and a variant that are set apart from each other.  The comparisons and
conversions look at the family and then take the variant's alternative for it, which throws if the
variant holds another one.
-/

namespace Fusion.Network

/-! ## Values -/

/-- An IPv4 address and a port. -/
structure InetAddr where
  address : InetAddress
  port : UInt16 := 0
deriving DecidableEq

/-- An IPv6 address and what goes with it. -/
structure Inet6Addr where
  address : Inet6Address
  port : UInt16 := 0
  flowInfo : UInt32 := 0
  scope : UInt32 := 0
deriving DecidableEq

/-- The `path` has one byte more than `UnixAddr::LENGTH`. -/
structure UnixAddr where
  path : Vector UInt8 105 := Vector.replicate 105 0
deriving DecidableEq

/-- The alternatives of the `std::variant`. -/
inductive AddressData
  | monostate
  | inet (address : InetAddr)
  | inet6 (address : Inet6Addr)
  | unix (address : UnixAddr)
deriving DecidableEq

/-- The alternative that a variant holds. -/
def AddressData.index : AddressData → Nat
  | .monostate => 0
  | .inet _ => 1
  | .inet6 _ => 2
  | .unix _ => 3

/-- The variant and the family that tags it. -/
structure SocketAddress where
  address : AddressData := .monostate
  family : AddressFamily := .none
deriving DecidableEq

/-- What ends a call other than its return. -/
inductive Stop
  | badVariantAccess
  | assertion (message : String)
deriving DecidableEq

/-- `FUSION_ASSERT(false, message)`, which does nothing if assertions are not compiled in. -/
def assertFalse (asserts : Bool) (message : String) : Except Stop Unit :=
  if asserts then .error (.assertion message) else .ok ()

/-- `StringUtil::Length` with a bound. -/
def StringUtil.length (text : List UInt8) (bound : Nat) : Nat :=
  ((text.take bound).takeWhile (· ≠ 0)).length

namespace SocketAddress

/-! ## Construction and access -/

def inaddrLoopback : InetAddress := #v[127, 0, 0, 1]

def ofInet (address : InetAddress) (port : UInt32) : SocketAddress :=
  { address := .inet { address, port := port.toUInt16 }, family := .inet4 }

def ofInet6 (address : Inet6Address) (port : UInt32) : SocketAddress :=
  { address := .inet6 { address, port := port.toUInt16 }, family := .inet6 }

def inet (self : SocketAddress) : Except Stop InetAddr :=
  match self.address with
  | .inet address => .ok address
  | _ => .error .badVariantAccess

def inet6 (self : SocketAddress) : Except Stop Inet6Addr :=
  match self.address with
  | .inet6 address => .ok address
  | _ => .error .badVariantAccess

def unix (self : SocketAddress) : Except Stop UnixAddr :=
  match self.address with
  | .unix address => .ok address
  | _ => .error .badVariantAccess

/-! ## Conversion from and to a `sockaddr` -/

/-- The bytes of a field of a structure in memory. -/
def bytesAt (memory : List UInt8) (offset count : Nat) : Vector UInt8 count :=
  ⟨(Memory.peek 0 memory offset count).toArray, by simp⟩

/-- `sa_family`, in the byte order of the machine. -/
def familyAt (memory : List UInt8) : Nat := Words.ofLittleEndian (Memory.peek 0 memory 0 2)

/-- `ntohs` of a port field. -/
def portAt (memory : List UInt8) : UInt16 :=
  UInt16.ofNat (Words.ofBigEndian (Memory.peek 0 memory 2 2))

/-- Four bytes in network order. -/
def wordAt (memory : List UInt8) (offset : Nat) : UInt32 :=
  UInt32.ofNat (Words.ofBigEndian (Memory.peek 0 memory offset 4))

/-- A `UnixAddr` whose first bytes are copied from `sun_path`.  Their number is the length of the
text that the new object holds. -/
def unixFrom (memory : List UInt8) : UnixAddr :=
  let fresh : UnixAddr := {}
  let length := StringUtil.length fresh.path.toList 104
  { path := Vector.ofFn fun place =>
      if place < length then memory.getD (2 + place) 0 else fresh.path.get place }

def fromSockAddr (asserts : Bool) (self : SocketAddress) (memory : List UInt8) :
    SocketAddress × Except Stop Unit :=
  let family := AddressFamily.ofNumber (familyAt memory)
  match family with
  | .inet4 =>
    ({ family, address := .inet { address := bytesAt memory 4 4, port := portAt memory } }, .ok ())
  | .inet6 =>
    ({ family
       address := .inet6
        { address := bytesAt memory 8 16
          port := portAt memory
          flowInfo := wordAt memory 4
          scope := wordAt memory 24 } },
      .ok ())
  | .unix => ({ family, address := .unix (unixFrom memory) }, .ok ())
  | .none | .unspecified =>
    ({ self with family }, assertFalse asserts "Unsupported address family")

/-- What `ToSockAddr` leaves: the caller's memory and length, and whether it returns the memory's
address. -/
structure Filled where
  memory : List UInt8
  len : Nat
  returned : Bool

def familyField (family : AddressFamily) : Nat × List UInt8 :=
  (0, Words.littleEndian 2 family.number)

def portField (port : UInt16) : Nat × List UInt8 := (2, Words.bigEndian 2 port.toNat)

def clearField (count : Nat) : Nat × List UInt8 := (0, List.replicate count 0)

/-- The fields of a `sockaddr_in`, in the order in which they are written. -/
def inetFields (inet : InetAddr) : List (Nat × List UInt8) :=
  [clearField 16, familyField .inet4, (4, inet.address.toList), portField inet.port]

/-- The fields of a `sockaddr_in6`, in the order in which they are written. -/
def inet6Fields (inet6 : Inet6Addr) : List (Nat × List UInt8) :=
  [clearField 28, familyField .inet6, portField inet6.port,
    (4, Words.bigEndian 4 inet6.flowInfo.toNat), (24, Words.bigEndian 4 inet6.scope.toNat),
    (8, inet6.address.toList)]

/-- The fields of a `sockaddr_un`, in the order in which they are written. -/
def unixFields (unix : UnixAddr) : List (Nat × List UInt8) :=
  [clearField 110, familyField .unix, (2, unix.path.toList.take 104)]

/-- One case of `ToSockAddr`, for a structure of `size` bytes. -/
def fill {α : Type} (size : Nat) (data : Except Stop α) (fields : α → List (Nat × List UInt8))
    (memory : List UInt8) (len : Nat) : Except Stop Filled :=
  if len < size then .ok { memory, len, returned := false }
  else data.map fun data =>
    { memory := Memory.copyAll memory (fields data), len := size, returned := true }

def toSockAddr (asserts : Bool) (self : SocketAddress) (input : Option (List UInt8)) (len : Nat) :
    Except Stop Filled :=
  match input with
  | none => .ok { memory := [], len, returned := false }
  | some memory =>
    if len = 0 then .ok { memory, len, returned := false }
    else
      match self.family with
      | .inet4 => fill 16 self.inet inetFields memory len
      | .inet6 => fill 28 self.inet6 inet6Fields memory len
      | .unix => fill 110 self.unix unixFields memory len
      | .none | .unspecified =>
        (assertFalse asserts "Unsupported address family").map fun _ =>
          { memory, len := 0, returned := false }

/-! ## Conversion from and to text -/

/-- The port after the first colon and what stands before it; without a colon the port is zero. -/
def splitPort (text : List Char) : Result (UInt16 × List Char) :=
  match Strings.find text ':' 0 with
  | some colon =>
    (StringUtil.parseNumber .uint16 (text.drop (colon + 1)) 0).map fun port =>
      (UInt16.ofBitVec port, text.take colon)
  | none => .ok (0, text)

def fromString (functions : InetFunctions) (self : SocketAddress) (text : List Char) :
    SocketAddress × Except Stop (Result Unit) :=
  if text = [] then
    (self, .ok (.error { error := .invalidArgument, message := "empty socket address" }))
  else
    match splitPort text with
    | .error failure => (self, .ok (.error failure))
    | .ok (port, host) =>
      match parseAddress functions host with
      | .error failure => (self, .ok (.error failure))
      | .ok (.inet4 address) =>
        match self.inet with
        | .error stop => (self, .error stop)
        | .ok _ => ({ family := .inet4, address := .inet { address, port } }, .ok (.ok ()))
      | .ok (.inet6 address) =>
        match self.inet6 with
        | .error stop => (self, .error stop)
        -- The family is left as it was.
        | .ok _ => ({ self with address := .inet6 { address, port } }, .ok (.ok ()))

/-- The text of an address and a port. -/
def bracketed (address : List Char) (port : UInt16) : List Char :=
  '[' :: address ++ "]:".toList ++ (toString port.toNat).toList

/-- `ToString`. -/
def toText (functions : InetFunctions) (self : SocketAddress) : Except Stop (List Char) :=
  match self.family with
  | .inet4 => self.inet.map fun inet => bracketed (inet.address.toText functions) inet.port
  | .inet6 => self.inet6.map fun inet6 => bracketed (inet6.address.toText functions) inet6.port
  | .unix => self.unix.map fun unix =>
    "unix://".toList ++ (unix.path.toList.takeWhile (· ≠ 0)).map fun byte => Char.ofNat byte.toNat
  | .none | .unspecified => .ok []

/-! ## Comparison -/

/-- The cases that `==` and `<` share: the ports are equal, and the bytes compare as asked. -/
def compareBy (bytes : List UInt8 → List UInt8 → Nat → Bool) (left right : SocketAddress) :
    Except Stop Bool :=
  if left.family = right.family then
    match left.family with
    | .inet4 => do
        let leftInet ← left.inet
        let rightInet ← right.inet
        return leftInet.port == rightInet.port &&
          bytes leftInet.address.toList rightInet.address.toList 4
    | .inet6 => do
        let leftInet6 ← left.inet6
        let rightInet6 ← right.inet6
        return leftInet6.port == rightInet6.port &&
          bytes leftInet6.address.toList rightInet6.address.toList 16
    | .unix => do
        let leftUnix ← left.unix
        let rightUnix ← right.unix
        return bytes leftUnix.path.toList rightUnix.path.toList 104
    | .none | .unspecified => .ok false
  else .ok false

/-- `operator==`. -/
def equal : SocketAddress → SocketAddress → Except Stop Bool := compareBy MemoryUtil.equal

/-- `operator<`. -/
def less : SocketAddress → SocketAddress → Except Stop Bool := compareBy MemoryUtil.less

/-! ## The family and the alternative -/

/-- A family that has an alternative comes with it. -/
def Tagged (self : SocketAddress) : Prop :=
  match self.family with
  | .inet4 => ∃ inet, self.address = .inet inet
  | .inet6 => ∃ inet6, self.address = .inet6 inet6
  | .unix => ∃ unix, self.address = .unix unix
  | .none | .unspecified => True

theorem tagged_fromSockAddr (asserts : Bool) (self : SocketAddress) (memory : List UInt8) :
    (fromSockAddr asserts self memory).1.Tagged := by
  unfold fromSockAddr Tagged
  cases AddressFamily.ofNumber (familyAt memory) with
  | none => trivial
  | unspecified => trivial
  | inet4 => exact ⟨_, rfl⟩
  | inet6 => exact ⟨_, rfl⟩
  | unix => exact ⟨_, rfl⟩

theorem family_fromSockAddr (asserts : Bool) (self : SocketAddress) (memory : List UInt8) :
    (fromSockAddr asserts self memory).1.family = AddressFamily.ofNumber (familyAt memory) := by
  unfold fromSockAddr
  cases AddressFamily.ofNumber (familyAt memory) <;> rfl

theorem fromString_cases (functions : InetFunctions) (self : SocketAddress) (text : List Char) :
    (fromString functions self text).1 = self ∨
      (∃ old inet, self.address = .inet old ∧
        (fromString functions self text).1 = { family := .inet4, address := .inet inet }) ∨
      ∃ old inet6, self.address = .inet6 old ∧
        (fromString functions self text).1 = { self with address := .inet6 inet6 } := by
  unfold fromString
  split
  · exact .inl rfl
  · split
    · exact .inl rfl
    · split
      · exact .inl rfl
      · cases held : self.address with
        | inet old => exact .inr (.inl ⟨old, _, rfl, by rw [inet, held]⟩)
        | _ => exact .inl (by rw [inet, held])
      · cases held : self.address with
        | inet6 old => exact .inr (.inr ⟨old, _, rfl, by rw [inet6, held]⟩)
        | _ => exact .inl (by rw [inet6, held])

variable {self : SocketAddress}

/-- Another value of the alternative that is there keeps an address tagged. -/
theorem Tagged.write (tagged : self.Tagged) {data : AddressData}
    (same : data.index = self.address.index) : Tagged { self with address := data } := by
  unfold Tagged at tagged ⊢
  cases family_eq : self.family with
  | none => trivial
  | unspecified => trivial
  | inet4 =>
    simp only [family_eq] at tagged
    obtain ⟨inet, held⟩ := tagged
    rw [held] at same
    cases data with
    | inet inet => exact ⟨inet, rfl⟩
    | _ => cases same
  | inet6 =>
    simp only [family_eq] at tagged
    obtain ⟨inet6, held⟩ := tagged
    rw [held] at same
    cases data with
    | inet6 inet6 => exact ⟨inet6, rfl⟩
    | _ => cases same
  | unix =>
    simp only [family_eq] at tagged
    obtain ⟨unix, held⟩ := tagged
    rw [held] at same
    cases data with
    | unix unix => exact ⟨unix, rfl⟩
    | _ => cases same

theorem Tagged.fromString (tagged : self.Tagged) (functions : InetFunctions) (text : List Char) :
    (self.fromString functions text).1.Tagged := by
  obtain same | ⟨old, inet, -, same⟩ | ⟨old, inet6, held, same⟩ :=
    fromString_cases functions self text
  · rwa [same]
  · rw [same]
    exact ⟨inet, rfl⟩
  · rw [same]
    exact tagged.write (held ▸ rfl)

section Access

variable {self left right : SocketAddress}

theorem Tagged.inet_eq (tagged : self.Tagged) (family_eq : self.family = .inet4) :
    ∃ inet, self.inet = .ok inet := by
  simp only [Tagged, family_eq] at tagged
  obtain ⟨inet, held⟩ := tagged
  exact ⟨inet, by rw [SocketAddress.inet, held]⟩

theorem Tagged.inet6_eq (tagged : self.Tagged) (family_eq : self.family = .inet6) :
    ∃ inet6, self.inet6 = .ok inet6 := by
  simp only [Tagged, family_eq] at tagged
  obtain ⟨inet6, held⟩ := tagged
  exact ⟨inet6, by rw [SocketAddress.inet6, held]⟩

theorem Tagged.unix_eq (tagged : self.Tagged) (family_eq : self.family = .unix) :
    ∃ unix, self.unix = .ok unix := by
  simp only [Tagged, family_eq] at tagged
  obtain ⟨unix, held⟩ := tagged
  exact ⟨unix, by rw [SocketAddress.unix, held]⟩

theorem Tagged.compareBy_eq (bytes : List UInt8 → List UInt8 → Nat → Bool)
    (left_tagged : left.Tagged) (right_tagged : right.Tagged) :
    ∃ result, compareBy bytes left right = .ok result := by
  unfold compareBy
  split
  · rename_i same
    cases family_eq : left.family with
    | none => exact ⟨false, rfl⟩
    | unspecified => exact ⟨false, rfl⟩
    | inet4 =>
      obtain ⟨_, left_eq⟩ := left_tagged.inet_eq family_eq
      obtain ⟨_, right_eq⟩ := right_tagged.inet_eq (same.symm.trans family_eq)
      exact ⟨_, by rw [left_eq, right_eq]; rfl⟩
    | inet6 =>
      obtain ⟨_, left_eq⟩ := left_tagged.inet6_eq family_eq
      obtain ⟨_, right_eq⟩ := right_tagged.inet6_eq (same.symm.trans family_eq)
      exact ⟨_, by rw [left_eq, right_eq]; rfl⟩
    | unix =>
      obtain ⟨_, left_eq⟩ := left_tagged.unix_eq family_eq
      obtain ⟨_, right_eq⟩ := right_tagged.unix_eq (same.symm.trans family_eq)
      exact ⟨_, by rw [left_eq, right_eq]; rfl⟩
  · exact ⟨false, rfl⟩

theorem Tagged.toText_eq (tagged : self.Tagged) (functions : InetFunctions) :
    ∃ text, self.toText functions = .ok text := by
  unfold toText
  cases family_eq : self.family with
  | none => exact ⟨[], rfl⟩
  | unspecified => exact ⟨[], rfl⟩
  | inet4 =>
    obtain ⟨_, inet_eq⟩ := tagged.inet_eq family_eq
    exact ⟨_, by rw [inet_eq]; rfl⟩
  | inet6 =>
    obtain ⟨_, inet6_eq⟩ := tagged.inet6_eq family_eq
    exact ⟨_, by rw [inet6_eq]; rfl⟩
  | unix =>
    obtain ⟨_, unix_eq⟩ := tagged.unix_eq family_eq
    exact ⟨_, by rw [unix_eq]; rfl⟩

theorem fill_ne_badVariantAccess {α : Type} {size : Nat} {data : Except Stop α}
    {fields : α → List (Nat × List UInt8)} {memory : List UInt8} {len : Nat}
    (present : ∃ value, data = .ok value) :
    fill size data fields memory len ≠ .error .badVariantAccess := by
  obtain ⟨value, rfl⟩ := present
  unfold fill
  split
  · simp
  · simp [Except.map]

theorem Tagged.toSockAddr_ne (tagged : self.Tagged) (asserts : Bool) (input : Option (List UInt8))
    (len : Nat) : self.toSockAddr asserts input len ≠ .error .badVariantAccess := by
  unfold toSockAddr
  cases input with
  | none => simp
  | some memory =>
    by_cases zero : len = 0
    · simp [zero]
    · simp only [zero, if_false]
      cases family_eq : self.family with
      | none => cases asserts <;> simp [assertFalse, Except.map]
      | unspecified => cases asserts <;> simp [assertFalse, Except.map]
      | inet4 => exact fill_ne_badVariantAccess (tagged.inet_eq family_eq)
      | inet6 => exact fill_ne_badVariantAccess (tagged.inet6_eq family_eq)
      | unix => exact fill_ne_badVariantAccess (tagged.unix_eq family_eq)

end Access

/-! ## Runs -/

/-- What can be done with a store of addresses.  The references that `Inet`, `Inet6` and `Unix`
return let a caller write into the alternative that is there. -/
inductive Call
  | construct
  | ofInet (address : InetAddress) (port : UInt32)
  | ofInet6 (address : Inet6Address) (port : UInt32)
  | copy (source : Nat)
  | assign (target source : Nat)
  | fromSockAddr (target : Nat) (memory : List UInt8)
  | fromString (target : Nat) (text : List Char)
  | write (target : Nat) (data : AddressData)

/-- A failed assertion ends the program; a call of `FromString` leaves what it has changed,
whether it returns or throws. -/
def step (asserts : Bool) (functions : InetFunctions) (store : List SocketAddress) :
    Call → Option (List SocketAddress)
  | .construct => some (store ++ [{}])
  | .ofInet address port => some (store ++ [.ofInet address port])
  | .ofInet6 address port => some (store ++ [.ofInet6 address port])
  | .copy source => store[source]?.map fun value => store ++ [value]
  | .assign target source => store[source]?.map fun value => store.set target value
  | .fromSockAddr target memory =>
    store[target]?.bind fun self =>
      match self.fromSockAddr asserts memory with
      | (after, .ok ()) => some (store.set target after)
      | (_, .error _) => none
  | .fromString target text =>
    store[target]?.map fun self => store.set target (self.fromString functions text).1
  | .write target data =>
    store[target]?.bind fun self =>
      if data.index = self.address.index then
        some (store.set target { self with address := data })
      else none

variable {asserts : Bool} {functions : InetFunctions}

/-- A call adds an address or changes one, and what is added or changed is tagged. -/
theorem step_cases {store after : List SocketAddress} {call : Call}
    (tagged : ∀ self ∈ store, self.Tagged)
    (step_eq : step asserts functions store call = some after) :
    ∃ value : SocketAddress, value.Tagged ∧
      (after = store ++ [value] ∨ ∃ target, after = store.set target value) := by
  cases call with
  | construct => exact ⟨{}, trivial, .inl (Option.some.inj step_eq).symm⟩
  | ofInet address port =>
    exact ⟨SocketAddress.ofInet address port, ⟨_, rfl⟩, .inl (Option.some.inj step_eq).symm⟩
  | ofInet6 address port =>
    exact ⟨SocketAddress.ofInet6 address port, ⟨_, rfl⟩, .inl (Option.some.inj step_eq).symm⟩
  | copy source =>
    obtain ⟨value, found, rfl⟩ := Option.map_eq_some_iff.mp step_eq
    exact ⟨value, tagged value (List.mem_of_getElem? found), .inl rfl⟩
  | assign target source =>
    obtain ⟨value, found, rfl⟩ := Option.map_eq_some_iff.mp step_eq
    exact ⟨value, tagged value (List.mem_of_getElem? found), .inr ⟨target, rfl⟩⟩
  | fromSockAddr target memory =>
    obtain ⟨self, found, outcome⟩ := Option.bind_eq_some_iff.mp step_eq
    have kept := tagged_fromSockAddr asserts self memory
    revert outcome kept
    rcases self.fromSockAddr asserts memory with ⟨value, _ | _⟩
    · simp
    · intro outcome kept
      exact ⟨value, kept, .inr ⟨target, (Option.some.inj outcome).symm⟩⟩
  | fromString target text =>
    obtain ⟨self, found, rfl⟩ := Option.map_eq_some_iff.mp step_eq
    exact ⟨_, (tagged self (List.mem_of_getElem? found)).fromString functions text,
      .inr ⟨target, rfl⟩⟩
  | write target data =>
    obtain ⟨self, found, outcome⟩ := Option.bind_eq_some_iff.mp step_eq
    obtain ⟨same, outcome⟩ := Option.ite_none_right_eq_some.mp outcome
    exact ⟨_, (tagged self (List.mem_of_getElem? found)).write same,
      .inr ⟨target, (Option.some.inj outcome).symm⟩⟩

theorem tagged_step (store : List SocketAddress) (call : Call) (after : List SocketAddress)
    (tagged : ∀ self ∈ store, self.Tagged)
    (step_eq : step asserts functions store call = some after) : ∀ self ∈ after, self.Tagged := by
  intro self member
  obtain ⟨value, value_tagged, rfl | ⟨target, rfl⟩⟩ := step_cases tagged step_eq
  · rcases List.mem_append.mp member with old | new
    · exact tagged self old
    · rwa [List.mem_singleton.mp new]
  · rcases List.mem_or_eq_of_mem_set member with old | rfl
    · exact tagged self old
    · exact value_tagged

/-- Whatever is done with addresses, each has the alternative of its family, so no comparison or
conversion takes a wrong one. -/
theorem tagged_of_reachable (asserts : Bool) (functions : InetFunctions)
    {store : List SocketAddress}
    (reachable : Runs.Reachable (step asserts functions) [] store) :
    (∀ self ∈ store, self.Tagged) ∧
      ∀ left ∈ store, ∀ right ∈ store,
        (∃ result, left.equal right = .ok result) ∧ (∃ result, left.less right = .ok result) ∧
          (∃ text, left.toText functions = .ok text) ∧
          ∀ input len, left.toSockAddr asserts input len ≠ .error .badVariantAccess := by
  have tagged : ∀ self ∈ store, self.Tagged :=
    Runs.Reachable.invariant (by simp) tagged_step reachable
  refine ⟨tagged, fun left left_mem right right_mem => ⟨?_, ?_, ?_, ?_⟩⟩
  · exact (tagged left left_mem).compareBy_eq _ (tagged right right_mem)
  · exact (tagged left left_mem).compareBy_eq _ (tagged right right_mem)
  · exact (tagged left left_mem).toText_eq functions
  · exact (tagged left left_mem).toSockAddr_ne asserts

/-- Conversions that know the loopback addresses only. -/
def loopbackFunctions : InetFunctions where
  pton4 text := if text = "127.0.0.1".toList then some #v[127, 0, 0, 1] else none
  pton6 text :=
    if text = "::1".toList then some #v[0, 0, 0, 0, 0, 0, 0, 0, 0, 0, 0, 0, 0, 0, 0, 1] else none
  ntop4 address length :=
    if address = #v[127, 0, 0, 1] ∧ 10 ≤ length then some "127.0.0.1".toList else none
  ntop6 address length :=
    if address = #v[0, 0, 0, 0, 0, 0, 0, 0, 0, 0, 0, 0, 0, 0, 0, 1] ∧ 4 ≤ length then
      some "::1".toList
    else none

/-- An address whose family becomes unknown, and one that is parsed again and copied. -/
def loopbackCalls : List Call :=
  [.construct, .ofInet #v[127, 0, 0, 1] 80, .fromSockAddr 0 [99, 0],
    .fromString 1 "127.0.0.1:81".toList, .copy 1]

theorem tagged_of_reachable_loopback :
    ∃ store, Runs.run (step false loopbackFunctions) [] loopbackCalls = some store ∧
      store.map SocketAddress.family = [.none, .inet4, .inet4] ∧
      ∀ self ∈ store, self.Tagged := by
  refine ⟨_, rfl, by decide +kernel, ?_⟩
  exact (tagged_of_reachable false loopbackFunctions ⟨loopbackCalls, rfl⟩).1

end SocketAddress

end Fusion.Network
