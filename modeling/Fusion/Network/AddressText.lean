import Fusion.Network.SocketAddress

/-!
# Socket addresses from text

`FromString` writes into the alternative that the address already holds, so it needs one of the
family that the text names.  A new address has none.
-/

namespace Fusion.Network.SocketAddress

section Text

variable {functions : InetFunctions} {self : SocketAddress} {text : List Char}

/-- The texts that name an address: an address by itself, or one with a port after a colon. -/
inductive Names (functions : InetFunctions) : List Char → ParsedAddress → Prop
  | bare {host parsed} (absent : ':' ∉ host) (address : parseAddress functions host = .ok parsed) :
      Names functions host parsed
  | withPort {host digits port parsed} (absent : ':' ∉ host)
      (number : StringUtil.parseNumber .uint16 digits 0 = .ok port)
      (address : parseAddress functions host = .ok parsed) :
      Names functions (host ++ ':' :: digits) parsed

/-- The address has an alternative of the family. -/
def Holds (self : SocketAddress) : ParsedAddress → Prop
  | .inet4 _ => ∃ inet, self.address = .inet inet
  | .inet6 _ => ∃ inet6, self.address = .inet6 inet6

theorem splitPort_of_absent (absent : ':' ∉ text) : splitPort text = .ok (0, text) := by
  have found : Strings.find text ':' 0 = none :=
    @Strings.find_append_of_notMem _ _ [] text ':' absent
  rw [splitPort, found]

theorem splitPort_append {host digits : List Char} (absent : ':' ∉ host) :
    splitPort (host ++ ':' :: digits) =
      (StringUtil.parseNumber .uint16 digits 0).map fun port => (UInt16.ofBitVec port, host) := by
  have found : Strings.find (host ++ ':' :: digits) ':' 0 = some host.length := by
    simpa using @Strings.find_append_cons _ _ [] host ':' absent digits
  rw [splitPort, found]
  simp

theorem names_iff {parsed : ParsedAddress} :
    Names functions text parsed ↔
      ∃ port host, splitPort text = .ok (port, host) ∧
        parseAddress functions host = .ok parsed := by
  constructor
  · intro names
    cases names with
    | bare absent address => exact ⟨0, text, splitPort_of_absent absent, address⟩
    | @withPort host digits port _ absent number address =>
      exact ⟨.ofBitVec port, host, by rw [splitPort_append absent, number]; rfl, address⟩
  · rintro ⟨port, host, split, address⟩
    by_cases colon : ':' ∈ text
    · obtain ⟨before, digits, rfl, absent⟩ := List.eq_append_cons_of_mem colon
      rw [splitPort_append absent] at split
      cases number : StringUtil.parseNumber .uint16 digits 0 with
      | error failure => simp [number, Except.map] at split
      | ok value =>
        obtain ⟨rfl, rfl⟩ : UInt16.ofBitVec value = port ∧ before = host := by
          simpa [number, Except.map] using split
        exact .withPort absent number address
    · rw [splitPort_of_absent colon] at split
      obtain ⟨rfl, rfl⟩ : 0 = port ∧ text = host := by simpa using split
      exact .bare colon address

theorem fromString_of_unnamed (unnamed : ∀ parsed, ¬Names functions text parsed) :
    ∃ failure, self.fromString functions text = (self, .ok (.error failure)) := by
  unfold fromString
  split
  · exact ⟨_, rfl⟩
  · cases split_eq : splitPort text with
    | error failure => exact ⟨failure, rfl⟩
    | ok pair =>
      obtain ⟨port, host⟩ := pair
      cases address : parseAddress functions host with
      | error failure => exact ⟨failure, by simp [address]⟩
      | ok parsed => exact absurd (names_iff.mpr ⟨port, host, split_eq, address⟩) (unnamed parsed)

theorem fromString_of_names {parsed : ParsedAddress} (names : Names functions text parsed) :
    (self.Holds parsed → (self.fromString functions text).2 = .ok (.ok ())) ∧
      (¬self.Holds parsed → self.fromString functions text = (self, .error .badVariantAccess)) := by
  obtain ⟨port, host, split_eq, address⟩ := names_iff.mp names
  have nonempty : text ≠ [] := by
    rintro rfl
    obtain ⟨rfl, rfl⟩ : 0 = port ∧ [] = host := by simpa [splitPort, Strings.find] using split_eq
    simp [parseAddress, InetAddress.fromString, Inet6Address.fromString, addressFromString]
      at address
  unfold fromString
  rw [if_neg nonempty, split_eq]
  simp only [address]
  cases parsed with
  | inet4 parsed =>
    cases held : self.address with
    | inet old => simp [Holds, inet, held]
    | _ => simp [Holds, inet, held]
  | inet6 parsed =>
    cases held : self.address with
    | inet6 old => simp [Holds, inet6, held]
    | _ => simp [Holds, inet6, held]

theorem fromString_new (functions : InetFunctions) (text : List Char) :
    (fromString functions {} text).2 ≠ .ok (.ok ()) := by
  have lacks : ∀ parsed, ¬Holds {} parsed := by
    intro parsed
    cases parsed with
    | inet4 => simp [Holds]
    | inet6 => simp [Holds]
  by_cases named : ∃ parsed, Names functions text parsed
  · obtain ⟨parsed, names⟩ := named
    rw [(fromString_of_names names).2 (lacks parsed)]
    simp
  · obtain ⟨failure, refused⟩ := @fromString_of_unnamed functions {} text (not_exists.mp named)
    rw [refused]
    simp

/-- `FromString` returns exactly if the address holds the alternative of whatever the text names.
Into a new address nothing can be read, and so no address comes back from its text. -/
theorem fromString_returns_iff (functions : InetFunctions) :
    (∀ (self : SocketAddress) (text : List Char),
      (∃ result, (self.fromString functions text).2 = .ok result) ↔
        ∀ parsed, Names functions text parsed → self.Holds parsed) ∧
      ∀ address : SocketAddress, ∀ text, address.toText functions = .ok text →
        (fromString functions {} text).2 ≠ .ok (.ok ()) := by
  refine ⟨fun self text => ⟨?_, fun holds => ?_⟩, fun _ text _ => fromString_new functions text⟩
  · rintro ⟨result, returned⟩ parsed names
    by_contra lacks
    rw [(fromString_of_names names).2 lacks] at returned
    cases returned
  · by_cases named : ∃ parsed, Names functions text parsed
    · obtain ⟨parsed, names⟩ := named
      exact ⟨_, (fromString_of_names names).1 (holds parsed names)⟩
    · obtain ⟨failure, refused⟩ :=
        @fromString_of_unnamed functions self text (not_exists.mp named)
      exact ⟨.error failure, by rw [refused]⟩

/-- The text of a loopback address is refused for its brackets, and without them it throws. -/
theorem fromString_loopback :
    (ofInet #v[127, 0, 0, 1] 80).toText loopbackFunctions = .ok "[127.0.0.1]:80".toList ∧
      (fromString loopbackFunctions {} "[127.0.0.1]:80".toList).2 =
        .ok (.error { error := .invalidArgument
                      message := "unable to parse address '[127.0.0.1]'" }) ∧
      (fromString loopbackFunctions {} "127.0.0.1:80".toList).2 = .error .badVariantAccess := by
  refine ⟨?_, ?_, ?_⟩ <;> decide +kernel

end Text

end Fusion.Network.SocketAddress
