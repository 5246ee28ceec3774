import Fusion.Network.SocketAddress
import Fusion.Uuid.Order
import Mathlib.Data.List.TakeWhile

/-!
# Formatting into a buffer

The overloads of `ToString` that take a buffer format with `fmt::format_to_n`.  The one for UUIDs
returns a view of the reported size, which is that of the whole text.  The one for socket addresses
returns the characters up to a terminator, which is not written.
-/

namespace Fusion

/-- A view into the memory that begins with the buffer. -/
structure View where
  memory : List Char
  length : Nat

namespace View

/-- The characters of a view. -/
def text (view : View) : List Char := view.memory.take view.length

/-- The view lies inside the buffer of this size and is a beginning of the text. -/
def Within (view : View) (size : Nat) (text : List Char) : Prop :=
  view.length ≤ size ∧ view.text <+: text

/-- The characters before the first terminator. -/
def beforeTerminator (memory : List Char) : List Char := memory.takeWhile (· ≠ Char.ofNat 0)

/-- The view up to the first terminator; `none` is a search that runs through all the memory. -/
def ofTerminated (memory : List Char) : Option View :=
  if Char.ofNat 0 ∈ memory then
    some { memory, length := (beforeTerminator memory).length }
  else none

end View

/-- `fmt::format_to_n`: the memory afterwards and the size of the whole text. -/
def formatToN (memory : List Char) (size : Nat) (text : List Char) : List Char × Nat :=
  (Memory.copyAt memory 0 (text.take size), text.length)

/-- `ToString` of a UUID into a buffer of this size at the beginning of the memory. -/
def UUID.toStringInto (memory : List Char) (size : Nat) (uuid : UUID) : View :=
  let result := formatToN memory size uuid.toString
  { memory := result.1, length := result.2 }

namespace Network
namespace SocketAddress

/-- `ToString` into a buffer of this size at the beginning of the memory. -/
def toTextInto (functions : InetFunctions) (self : SocketAddress) (memory : List Char)
    (size : Nat) : Except Stop (Option View) :=
  match self.family with
  | .inet4 => do
      let inet ← self.inet
      let (memory, _) := formatToN memory size (bracketed (inet.address.toText functions) inet.port)
      return View.ofTerminated memory
  | .inet6 => do
      let inet6 ← self.inet6
      let (memory, _) :=
        formatToN memory size (bracketed (inet6.address.toText functions) inet6.port)
      return View.ofTerminated memory
  | .unix => do
      let unix ← self.unix
      let (memory, _) := formatToN memory size
        ("unix://".toList ++
          (unix.path.toList.takeWhile (· ≠ 0)).map fun byte => Char.ofNat byte.toNat)
      return View.ofTerminated memory
  | .none | .unspecified => .ok (some { memory, length := 0 })

/-- The families that have a text. -/
def hasText (self : SocketAddress) : Bool :=
  self.family = .inet4 ∨ self.family = .inet6 ∨ self.family = .unix

theorem toTextInto_eq (functions : InetFunctions) (self : SocketAddress) (memory : List Char)
    (size : Nat) :
    self.toTextInto functions memory size = (self.toText functions).map fun text =>
      if self.hasText then View.ofTerminated (formatToN memory size text).1
      else some { memory, length := 0 } := by
  unfold toTextInto toText hasText
  cases family_eq : self.family with
  | none => simp [Except.map]
  | unspecified => simp [Except.map]
  | inet4 => cases inet_eq : self.inet <;> simp [Except.map, bind, Except.bind, pure, Except.pure]
  | inet6 =>
    cases inet6_eq : self.inet6 <;> simp [Except.map, bind, Except.bind, pure, Except.pure]
  | unix => cases unix_eq : self.unix <;> simp [Except.map, bind, Except.bind, pure, Except.pure]

end SocketAddress
end Network

/-! ## Views that stay inside -/

namespace View

variable {memory : List Char} {size : Nat}

theorem within_ofTerminated_iff {text : List Char} :
    (∃ view, ofTerminated memory = some view ∧ view.Within size text) ↔
      Char.ofNat 0 ∈ memory ∧ (beforeTerminator memory).length ≤ size ∧
        beforeTerminator memory <+: text := by
  have text_eq : memory.take (beforeTerminator memory).length = beforeTerminator memory :=
    (List.prefix_iff_eq_take.mp (List.takeWhile_prefix _)).symm
  by_cases terminated : Char.ofNat 0 ∈ memory
  · rw [ofTerminated, if_pos terminated]
    constructor
    · rintro ⟨view, found, inside, begins⟩
      cases found
      rw [View.text, text_eq] at begins
      exact ⟨terminated, inside, begins⟩
    · rintro ⟨-, inside, begins⟩
      refine ⟨_, rfl, inside, ?_⟩
      rwa [View.text, text_eq]
  · rw [ofTerminated, if_neg terminated]
    constructor
    · rintro ⟨view, found, -⟩
      cases found
    · intro inside
      exact absurd inside.1 terminated

variable {front : List Char}

theorem beforeTerminator_append_of_mem (rest : List Char) (terminated : Char.ofNat 0 ∈ front) :
    beforeTerminator (front ++ rest) = beforeTerminator front := by
  have stopped : ¬(front.takeWhile (· ≠ Char.ofNat 0)).length = front.length := by
    intro same
    have all := List.takeWhile_eq_self_iff.mp ((List.takeWhile_prefix _).eq_of_length same)
    exact of_decide_eq_true (all _ terminated) rfl
  rw [beforeTerminator, List.takeWhile_append, if_neg stopped, beforeTerminator]

theorem beforeTerminator_append_of_not_mem (rest : List Char)
    (unterminated : Char.ofNat 0 ∉ front) :
    beforeTerminator (front ++ rest) = front ++ beforeTerminator rest := by
  apply List.takeWhile_append_of_pos
  intro symbol member
  rw [decide_eq_true_eq]
  rintro rfl
  exact unterminated member

/-- Behind a text without a terminator only a terminator keeps the view inside. -/
theorem within_append_iff {rest text : List Char} (front_eq : text.take size = front)
    (unterminated : Char.ofNat 0 ∉ front) :
    (∃ view, ofTerminated (front ++ rest) = some view ∧ view.Within size text) ↔
      rest.head? = some (Char.ofNat 0) := by
  have front_length : front.length = min size text.length := by rw [← front_eq, List.length_take]
  rw [within_ofTerminated_iff, beforeTerminator_append_of_not_mem rest unterminated]
  cases rest with
  | nil =>
    refine iff_of_false (fun inside => ?_) (by simp)
    exact unterminated (by simpa using inside.1)
  | cons symbol rest =>
    rw [List.head?_cons, Option.some.injEq]
    by_cases terminator : symbol = Char.ofNat 0
    · have empty : beforeTerminator (symbol :: rest) = [] := by
        rw [beforeTerminator, List.takeWhile_cons_of_neg (by simp [terminator])]
      rw [empty, List.append_nil]
      refine iff_of_true ⟨by simp [terminator], by omega, ?_⟩ terminator
      rw [← front_eq]
      exact List.take_prefix ..
    · refine iff_of_false (fun inside => ?_) terminator
      have longer : beforeTerminator (symbol :: rest) = symbol :: beforeTerminator rest :=
        List.takeWhile_cons_of_pos (by simpa using terminator)
      have within := inside.2.1
      have begins := inside.2.2.length_le
      rw [longer, List.length_append, List.length_cons] at within begins
      omega

theorem within_formatToN_iff {text : List Char} :
    (∃ view, ofTerminated (formatToN memory size text).1 = some view ∧ view.Within size text) ↔
      Char.ofNat 0 ∈ text.take size ∨ memory[min size text.length]? = some (Char.ofNat 0) := by
  have memory_eq : (formatToN memory size text).1 =
      text.take size ++ memory.drop (min size text.length) := by
    rw [formatToN, Memory.copyAt, List.take_zero, List.nil_append, List.length_take, Nat.zero_add]
  rw [memory_eq]
  by_cases terminated : Char.ofNat 0 ∈ text.take size
  · rw [within_ofTerminated_iff, beforeTerminator_append_of_mem _ terminated]
    refine iff_of_true ⟨List.mem_append_left _ terminated, ?_, ?_⟩ (.inl terminated)
    · calc (beforeTerminator (text.take size)).length ≤ (text.take size).length :=
            (List.takeWhile_prefix _).length_le
        _ ≤ size := List.length_take_le ..
    · exact (List.takeWhile_prefix _).trans (List.take_prefix ..)
  · rw [within_append_iff rfl terminated, or_iff_right terminated, List.head?_drop]

end View

theorem UUID.within_toStringInto_iff (uuid : UUID) (memory : List Char) (size : Nat) :
    (uuid.toStringInto memory size).Within size uuid.toString ↔ 36 ≤ size := by
  change uuid.toString.length ≤ size ∧
    (Memory.copyAt memory 0 (uuid.toString.take size)).take uuid.toString.length <+:
      uuid.toString ↔ _
  rw [uuid.length_toString]
  refine and_iff_left_of_imp fun fits => ?_
  have whole : uuid.toString.take size = uuid.toString :=
    List.take_of_length_le (uuid.length_toString ▸ fits)
  have viewed : (Memory.copyAt memory 0 uuid.toString).take 36 = uuid.toString := by
    rw [Memory.copyAt, List.take_zero, List.nil_append, ← uuid.length_toString, List.take_left]
  exact ⟨[], by rw [whole, viewed, List.append_nil]⟩

/-- A UUID is formatted into a buffer of 36 places or more without leaving it.  An address that has
a text leaves the buffer, or takes in what stood there before, unless a terminator stands in its
text or right behind the place where the text ends. -/
theorem formatting_stays_inside_iff (memory : List Char) (size : Nat) :
    (∀ uuid : UUID, (uuid.toStringInto memory size).Within size uuid.toString ↔ 36 ≤ size) ∧
    ∀ (functions : Network.InetFunctions) (address : Network.SocketAddress) (text : List Char),
      address.toText functions = .ok text →
        ((∃ view, address.toTextInto functions memory size = .ok (some view) ∧
            view.Within size text) ↔
          address.hasText = false ∨ Char.ofNat 0 ∈ text.take size ∨
            memory[min size text.length]? = some (Char.ofNat 0)) := by
  refine ⟨fun uuid => uuid.within_toStringInto_iff memory size, ?_⟩
  intro functions address text text_eq
  rw [Network.SocketAddress.toTextInto_eq, text_eq]
  cases shown : address.hasText with
  | false =>
    refine iff_of_true ⟨_, rfl, Nat.zero_le size, ?_⟩ (.inl rfl)
    exact List.nil_prefix
  | true =>
    rw [or_iff_right Bool.noConfusion, ← View.within_formatToN_iff]
    simp [Except.map]

/-- A view of a UUID in a buffer of eight places has 36 characters, and a view of an address takes
in six characters that stood in the buffer. -/
theorem formatting_leaves_the_text :
    ((UUID.zero.toStringInto (List.replicate 8 'x') 8).length = 36 ∧
      ¬(UUID.zero.toStringInto (List.replicate 8 'x') 8).Within 8 UUID.zero.toString) ∧
    ∃ view, (Network.SocketAddress.ofInet Network.SocketAddress.inaddrLoopback 80).toTextInto
        Network.SocketAddress.loopbackFunctions (List.replicate 20 'x' ++ [Char.ofNat 0]) 20 =
          .ok (some view) ∧
      view.text = "[127.0.0.1]:80xxxxxx".toList ∧ ¬view.Within 20 "[127.0.0.1]:80".toList := by
  refine ⟨⟨by decide, fun within => absurd within.1 (by decide)⟩, _, rfl, by decide, ?_⟩
  intro within
  exact absurd within.2.length_le (by decide)

end Fusion
