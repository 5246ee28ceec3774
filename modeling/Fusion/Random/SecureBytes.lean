import Fusion.Library.Memory
import Fusion.Memory.Equality
import Fusion.Random.SystemBytes
import Fusion.Result

/-!
# Secure bytes

`SecureBytes` takes a buffer's bytes from the processor's `rdrand` instruction, word by word.  The
instruction may fail at any time; the system's source then gets the whole buffer again.
-/

namespace Fusion.Random

open MemoryUtil

/-! ## The hardware -/

/-- The outcomes of the `rdrand` instruction, one for each time it is executed: a value, or `none`
for a failure. -/
abbrev Steps := Nat → Option UInt64

/-- What the program knows of the hardware: how often it has executed the instruction, and
`s_RdRandSupported` once it is initialized. -/
structure Hardware where
  place : Nat := 0
  supported : Option Bool := none
deriving DecidableEq, Repr

/-- A source of the platform: it gets the buffer and a size, and reports whether it has filled them;
`none` is a write outside the buffer. -/
abbrev SystemSource := List UInt8 → Nat → Option (Bool × List UInt8)

section Hardware

variable (steps : Steps)

/-- The instruction is executed until it succeeds, so often at most. -/
def rdRandWithin : Nat → Nat → Option UInt64 × Nat
  | 0, place => (none, place)
  | tries + 1, place =>
    match steps place with
    | some value => (some value, place + 1)
    | none => rdRandWithin tries (place + 1)

/-- `_RdRand`: the value, and how often the instruction has been executed then. -/
def rdRand (place : Nat) : Option UInt64 × Nat := rdRandWithin steps 5 place

/-- Whether one of so many more values cannot be drawn or is not the first one. -/
def differsWithin (first : UInt64) : Nat → Nat → Bool × Nat
  | 0, place => (false, place)
  | rounds + 1, place =>
    match rdRand steps place with
    | (none, next) => (true, next)
    | (some value, next) =>
      if value ≠ first then (true, next) else differsWithin first rounds next

/-- The static `SupportsHardwareRandom`: the instruction does not give one value all the time. -/
def probeHardwareRandom (place : Nat) : Bool × Nat :=
  match rdRand steps place with
  | (none, next) => (true, next)
  | (some first, next) => differsWithin steps first 3 next

/-- `Random::SupportsHardwareRandom`, which asks once. -/
def supportsHardwareRandom (hardware : Hardware) : Bool × Hardware :=
  match hardware.supported with
  | some supported => (supported, hardware)
  | none =>
    let (supported, next) := probeHardwareRandom steps hardware.place
    (supported, { place := next, supported := some supported })

/-- The bytes of a value in memory. -/
def wordBytes (value : UInt64) : List UInt8 := @objectBytes 8 value.toBitVec

/-- The loop of `GetHardwareSecureBytes` and what follows it, from a place of the buffer on; `none`
is a copy to outside the buffer. -/
def hardwareBytesFrom (place : Nat) (buffer : List UInt8) (start size : Nat) :
    Option (Bool × List UInt8 × Nat) :=
  if 8 ≤ size then
    match rdRand steps place with
    | (none, next) => some (false, buffer, next)
    | (some value, next) => do
        let written ← Memory.store buffer start (wordBytes value)
        hardwareBytesFrom next written (start + 8) (size - 8)
  else if 0 < size then
    match rdRand steps place with
    | (none, next) => some (false, buffer, next)
    | (some value, next) => do
        let written ← Memory.store buffer start ((wordBytes value).take size)
        return (true, written, next)
  else return (true, buffer, place)
termination_by size

/-- `GetHardwareSecureBytes`. -/
def getHardwareSecureBytes (hardware : Hardware) (buffer : List UInt8) (size : Nat) :
    Option (Bool × List UInt8 × Hardware) :=
  let (supported, probed) := supportsHardwareRandom steps hardware
  if supported then do
    let (filled, written, next) ← hardwareBytesFrom steps probed.place buffer 0 size
    return (filled, written, { probed with place := next })
  else return (false, buffer, probed)

/-- `Random::SecureBytes`. -/
def secureBytes (system : SystemSource) (hardware : Hardware) (buffer : List UInt8) (size : Nat) :
    Option (Result Unit × List UInt8 × Hardware) := do
  let (filled, written, next) ← getHardwareSecureBytes steps hardware buffer size
  if filled then
    return (.ok (), written, next)
  else
    let (reported, left) ← system written size
    if reported then
      return (.ok (), left, next)
    else
      return (.error { error := .failure }, left, next)

end Hardware

/-! ## Draws -/

/-- The bytes are, in order, those of values that the instruction gave between these times, no value
of one execution twice. -/
def DrawnBetween (steps : Steps) (first last : Nat) (bytes : List UInt8) : Prop :=
  ∃ (places : List Nat) (values : List UInt64),
    places.Pairwise (· < ·) ∧ (∀ place ∈ places, first ≤ place ∧ place < last) ∧
      places.map steps = values.map some ∧ bytes <+: values.flatMap wordBytes

variable {after buffer : List UInt8} {hardware next : Hardware} {size : Nat}

section Draws

variable {steps : Steps}

@[simp] theorem length_wordBytes (value : UInt64) : (wordBytes value).length = 8 :=
  length_objectBytes _

theorem rdRandWithin_spec (tries place : Nat) :
    place ≤ (rdRandWithin steps tries place).2 ∧
      ∀ value ∈ (rdRandWithin steps tries place).1,
        ∃ drawn, place ≤ drawn ∧ drawn < (rdRandWithin steps tries place).2 ∧
          steps drawn = some value := by
  induction tries generalizing place with
  | zero => exact ⟨Nat.le_refl place, fun value drawn => by cases drawn⟩
  | succ tries ih =>
    rw [rdRandWithin]
    cases outcome : steps place with
    | some value =>
      refine ⟨Nat.le_succ place, fun drawn_value same => ?_⟩
      exact ⟨place, Nat.le_refl place, Nat.lt_succ_self place, outcome.trans same⟩
    | none =>
      obtain ⟨later, drawn_later⟩ := ih (place + 1)
      refine ⟨Nat.le_of_succ_le later, fun value same => ?_⟩
      obtain ⟨drawn, since, before, drawn_eq⟩ := drawn_later value same
      exact ⟨drawn, Nat.le_of_succ_le since, before, drawn_eq⟩

theorem rdRand_le {place next : Nat} {outcome : Option UInt64}
    (draw : rdRand steps place = (outcome, next)) : place ≤ next := by
  have bound := (@rdRandWithin_spec steps 5 place).1
  rwa [← rdRand, draw] at bound

theorem rdRand_eq_some {place next : Nat} {value : UInt64}
    (draw : rdRand steps place = (some value, next)) :
    ∃ drawn, place ≤ drawn ∧ drawn < next ∧ steps drawn = some value := by
  have spec := (@rdRandWithin_spec steps 5 place).2
  rw [← rdRand, draw] at spec
  exact spec value rfl

theorem drawnBetween_nil (first last : Nat) : DrawnBetween steps first last [] :=
  ⟨[], [], List.Pairwise.nil, List.forall_mem_nil _, rfl, List.nil_prefix⟩

theorem drawnBetween_take {first last drawn : Nat} {value : UInt64} (count : Nat)
    (since : first ≤ drawn) (before : drawn < last) (drawn_eq : steps drawn = some value) :
    DrawnBetween steps first last ((wordBytes value).take count) := by
  refine ⟨[drawn], [value], List.pairwise_singleton _ _, ?_, ?_, ?_⟩
  · intro place place_mem
    obtain rfl := List.mem_singleton.mp place_mem
    exact ⟨since, before⟩
  · rw [List.map_singleton, List.map_singleton, drawn_eq]
  · rw [List.flatMap_singleton]
    exact List.take_prefix count _

theorem DrawnBetween.cons {first middle last drawn : Nat} {value : UInt64} {bytes : List UInt8}
    (since : first ≤ drawn) (before : drawn < middle) (drawn_eq : steps drawn = some value)
    (ordered : middle ≤ last) (later : DrawnBetween steps middle last bytes) :
    DrawnBetween steps first last (wordBytes value ++ bytes) := by
  obtain ⟨places, values, increasing, bounds, values_eq, begins⟩ := later
  refine ⟨drawn :: places, value :: values, ?_, ?_, ?_, ?_⟩
  · refine List.pairwise_cons.mpr ⟨fun place place_mem => ?_, increasing⟩
    exact Nat.lt_of_lt_of_le before (bounds place place_mem).1
  · intro place place_mem
    rcases List.mem_cons.mp place_mem with rfl | place_later
    · exact ⟨since, Nat.lt_of_lt_of_le before ordered⟩
    · obtain ⟨after_middle, before_last⟩ := bounds place place_later
      exact ⟨by omega, before_last⟩
  · rw [List.map_cons, List.map_cons, drawn_eq, values_eq]
  · rw [List.flatMap_cons]
    exact (List.prefix_append_right_inj _).mpr begins

/-! ## Filling the buffer -/

/-- What a run of the loop leaves: it stays inside the buffer, and if it succeeds, the bytes are
drawn. -/
def HardwareFills (steps : Steps) (place : Nat) (buffer : List UInt8) (start size : Nat)
    (run : Option (Bool × List UInt8 × Nat)) : Prop :=
  ∃ filled written next, run = some (filled, written, next) ∧ place ≤ next ∧
    written.length = buffer.length ∧
    (filled = true → ∃ bytes : List UInt8, bytes.length = size ∧
      written = Memory.copyAt buffer start bytes ∧ DrawnBetween steps place next bytes)

section Rounds

variable {place next start size : Nat} {buffer : List UInt8} {value : UInt64}

theorem hardwareFills_failed (draw : rdRand steps place = (none, next)) :
    HardwareFills steps place buffer start size (some (false, buffer, next)) :=
  ⟨false, buffer, next, rfl, rdRand_le draw, rfl, by simp⟩

theorem hardwareFills_done :
    HardwareFills steps place buffer start 0 (some (true, buffer, place)) := by
  refine ⟨true, buffer, place, rfl, Nat.le_refl place, rfl, fun _ => ?_⟩
  exact ⟨[], rfl, (Memory.copyAt_nil ..).symm, drawnBetween_nil place place⟩

theorem hardwareFills_part (draw : rdRand steps place = (some value, next))
    (fits : start + size ≤ buffer.length) (part : size < 8) :
    HardwareFills steps place buffer start size
      (do let written ← Memory.store buffer start ((wordBytes value).take size)
          return (true, written, next)) := by
  obtain ⟨drawn, since, before, drawn_eq⟩ := rdRand_eq_some draw
  have part_length : ((wordBytes value).take size).length = size := by
    rw [List.length_take, length_wordBytes]
    omega
  have part_fits : start + ((wordBytes value).take size).length ≤ buffer.length := by
    rw [part_length]
    exact fits
  refine ⟨true, Memory.copyAt buffer start ((wordBytes value).take size), next, ?_,
    rdRand_le draw, Memory.length_copyAt part_fits, fun _ => ?_⟩
  · rw [Memory.store_eq_some part_fits]
    rfl
  · exact ⟨_, part_length, rfl, drawnBetween_take size since before drawn_eq⟩

theorem hardwareFills_word (draw : rdRand steps place = (some value, next))
    (fits : start + (size + 8) ≤ buffer.length)
    (rest : ∀ {written : List UInt8}, written.length = buffer.length →
      HardwareFills steps next written (start + 8) size
        (hardwareBytesFrom steps next written (start + 8) size)) :
    HardwareFills steps place buffer start (size + 8)
      (do let written ← Memory.store buffer start (wordBytes value)
          hardwareBytesFrom steps next written (start + 8) size) := by
  obtain ⟨drawn, since, before, drawn_eq⟩ := rdRand_eq_some draw
  have word_fits : start + (wordBytes value).length ≤ buffer.length := by
    rw [length_wordBytes]
    omega
  have kept_length := Memory.length_copyAt word_fits
  obtain ⟨filled, written, last, run_eq, last_ge, length_eq, drawn_rest⟩ := rest kept_length
  refine ⟨filled, written, last, ?_, Nat.le_trans (rdRand_le draw) last_ge,
    length_eq.trans kept_length, fun succeeded => ?_⟩
  · rw [Memory.store_eq_some word_fits]
    exact run_eq
  · obtain ⟨bytes, bytes_length, written_eq, bytes_drawn⟩ := drawn_rest succeeded
    refine ⟨wordBytes value ++ bytes, ?_, ?_, bytes_drawn.cons since before drawn_eq last_ge⟩
    · rw [List.length_append, length_wordBytes, bytes_length, Nat.add_comm]
    · rw [written_eq, ← length_wordBytes value, Memory.copyAt_append (by omega)]

end Rounds

theorem hardwareBytesFrom_fills {place start size : Nat} {buffer : List UInt8}
    (fits : start + size ≤ buffer.length) :
    HardwareFills steps place buffer start size
      (hardwareBytesFrom steps place buffer start size) := by
  -- Each round takes one word from the size.
  induction size using Nat.strongRecOn generalizing place start buffer with
  | ind size ih =>
    rw [hardwareBytesFrom]
    cases draw : rdRand steps place with
    | mk outcome next =>
      split_ifs with whole some_left
      · obtain ⟨rest, rfl⟩ := Nat.exists_eq_add_of_le' whole
        cases outcome with
        | none => exact hardwareFills_failed draw
        | some value =>
          rw [Nat.add_sub_cancel]
          exact hardwareFills_word draw fits fun same_length =>
            ih rest (by omega) (by omega)
      · cases outcome with
        | none => exact hardwareFills_failed draw
        | some value => exact hardwareFills_part draw fits (by omega)
      · obtain rfl : size = 0 := by omega
        exact hardwareFills_done

theorem getHardwareSecureBytes_spec {hardware : Hardware} {buffer : List UInt8} {size : Nat}
    (room : size ≤ buffer.length) :
    ∃ filled written next,
      getHardwareSecureBytes steps hardware buffer size = some (filled, written, next) ∧
        written.length = buffer.length ∧
        (filled = true → ∃ bytes : List UInt8, bytes.length = size ∧
          written = Memory.copyAt buffer 0 bytes ∧
          DrawnBetween steps (supportsHardwareRandom steps hardware).2.place next.place bytes) := by
  rw [getHardwareSecureBytes]
  cases probe : supportsHardwareRandom steps hardware with
  | mk supported probed =>
    cases supported with
    | false => exact ⟨false, buffer, probed, rfl, rfl, by simp⟩
    | true =>
      obtain ⟨filled, written, next, run_eq, -, length_eq, drawn⟩ :=
        @hardwareBytesFrom_fills steps probed.place 0 size buffer (by omega)
      refine ⟨filled, written, { probed with place := next }, ?_, length_eq, drawn⟩
      simp only [if_true, run_eq]
      rfl

theorem drawn_of_getHardwareSecureBytes (room : size ≤ buffer.length)
    (filled : getHardwareSecureBytes steps hardware buffer size = some (true, after, next)) :
    ∃ bytes : List UInt8, bytes.length = size ∧ after = Memory.copyAt buffer 0 bytes ∧
      DrawnBetween steps (supportsHardwareRandom steps hardware).2.place next.place bytes := by
  obtain ⟨reported, written, place, hardware_eq, -, drawn⟩ :=
    @getHardwareSecureBytes_spec steps hardware buffer size room
  rw [hardware_eq, Option.some.injEq, Prod.mk.injEq, Prod.mk.injEq] at filled
  obtain ⟨succeeded, rfl, rfl⟩ := filled
  exact drawn succeeded

theorem length_getHardwareSecureBytes {filled : Bool} (room : size ≤ buffer.length)
    (hardware_eq : getHardwareSecureBytes steps hardware buffer size = some (filled, after, next)) :
    after.length = buffer.length := by
  obtain ⟨reported, written, place, spec_eq, length_eq, -⟩ :=
    @getHardwareSecureBytes_spec steps hardware buffer size room
  rw [spec_eq, Option.some.injEq, Prod.mk.injEq, Prod.mk.injEq] at hardware_eq
  obtain ⟨-, rfl, -⟩ := hardware_eq
  exact length_eq

end Draws

theorem secureBytes_eq_ok {steps : Steps} {system : SystemSource}
    (succeeds : secureBytes steps system hardware buffer size = some (.ok (), after, next)) :
    getHardwareSecureBytes steps hardware buffer size = some (true, after, next) ∨
      ∃ written, getHardwareSecureBytes steps hardware buffer size = some (false, written, next) ∧
        system written size = some (true, after) := by
  rw [secureBytes] at succeeds
  obtain ⟨⟨filled, written, drawn_to⟩, hardware_eq, rest⟩ := Option.bind_eq_some_iff.mp succeeds
  cases filled with
  | true =>
    simp only [if_true, Option.pure_def, Option.some.injEq, Prod.mk.injEq, true_and] at rest
    obtain ⟨rfl, rfl⟩ := rest
    exact .inl hardware_eq
  | false =>
    obtain ⟨⟨reported, left⟩, system_eq, answer⟩ := Option.bind_eq_some_iff.mp rest
    cases reported with
    | false => simp at answer
    | true =>
      simp only [if_true, Option.pure_def, Option.some.injEq, Prod.mk.injEq, true_and]
        at answer
      obtain ⟨rfl, rfl⟩ := answer
      exact .inr ⟨written, hardware_eq, system_eq⟩

/-- Bytes that are reported as secure are all of the hardware, or all of the system: in order, from
executions of the instruction that succeeded, none of them twice, or from a call of the system's
source for the whole buffer that reported success. -/
theorem secureBytes_ok (steps : Steps) (system : SystemSource) (hardware next : Hardware)
    (buffer after : List UInt8) (size : Nat) (room : size ≤ buffer.length)
    (succeeds : secureBytes steps system hardware buffer size = some (.ok (), after, next)) :
    (∃ bytes : List UInt8, bytes.length = size ∧ after = Memory.copyAt buffer 0 bytes ∧
        DrawnBetween steps (supportsHardwareRandom steps hardware).2.place next.place bytes) ∨
      ∃ given : List UInt8, given.length = buffer.length ∧
        system given size = some (true, after) := by
  rcases secureBytes_eq_ok succeeds with from_hardware | ⟨given, failed_eq, system_eq⟩
  · exact .inl (drawn_of_getHardwareSecureBytes room from_hardware)
  · exact .inr ⟨given, length_getHardwareSecureBytes room failed_eq, system_eq⟩

/-- An instruction that fails at first and then gives two values, and no more. -/
def twoDraws : Steps
  | 1 => some 0x0807060504030201
  | 2 => some 0x0B0A09
  | _ => none

/-- Eleven bytes of two values; for seventeen a third value is missing, and the system fills all. -/
theorem secureBytes_ok_both :
    (∃ bytes : List UInt8, bytes.length = 11 ∧
        [1, 2, 3, 4, 5, 6, 7, 8, 9, 10, 11, 0] = Memory.copyAt (List.replicate 12 0) 0 bytes ∧
        DrawnBetween twoDraws 0 3 bytes) ∧
      ((∃ bytes : List UInt8, bytes.length = 17 ∧
          List.replicate 17 9 = Memory.copyAt (List.replicate 17 0) 0 bytes ∧
          DrawnBetween twoDraws 0 8 bytes) ∨
        ∃ given : List UInt8, given.length = 17 ∧
          some (true, given.map fun _ => (9 : UInt8)) = some (true, List.replicate 17 9)) := by
  have drawn : secureBytes twoDraws (fun _ _ => none) { supported := some true }
      (List.replicate 12 0) 11 =
        some (.ok (), [1, 2, 3, 4, 5, 6, 7, 8, 9, 10, 11, 0],
          { place := 3, supported := some true }) := by
    decide +kernel
  have fallen : secureBytes twoDraws (fun buffer _ => some (true, buffer.map fun _ => 9))
      { supported := some true } (List.replicate 17 0) 17 =
        some (.ok (), List.replicate 17 9, { place := 8, supported := some true }) := by
    decide +kernel
  refine ⟨?_, secureBytes_ok _ _ _ _ _ _ _ (by decide) fallen⟩
  rcases secureBytes_ok _ _ _ _ _ _ _ (by decide) drawn with bytes | ⟨_, -, impossible⟩
  · exact bytes
  · cases impossible

/-! ## The platform's device -/

/-- The POSIX source: every call of `read` writes what it delivers. -/
def systemSource (device : Device) : SystemSource := fun buffer size => do
  let (returned, requests) := systemSecureBytes device false size
  let left ← requests.foldlM
    (fun memory request => Memory.store memory request.place request.bytes) buffer
  return (returned, left)

theorem Contiguous.foldlM_store {requests : List Request} {start : Nat}
    (contiguous : Contiguous start requests)
    (fits : start + (written requests).length ≤ buffer.length) :
    requests.foldlM (fun memory request => Memory.store memory request.place request.bytes)
      buffer = some (Memory.copyAt buffer start (written requests)) := by
  induction requests generalizing start buffer with
  | nil =>
    rw [written_nil, Memory.copyAt_nil]
    rfl
  | cons request requests ih =>
    obtain ⟨rfl, behind⟩ := contiguous
    rw [written_cons, List.length_append] at fits
    have here : request.place + request.bytes.length ≤ buffer.length := by omega
    rw [List.foldlM_cons, Memory.store_eq_some here, written_cons]
    refine (ih behind (by rw [Memory.length_copyAt here]; omega)).trans ?_
    rw [Memory.copyAt_append (by omega)]

theorem systemSource_eq_true {device : Device} {given : List UInt8} (room : size ≤ given.length)
    (reported : systemSource device given size = some (true, after)) :
    after.take size = written (systemSecureBytes device false size).2 := by
  have filled := @systemSecureBytes_written device size
  rw [systemSource] at reported
  cases run : systemSecureBytes device false size with
  | mk returned requests =>
    rw [run] at reported filled
    obtain ⟨left, stored, answer⟩ := Option.bind_eq_some_iff.mp reported
    rw [Option.pure_def, Option.some.injEq, Prod.mk.injEq] at answer
    obtain ⟨succeeded, rfl⟩ := answer
    obtain ⟨contiguous, length_eq⟩ := filled succeeded
    rw [contiguous.foldlM_store (by omega), Option.some.injEq] at stored
    have first := @Memory.take_copyAt _ given (written requests) 0 (Nat.zero_le _)
    rwa [stored, Nat.zero_add, length_eq, List.take_zero, List.nil_append] at first

theorem secureBytes_posix {steps : Steps} {device : Device} {hardware next : Hardware}
    {buffer after : List UInt8} {size : Nat} (room : size ≤ buffer.length)
    (succeeds : secureBytes steps (systemSource device) hardware buffer size =
      some (.ok (), after, next)) :
    DrawnBetween steps (supportsHardwareRandom steps hardware).2.place next.place
        (after.take size) ∨
      after.take size = written (systemSecureBytes device false size).2 := by
  rcases secureBytes_eq_ok succeeds with from_hardware | ⟨given, failed_eq, system_eq⟩
  · obtain ⟨bytes, bytes_length, rfl, bytes_drawn⟩ :=
      drawn_of_getHardwareSecureBytes room from_hardware
    have first := @Memory.take_copyAt _ buffer bytes 0 (Nat.zero_le _)
    rw [Nat.zero_add, bytes_length, List.take_zero, List.nil_append] at first
    rw [first]
    exact .inl bytes_drawn
  · have given_length := length_getHardwareSecureBytes room failed_eq
    exact .inr (systemSource_eq_true (by omega) system_eq)

end Fusion.Random
