import Mathlib.Algebra.Group.Int.Defs
import Mathlib.Algebra.Group.Nat.Defs
import Mathlib.Data.List.Basic

/-!
# The random device of the system

`SystemSecureBytes` reads a buffer full of bytes from the random device, a megabyte at a time.  The
last `read` asks for as much as the others do, whatever is left.
-/

namespace Fusion.Random

/-! ## The source -/

/-- The random device: whether it can be opened, and what each `read` of so many bytes delivers;
`none` is an error. -/
structure Device where
  opens : Bool
  read : Nat → Nat → Option (List UInt8)
  bounded : ∀ {call requested : Nat} {delivered : List UInt8},
    read call requested = some delivered → delivered.length ≤ requested

/-- A call of `read`: the place of the buffer it gets, how much it asks for and what it delivers. -/
structure Request where
  place : Nat
  count : Nat
  delivered : Option (List UInt8)
deriving DecidableEq, Repr

/-- The bytes that the call writes. -/
def Request.bytes (request : Request) : List UInt8 := request.delivered.getD []

/-- What `read` returns. -/
def Request.returned (request : Request) : Int :=
  match request.delivered with
  | none => -1
  | some delivered => delivered.length

/-- The value of `read` in an `int32_t`, as the `size_t` it is compared as. -/
def Request.result (request : Request) : Nat :=
  (request.returned.bmod (2 ^ 32) % 2 ^ 64).toNat

section Source

variable (device : Device)

/-- The loop of `SystemSecureBytes` and what follows it, from a place of the buffer on: what is
returned and the calls of `read`. -/
def systemBytesFrom (chunkSize : Nat) (positive : 0 < chunkSize) (call place size : Nat) :
    Bool × List Request :=
  let request : Request := ⟨place, chunkSize, device.read call chunkSize⟩
  if chunkSize < size then
    if request.result ≠ chunkSize then (false, [request])
    else
      let rest := systemBytesFrom chunkSize positive (call + 1) (place + chunkSize)
        (size - chunkSize)
      (rest.1, request :: rest.2)
  else if 0 < size then (request.result = size, [request])
  else (true, [])
termination_by size

/-- `SystemSecureBytes` of the POSIX platforms. -/
def systemSecureBytes (null : Bool) (size : Nat) : Bool × List Request :=
  if given : null = true ∨ size = 0 then (false, [])
  else if device.opens = false then (false, [])
  else systemBytesFrom device (min size (1 * 1024 * 1024)) (by omega) 0 0 size

end Source

/-! ## One call -/

variable {size : Nat}

theorem Request.result_eq_iff {request : Request} (positive : 0 < size) (small : size ≤ 2 ^ 20)
    (bounded : request.bytes.length ≤ 2 ^ 20) :
    request.result = size ↔ request.bytes.length = size := by
  obtain ⟨place, count, delivered⟩ := request
  cases delivered with
  | none =>
    simp only [Request.bytes, Option.getD_none, List.length_nil] at bounded ⊢
    constructor
    · intro same
      have minus_one : Request.result ⟨place, count, none⟩ = 2 ^ 64 - 1 := rfl
      omega
    · intro same
      omega
  | some bytes =>
    simp only [Request.bytes, Option.getD_some] at bounded ⊢
    have kept : ((bytes.length : Int).bmod (2 ^ 32)) = bytes.length :=
      Int.bmod_eq_of_le (by omega) (by omega)
    have result_eq : Request.result ⟨place, count, some bytes⟩ = bytes.length := by
      rw [Request.result, Request.returned, kept]
      omega
    rw [result_eq]

variable {call place : Nat}

section Calls

variable {device : Device}

theorem length_bytes_le {count : Nat} :
    (Request.bytes ⟨place, count, device.read call count⟩).length ≤ count := by
  rw [Request.bytes]
  cases delivered : device.read call count with
  | none => exact Nat.zero_le _
  | some bytes => exact device.bounded delivered

theorem result_eq_iff {count : Nat} (positive : 0 < size) (small : size ≤ count)
    (count_le : count ≤ 2 ^ 20) :
    Request.result ⟨place, count, device.read call count⟩ = size ↔
      (Request.bytes ⟨place, count, device.read call count⟩).length = size :=
  Request.result_eq_iff positive (by omega) (Nat.le_trans length_bytes_le count_le)

end Calls

/-! ## What is written -/

/-- Each call writes where the one before it stopped. -/
def Contiguous : Nat → List Request → Prop
  | _, [] => True
  | place, request :: requests =>
    request.place = place ∧ Contiguous (place + request.bytes.length) requests

/-- All that the calls write. -/
def written (requests : List Request) : List UInt8 := requests.flatMap Request.bytes

@[simp] theorem written_nil : written [] = [] := rfl

@[simp] theorem written_cons (request : Request) (requests : List Request) :
    written (request :: requests) = request.bytes ++ written requests := rfl

theorem Contiguous.exists_mem {requests : List Request} {start : Nat}
    (contiguous : Contiguous start requests) (from_start : start ≤ place)
    (inside : place < start + (written requests).length) :
    ∃ request ∈ requests, request.place ≤ place ∧ place < request.place + request.bytes.length := by
  induction requests generalizing start with
  | nil =>
    rw [written_nil, List.length_nil] at inside
    omega
  | cons request requests ih =>
    obtain ⟨rfl, behind⟩ := contiguous
    rw [written_cons, List.length_append] at inside
    by_cases here : place < request.place + request.bytes.length
    · exact ⟨request, List.mem_cons_self, from_start, here⟩
    · obtain ⟨later, later_mem, reached⟩ := ih behind (by omega) (by omega)
      exact ⟨later, List.mem_cons_of_mem _ later_mem, reached⟩

theorem chunk_induction {chunkSize : Nat} (positive : 0 < chunkSize)
    {motive : ∀ size : Nat, 0 < size → Prop}
    (last : ∀ size some_left, size ≤ chunkSize → motive size some_left)
    (more : ∀ size some_left, motive size some_left →
      motive (size + chunkSize) (Nat.add_pos_left some_left chunkSize))
    (size : Nat) (some_left : 0 < size) : motive size some_left := by
  induction size using Nat.strongRecOn with
  | ind size ih =>
    by_cases enough : size ≤ chunkSize
    · exact last size some_left enough
    · obtain ⟨rest, rfl⟩ := Nat.exists_eq_add_of_lt (Nat.lt_of_not_le enough)
      have split_eq : chunkSize + rest + 1 = rest + 1 + chunkSize := by omega
      simp only [split_eq]
      exact more (rest + 1) rest.succ_pos (ih (rest + 1) (by omega) rest.succ_pos)

section Loop

variable {device : Device} {chunkSize : Nat} {positive : 0 < chunkSize}

theorem systemBytesFrom_last (some_left : 0 < size) (last : size ≤ chunkSize) :
    systemBytesFrom device chunkSize positive call place size =
      (decide (Request.result ⟨place, chunkSize, device.read call chunkSize⟩ = size),
        [⟨place, chunkSize, device.read call chunkSize⟩]) := by
  rw [systemBytesFrom, if_neg (by omega), if_pos some_left]

theorem systemBytesFrom_more (some_left : 0 < size) (small : chunkSize ≤ 2 ^ 20) :
    systemBytesFrom device chunkSize positive call place (size + chunkSize) =
      if (Request.bytes ⟨place, chunkSize, device.read call chunkSize⟩).length = chunkSize then
        ((systemBytesFrom device chunkSize positive (call + 1) (place + chunkSize) size).1,
          ⟨place, chunkSize, device.read call chunkSize⟩ ::
            (systemBytesFrom device chunkSize positive (call + 1) (place + chunkSize) size).2)
      else (false, [⟨place, chunkSize, device.read call chunkSize⟩]) := by
  rw [systemBytesFrom, if_pos (by omega)]
  simp only [ne_eq, ite_not, result_eq_iff positive (Nat.le_refl chunkSize) small,
    Nat.add_sub_cancel]

theorem written_of_true (small : chunkSize ≤ 2 ^ 20) (some_left : 0 < size)
    (returned : (systemBytesFrom device chunkSize positive call place size).1 = true) :
    Contiguous place (systemBytesFrom device chunkSize positive call place size).2 ∧
      (written (systemBytesFrom device chunkSize positive call place size).2).length = size := by
  induction size, some_left using chunk_induction positive generalizing call place with
  | last size some_left last =>
    rw [systemBytesFrom_last some_left last] at returned ⊢
    have length_eq := (result_eq_iff some_left last small).mp (of_decide_eq_true returned)
    refine ⟨⟨rfl, trivial⟩, ?_⟩
    rw [written_cons, written_nil, List.append_nil, length_eq]
  | more size some_left ih =>
    -- A round that goes on has written a whole chunk.
    rw [systemBytesFrom_more some_left small] at returned ⊢
    split_ifs at returned ⊢ with whole
    obtain ⟨behind, length_eq⟩ := ih returned
    refine ⟨⟨rfl, ?_⟩, ?_⟩
    · rw [whole]
      exact behind
    · rw [written_cons, List.length_append, whole, length_eq, Nat.add_comm]

theorem within_of_dvd (small : chunkSize ≤ 2 ^ 20) (some_left : 0 < size)
    (whole_chunks : chunkSize ∣ size) :
    ∀ request ∈ (systemBytesFrom device chunkSize positive call place size).2,
      request.place + request.count ≤ place + size := by
  induction size, some_left using chunk_induction positive generalizing call place with
  | last size some_left last =>
    rw [systemBytesFrom_last some_left last]
    intro request request_mem
    obtain rfl := List.mem_singleton.mp request_mem
    exact Nat.add_le_add_left (Nat.le_of_dvd some_left whole_chunks) place
  | more size some_left ih =>
    have here : place + chunkSize ≤ place + (size + chunkSize) := by omega
    rw [systemBytesFrom_more some_left small]
    split_ifs with whole
    · intro request request_mem
      rcases List.mem_cons.mp request_mem with rfl | later
      · exact here
      · have bound := ih ((Nat.dvd_add_left (Nat.dvd_refl chunkSize)).mp whole_chunks)
          request later
        omega
    · intro request request_mem
      obtain rfl := List.mem_singleton.mp request_mem
      exact here

theorem true_of_dvd {call place size : Nat} (small : chunkSize ≤ 2 ^ 20) (some_left : 0 < size)
    (whole_chunks : chunkSize ∣ size)
    (complete : ∀ request ∈ (systemBytesFrom device chunkSize positive call place size).2,
      request.bytes.length = request.count) :
    (systemBytesFrom device chunkSize positive call place size).1 = true := by
  induction size, some_left using chunk_induction positive generalizing call place with
  | last size some_left last =>
    rw [systemBytesFrom_last some_left last] at complete ⊢
    have size_eq : chunkSize = size :=
      Nat.le_antisymm (Nat.le_of_dvd some_left whole_chunks) last
    have length_eq := complete _ (List.mem_singleton_self _)
    exact decide_eq_true ((result_eq_iff some_left last small).mpr (length_eq.trans size_eq))
  | more size some_left ih =>
    rw [systemBytesFrom_more some_left small] at complete ⊢
    split_ifs at complete ⊢ with whole
    · exact ih ((Nat.dvd_add_left (Nat.dvd_refl chunkSize)).mp whole_chunks)
        fun request later => complete request (List.mem_cons_of_mem _ later)
    · exact absurd (complete _ (List.mem_singleton_self _)) whole

end Loop

/-- A device that delivers whatever it is asked for. -/
def Device.full : Device where
  opens := true
  read := fun _ count => some (List.replicate count 0)
  bounded := by
    intro call requested delivered same
    obtain rfl := Option.some.inj same
    exact Nat.le_of_eq List.length_replicate

theorem length_bytes_full (place call count : Nat) :
    (Request.bytes ⟨place, count, Device.full.read call count⟩).length = count :=
  List.length_replicate

theorem overreaches_of_not_dvd {chunkSize : Nat} {positive : 0 < chunkSize}
    (small : chunkSize ≤ 2 ^ 20) (some_left : 0 < size) (rest : ¬ chunkSize ∣ size) :
    ∃ request ∈ (systemBytesFrom Device.full chunkSize positive call place size).2,
      place + size < request.place + request.count := by
  induction size, some_left using chunk_induction positive generalizing call place with
  | last size some_left last =>
    have less : size < chunkSize :=
      Nat.lt_of_le_of_ne last fun same => rest (same ▸ Nat.dvd_refl size)
    rw [systemBytesFrom_last some_left last]
    exact ⟨_, List.mem_singleton_self _, Nat.add_lt_add_left less place⟩
  | more size some_left ih =>
    rw [systemBytesFrom_more some_left small, if_pos (length_bytes_full ..)]
    obtain ⟨request, request_mem, beyond⟩ :=
      ih fun whole_chunks => rest (Nat.dvd_add whole_chunks (Nat.dvd_refl chunkSize))
    exact ⟨request, List.mem_cons_of_mem _ request_mem, by omega⟩

/-! ## The whole call -/

/-- The buffer of so many bytes is filled, and nothing behind it is asked for. -/
structure FillsExactly (size : Nat) : Prop where
  within : ∀ device, ∀ request ∈ (systemSecureBytes device false size).2,
    request.place + request.count ≤ size
  covered : ∀ device, (systemSecureBytes device false size).1 = true →
    ∀ place < size, ∃ request ∈ (systemSecureBytes device false size).2,
      request.place ≤ place ∧ place < request.place + request.bytes.length
  succeeds : ∀ device, device.opens = true →
    (∀ request ∈ (systemSecureBytes device false size).2, request.bytes.length = request.count) →
    (systemSecureBytes device false size).1 = true

theorem systemSecureBytes_zero (device : Device) : systemSecureBytes device false 0 = (false, []) :=
  dif_pos (.inr rfl)

theorem systemSecureBytes_of_closed {device : Device} (size : Nat) (closed : device.opens = false) :
    systemSecureBytes device false size = (false, []) := by
  rw [systemSecureBytes]
  split_ifs <;> rfl

theorem systemSecureBytes_of_opens {device : Device} (opens : device.opens = true)
    (positive : 0 < size) :
    systemSecureBytes device false size =
      systemBytesFrom device (min size (1 * 1024 * 1024)) (by omega) 0 0 size := by
  rw [systemSecureBytes, dif_neg (by simp; omega), if_neg (by simp [opens])]

theorem systemSecureBytes_written {device : Device} {size : Nat}
    (returned : (systemSecureBytes device false size).1 = true) :
    Contiguous 0 (systemSecureBytes device false size).2 ∧
      (written (systemSecureBytes device false size).2).length = size := by
  cases opens : device.opens with
  | false => simp [systemSecureBytes_of_closed size opens] at returned
  | true =>
    rcases Nat.eq_zero_or_pos size with rfl | positive
    · simp [systemSecureBytes_zero] at returned
    · rw [systemSecureBytes_of_opens opens positive] at returned ⊢
      exact written_of_true (Nat.min_le_right ..) positive returned

theorem min_dvd_iff (size : Nat) :
    min size (1 * 1024 * 1024) ∣ size ↔ size ≤ 2 ^ 20 ∨ 2 ^ 20 ∣ size := by
  by_cases small : size ≤ 2 ^ 20
  · have chunk_eq : min size (1 * 1024 * 1024) = size := Nat.min_eq_left small
    rw [chunk_eq]
    exact iff_of_true (Nat.dvd_refl size) (.inl small)
  · have chunk_eq : min size (1 * 1024 * 1024) = 2 ^ 20 := by omega
    rw [chunk_eq, or_iff_right small]

/-- The buffer is filled just when it takes whole chunks: a size of zero is refused, and in a last
chunk that is not whole the device is asked for bytes behind the buffer. -/
theorem systemSecureBytes_fillsExactly_iff (size : Nat) :
    FillsExactly size ↔ 0 < size ∧ (size ≤ 2 ^ 20 ∨ 2 ^ 20 ∣ size) := by
  rw [← min_dvd_iff]
  constructor
  · intro fills
    have positive : 0 < size := by
      rcases Nat.eq_zero_or_pos size with rfl | positive
      · have returned := fills.succeeds Device.full rfl
        simp [systemSecureBytes_zero] at returned
      · exact positive
    refine ⟨positive, ?_⟩
    by_contra rest
    have within := fills.within Device.full
    rw [systemSecureBytes_of_opens rfl positive] at within
    obtain ⟨request, request_mem, beyond⟩ :=
      overreaches_of_not_dvd (Nat.min_le_right ..) positive rest
    have bound := within request request_mem
    omega
  · rintro ⟨positive, whole_chunks⟩
    constructor
    · intro device request request_mem
      cases opens : device.opens with
      | false => simp [systemSecureBytes_of_closed size opens] at request_mem
      | true =>
        rw [systemSecureBytes_of_opens opens positive] at request_mem
        have bound := within_of_dvd (Nat.min_le_right ..) positive whole_chunks request
          request_mem
        omega
    · intro device returned place inside
      obtain ⟨contiguous, length_eq⟩ := systemSecureBytes_written returned
      exact contiguous.exists_mem place.zero_le (by omega)
    · intro device opens complete
      rw [systemSecureBytes_of_opens opens positive] at complete ⊢
      exact true_of_dvd (Nat.min_le_right ..) positive whole_chunks complete

/-- A megabyte and one byte: the second call may write a megabyte where one byte is left, and since
it does, the answer is false. -/
theorem systemSecureBytes_megabyte_and_one :
    ¬ FillsExactly (2 ^ 20 + 1) ∧
      (∃ request ∈ (systemSecureBytes Device.full false (2 ^ 20 + 1)).2,
        request.place = 2 ^ 20 ∧ request.count = 2 ^ 20) ∧
      (systemSecureBytes Device.full false (2 ^ 20 + 1)).1 = false := by
  have run_eq : systemSecureBytes Device.full false (1 + 2 ^ 20) =
      (false, [⟨0, 2 ^ 20, Device.full.read 0 (2 ^ 20)⟩,
        ⟨0 + 2 ^ 20, 2 ^ 20, Device.full.read (0 + 1) (2 ^ 20)⟩]) := by
    have chunk_eq : min (1 + 2 ^ 20) (1 * 1024 * 1024) = 2 ^ 20 := by decide
    rw [systemSecureBytes_of_opens rfl (by decide)]
    simp only [chunk_eq]
    rw [systemBytesFrom_more (by decide) (Nat.le_refl _), if_pos (length_bytes_full ..),
      systemBytesFrom_last (by decide) (by decide)]
    have too_much :
        ¬ Request.result ⟨0 + 2 ^ 20, 2 ^ 20, Device.full.read (0 + 1) (2 ^ 20)⟩ = 1 := by
      rw [result_eq_iff (by decide) (by decide) (Nat.le_refl _), length_bytes_full]
      decide
    rw [decide_eq_false too_much]
  rw [Nat.add_comm, run_eq]
  refine ⟨fun fills => ?_, ⟨_, List.mem_cons_of_mem _ (List.mem_singleton_self _), rfl, rfl⟩, rfl⟩
  have within := fills.within Device.full
  rw [run_eq] at within
  exact absurd (within _ (List.mem_cons_of_mem _ (List.mem_singleton_self _))) (by decide)

end Fusion.Random
