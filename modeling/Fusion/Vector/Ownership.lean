import Fusion.Library.Ownership
import Fusion.Library.Runs
import Fusion.Vector.Evolution
import Fusion.Vector.World

/-!
# Who owns a block

Ownership asks that `m_dynamic` tells whether `m_data` is a block, that every live block belongs to
one vector, and that a vector which was moved from is empty on its own storage.  Three paths break
it: a block that is handed over without its flag, a reset that forgets a block, and the memberwise
copy of the specialisation for `Length` zero.
-/

namespace Fusion.EmbeddedVector

open State Pointer World

variable {α : Type}

/-! ## Ownership -/

/-- The block that a pointer leads to. -/
def Pointer.address : Pointer → Option Nat
  | .block address => some address
  | _ => none

/-- The block that a vector points to. -/
def World.holds (world : World α) (name : Nat) : Option Nat :=
  (world.vec name).bind fun vec => vec.data.address

/-- The flag and the pointer of a vector agree. -/
structure Vec.Flagged (vec : Vec α) : Prop where
  dynamic : vec.dynamic = true → ∃ address, vec.data = .block address
  embedded : vec.dynamic = false → vec.data = vec.home

/-- `m_dynamic` is set exactly when `m_data` is a block and not the vector's own storage, and every
live block is the `m_data` of exactly one vector. -/
structure World.Owned (world : World α) : Prop where
  flagged : ∀ name vec, world.vec name = some vec → vec.Flagged
  exclusive : Ownership.Exclusive world.heap.Live world.holds

/-- A vector that an action has moved from is empty on its own storage. -/
def MovedFrom (after : World α) : Action α → Prop
  | .moveConstruct _ source | .moveAssign _ source =>
    ∃ vec, after.vec source = some vec ∧ vec.offset = 0 ∧ vec.dynamic = false ∧ vec.data = vec.home
  | _ => True

/-- The vector of this name does not own a block. -/
def World.Embedded (world : World α) (name : Nat) : Prop :=
  ∀ vec, world.vec name = some vec → vec.dynamic = false

/-- The assignment between the two is skipped. -/
def World.Skips (equal : α → α → Bool) (world : World α) (target source : Nat) : Prop :=
  ∀ mine theirs, world.vec target = some mine → world.vec source = some theirs →
    skips equal ⟨world.heap, mine⟩ theirs = true

/-- What an action needs: no reset and no move of a vector that owns a block, no skipped move that
leaves its source as it is, and no memberwise copy but of a vector that never had an element. -/
def Action.Safe (equal : α → α → Bool) (world : World α) : Action α → Prop
  | .moveConstruct _ source => world.Embedded source
  | .reset name => world.Embedded name
  | .copyAssign target source => world.Skips equal target source ∨ world.Embedded target
  | .moveAssign target source =>
    world.Embedded source ∧
      (world.Skips equal target source ∧ (∀ vec, world.vec source = some vec → vec.offset = 0) ∨
        ¬ world.Skips equal target source ∧ world.Embedded target)
  | .assignSpan target _ => world.Embedded target
  | .assignArray target _ => world.Embedded target
  | .copyBase source => ∀ vec, world.vec source = some vec → vec.data = .null
  | .assignBase target source => target = source ∨
      (∀ vec, world.vec source = some vec → vec.data = .null) ∧ world.Embedded target ∧
        (∀ mine, world.vec target = some mine → mine.derived = false)
  | _ => True

/-! ## One vector of many -/

variable {name : Nat} {world : World α}

namespace World

theorem holds_put {vec : Vec α} (found : world.vec name = some vec) (state : State α)
    (other : Nat) :
    (world.put name state).holds other =
      if other = name then state.vec.data.address else world.holds other := by
  rw [holds, vec_put found]
  split <;> rfl

theorem holds_eq_address {vec : Vec α} (found : world.vec name = some vec) :
    world.holds name = vec.data.address := by
  rw [holds, found]
  rfl

end World

variable {address : Nat}

theorem Pointer.address_eq_some {pointer : Pointer} :
    pointer.address = some address ↔ pointer = .block address := by
  cases pointer <;> simp [Pointer.address]

theorem Vec.home_ne_block (vec : Vec α) (address : Nat) : vec.home ≠ .block address := by
  unfold Vec.home
  split <;> simp

variable {left : Vec α}

theorem home_eq_of_length {right : Vec α} (length_eq : left.storage.length = right.storage.length) :
    left.home = right.home := by
  have empty_eq : left.storage.isEmpty = right.storage.isEmpty := by
    rw [Bool.eq_iff_iff, List.isEmpty_iff_length_eq_zero, List.isEmpty_iff_length_eq_zero,
      length_eq]
  rw [Vec.home, Vec.home, empty_eq]

variable {next : State α}

namespace World.Owned

variable {world : World α} {name : Nat} {vec : Vec α}

theorem held (owned : world.Owned) (found : world.vec name = some vec) :
    Held ⟨world.heap, vec⟩ := by
  intro address data_eq
  apply owned.exclusive.held name
  rw [holds_eq_address found, address_eq_some]
  exact data_eq

theorem dynamic_of_block (owned : world.Owned) (found : world.vec name = some vec)
    (data_eq : vec.data = .block address) : vec.dynamic = true := by
  cases dynamic_eq : vec.dynamic with
  | true => rfl
  | false =>
    have home_eq := (owned.flagged name vec found).embedded dynamic_eq
    exact absurd (home_eq.symm.trans data_eq) (vec.home_ne_block address)

theorem owns_iff (owned : world.Owned) (found : world.vec name = some vec) {address : Nat} :
    (vec.dynamic = true ∧ vec.data = .block address) ↔ vec.data = .block address :=
  and_iff_right_of_imp (owned.dynamic_of_block found)

/-- A vector that stays where it is or moves to a fresh block leaves everything owned. -/
theorem evolve (owned : world.Owned) (found : world.vec name = some vec)
    (evolves : Evolves ⟨world.heap, vec⟩ next) : (world.put name next).Owned where
  flagged := by
    intro other otherVec other_found
    rw [vec_put found] at other_found
    split at other_found
    · obtain rfl := Option.some.inj other_found
      have before := owned.flagged name vec found
      rcases evolves.kind with kept | ⟨fresh, moved⟩
      · have home_eq : next.vec.home = vec.home := home_eq_of_length evolves.storage_length
        refine ⟨fun dynamic => ?_, fun embedded => ?_⟩
        · rw [kept.data]
          exact before.dynamic (kept.dynamic.symm.trans dynamic)
        · rw [kept.data, home_eq]
          exact before.embedded (kept.dynamic.symm.trans embedded)
      · refine ⟨fun _ => ⟨fresh, moved.data⟩, fun embedded => ?_⟩
        exact Bool.noConfusion (moved.dynamic.symm.trans embedded)
    · exact owned.flagged other otherVec other_found
  exclusive := by
    rcases evolves.kind with kept | ⟨fresh, moved⟩
    · refine owned.exclusive.congr kept.live fun other => ?_
      rw [holds_put found]
      split
      · rename_i same
        rw [same, holds_eq_address found, kept.data]
      · rfl
    · have here : (world.put name next).holds name = some fresh := by
        rw [holds_put found, if_pos rfl, moved.data]
        rfl
      refine owned.exclusive.trade name ?_ ?_ ?_
      · intro other different
        rw [holds_put found, if_neg different]
      · intro address address_eq live
        obtain rfl := Option.some.inj (here.symm.trans address_eq)
        exact absurd moved.unused (Nat.not_le.mpr live.lt_length)
      · intro address
        have live_iff := moved.live address
        rw [here, holds_eq_address found, Ne, address_eq_some]
        change next.heap.Live address ↔ _
        rw [live_iff, owned.owns_iff found, Option.some.injEq, @eq_comm _ fresh]

theorem join (owned : world.Owned) {fresh : Vec α} (embedded : fresh.dynamic = false)
    (home_eq : fresh.data = fresh.home) : (world.add ⟨world.heap, fresh⟩).Owned where
  flagged := by
    intro other otherVec other_found
    rw [vec_add] at other_found
    split at other_found
    · obtain rfl := Option.some.inj other_found
      refine ⟨fun dynamic => ?_, fun _ => home_eq⟩
      exact Bool.noConfusion (dynamic.symm.trans embedded)
    · exact owned.flagged other otherVec other_found
  exclusive := by
    refine owned.exclusive.congr (fun _ => Iff.rfl) fun other => ?_
    rw [World.holds, vec_add]
    split
    · rename_i last
      rw [last, World.holds, vec_length, Option.bind_some, home_eq, Option.bind_none, Vec.home]
      split <;> rfl
    · rfl

theorem created (owned : world.Owned) {storage : List α} {body : State α → Option (State α)}
    {after : World α}
    (evolves : ∀ next, body ⟨world.heap, construct storage⟩ = some next →
      Evolves ⟨world.heap, construct storage⟩ next)
    (create_eq : world.create storage body = some after) : after.Owned := by
  obtain ⟨next, body_eq, create_eq⟩ := Option.bind_eq_some_iff.mp create_eq
  obtain rfl := Option.some.inj create_eq
  have joined := owned.join (show (construct storage).dynamic = false from rfl) rfl
  have found : (world.add ⟨world.heap, construct storage⟩).vec world.vectors.length =
      some (construct storage) := by
    rw [vec_add, if_pos rfl]
  have replaced := joined.evolve found (evolves next body_eq)
  have same : (world.add ⟨world.heap, construct storage⟩).put world.vectors.length next =
      world.add next := by
    simp [add, put]
  rw [← same]
  exact replaced

theorem not_owned_of_lost (owned : world.Owned) (found : world.vec name = some vec)
    {address : Nat} (data_eq : vec.data = .block address) {after : World α}
    (live : after.heap.Live address)
    (others : ∀ other, other ≠ name → after.holds other = some address →
      world.holds other = some address)
    (dropped : after.holds name ≠ some address) : ¬ after.Owned := by
  intro owned_after
  refine owned.exclusive.not_of_lost ?_ live others dropped owned_after.exclusive
  rw [holds_eq_address found, address_eq_some]
  exact data_eq

end World.Owned

/-! ## Resets -/

theorem held_reset (heap : Heap α) (vec : Vec α) : Held ⟨heap, vec.reset⟩ := by
  intro address data_eq
  exact absurd data_eq (vec.home_ne_block address)

theorem evolves_reset {heap : Heap α} {vec : Vec α} (flagged : vec.Flagged)
    (embedded : vec.dynamic = false) : Evolves ⟨heap, vec⟩ ⟨heap, vec.reset⟩ :=
  ⟨rfl, Nat.le_refl _, .inl ⟨(flagged.embedded embedded).symm, embedded.symm, fun _ => Iff.rfl⟩⟩

theorem lost_of_reset {heap : Heap α} {vec : Vec α} (evolves : Evolves ⟨heap, vec.reset⟩ next)
    (live : heap.Live address) : next.heap.Live address ∧ next.vec.data ≠ .block address := by
  rcases evolves.kind with kept | ⟨fresh, moved⟩
  · rw [kept.live, kept.data]
    exact ⟨live, vec.home_ne_block address⟩
  · rw [moved.live, moved.data]
    refine ⟨.inr ⟨live, fun both => absurd both.1 Bool.false_ne_true⟩, fun same => ?_⟩
    have fresh_eq : fresh = address := block.inj same
    have unused : heap.length ≤ fresh := moved.unused
    exact absurd live.lt_length (by omega)

theorem World.Owned.put_reset_iff (owned : world.Owned) {vec : Vec α}
    (found : world.vec name = some vec) (evolves : Evolves ⟨world.heap, vec.reset⟩ next) :
    (world.put name next).Owned ↔ vec.dynamic = false := by
  have flagged := owned.flagged name vec found
  constructor
  · intro owned_after
    by_contra dynamic
    obtain ⟨address, data_eq⟩ := flagged.dynamic (eq_true_of_ne_false dynamic)
    obtain ⟨live, dropped⟩ := lost_of_reset evolves (owned.held found address data_eq)
    refine owned.not_owned_of_lost found data_eq live ?_ ?_ owned_after
    · intro other different
      rw [holds_put found, if_neg different]
      exact id
    · rw [holds_put found, if_pos rfl, Ne, address_eq_some]
      exact dropped
  · intro embedded
    exact owned.evolve found ((evolves_reset flagged embedded).trans evolves)

/-! ## Moves -/

theorem moveFrom_cases {garbage : Nat → Nat → α} {source : Vec α} {target : State α}
    (held : Held target) (move_eq : target.moveFrom garbage source = some (next, left)) :
    left = source.reset ∧
      (source.dynamic = true ∧ next.heap = target.heap ∧
          next.vec.dynamic = target.vec.dynamic ∧ next.vec.data = source.data.foreign ∨
        source.dynamic = false ∧ Evolves target next) := by
  unfold moveFrom at move_eq
  split at move_eq
  · rename_i dynamic
    obtain ⟨rfl, rfl⟩ := Prod.mk.inj (Option.some.inj move_eq)
    exact ⟨rfl, .inl ⟨dynamic, rfl, rfl, rfl⟩⟩
  · rename_i embedded
    obtain ⟨reserved, reserve_eq, move_eq⟩ := Option.bind_eq_some_iff.mp move_eq
    obtain ⟨values, -, move_eq⟩ := Option.bind_eq_some_iff.mp move_eq
    obtain ⟨inserted, insert_eq, move_eq⟩ := Option.bind_eq_some_iff.mp move_eq
    obtain ⟨rfl, rfl⟩ := Prod.mk.inj (Option.some.inj move_eq)
    exact ⟨rfl, .inr ⟨Bool.eq_false_iff.mpr embedded,
      evolves_reserve_insertEnd held reserve_eq insert_eq⟩⟩

theorem World.not_owned_of_unflagged {vec : Vec α} (found : world.vec name = some vec)
    (embedded : vec.dynamic = false) (data_eq : vec.data = .block address) : ¬ world.Owned := by
  intro owned
  have home_eq := (owned.flagged name vec found).embedded embedded
  exact vec.home_ne_block address (home_eq.symm.trans data_eq)

namespace World.Owned

variable {world : World α} {garbage : Nat → Nat → α} {target source : Nat}
  {mine theirs left : Vec α} {next : State α}

/-- A vector constructed by a move owns what it should exactly when its source had no block. -/
theorem moveConstruct_iff (owned : world.Owned) (found : world.vec source = some theirs)
    {storage : List α}
    (move_eq : moveFrom garbage theirs ⟨world.heap, construct storage⟩ = some (next, left)) :
    ((world.add next).put source ⟨next.heap, left⟩).Owned ↔ theirs.dynamic = false := by
  have flagged := owned.flagged source theirs found
  have other : source ≠ world.vectors.length := Nat.ne_of_lt (lt_length_of_vec found)
  have still_found : (world.add next).vec source = some theirs := by
    rw [vec_add, if_neg other, found]
  obtain ⟨rfl, kind⟩ := moveFrom_cases (held_reset _ _) move_eq
  rcases kind with ⟨dynamic, -, embedded_eq, data_eq⟩ | ⟨embedded, evolves⟩
  · refine iff_of_false ?_ (by simp [dynamic])
    obtain ⟨address, block_eq⟩ := flagged.dynamic dynamic
    have fresh_found : ((world.add next).put source ⟨next.heap, theirs.reset⟩).vec
        world.vectors.length = some next.vec := by
      rw [vec_put still_found, if_neg other.symm, vec_add, if_pos rfl]
    have handed_over : next.vec.data = .block address := by
      rw [data_eq, block_eq]
      rfl
    exact not_owned_of_unflagged fresh_found embedded_eq handed_over
  · refine iff_of_true ?_ embedded
    have grown : (world.add next).Owned := by
      refine @created α world owned storage (fun _ => some next) _ ?_ rfl
      intro other same
      obtain rfl := Option.some.inj same
      exact evolves
    exact grown.evolve still_found (evolves_reset flagged embedded)

/-- A move assignment that is not skipped keeps ownership exactly when neither side had a block. -/
theorem moveAssign_iff (owned : world.Owned) (different : target ≠ source)
    (target_found : world.vec target = some mine) (source_found : world.vec source = some theirs)
    (move_eq : moveFrom garbage theirs ⟨world.heap, mine.reset⟩ = some (next, left)) :
    ((world.put target next).put source ⟨next.heap, left⟩).Owned ↔
      theirs.dynamic = false ∧ mine.dynamic = false := by
  have flagged := owned.flagged source theirs source_found
  have still_found : (world.put target next).vec source = some theirs := by
    rw [vec_put target_found, if_neg different.symm, source_found]
  obtain ⟨rfl, kind⟩ := moveFrom_cases (held_reset _ _) move_eq
  have target_after : ((world.put target next).put source ⟨next.heap, theirs.reset⟩).vec target =
      some next.vec := by
    rw [vec_put still_found, if_neg different, vec_put target_found, if_pos rfl]
  rcases kind with ⟨dynamic, -, embedded_eq, data_eq⟩ | ⟨embedded, evolves⟩
  · refine iff_of_false ?_ (by simp [dynamic])
    obtain ⟨address, block_eq⟩ := flagged.dynamic dynamic
    have handed_over : next.vec.data = .block address := by
      rw [data_eq, block_eq]
      rfl
    exact not_owned_of_unflagged target_after embedded_eq handed_over
  · constructor
    · intro owned_after
      refine ⟨embedded, ?_⟩
      by_contra dynamic
      obtain ⟨address, block_eq⟩ :=
        (owned.flagged target mine target_found).dynamic (eq_true_of_ne_false dynamic)
      obtain ⟨live, dropped⟩ := lost_of_reset evolves (owned.held target_found address block_eq)
      refine owned.not_owned_of_lost target_found block_eq live ?_ ?_ owned_after
      · intro other other_ne
        rw [holds_put still_found, holds_put target_found, if_neg other_ne]
        split
        · intro reset_holds
          exact absurd (address_eq_some.mp reset_holds) (theirs.home_ne_block address)
        · exact id
      · rw [holds_eq_address target_after, Ne, address_eq_some]
        exact dropped
    · rintro ⟨-, target_embedded⟩
      have moved := (owned.put_reset_iff target_found evolves).mpr target_embedded
      exact moved.evolve still_found (evolves_reset flagged embedded)

theorem unchanged (owned : world.Owned) {vec : Vec α} (found : world.vec name = some vec) :
    (world.put name ⟨world.heap, vec⟩).Owned :=
  owned.evolve found (Evolves.refl _)

theorem vec_removed (found : world.vec source = some theirs) (heap : Heap α) (other : Nat) :
    World.vec ⟨heap, world.vectors.set source none⟩ other =
      if other = source then none else world.vec other := by
  rcases eq_or_ne other source with rfl | different
  · rw [if_pos rfl, World.vec, List.getElem?_set_self (lt_length_of_vec found), Option.join_some]
  · rw [if_neg different, World.vec, List.getElem?_set_ne different.symm, World.vec]

theorem holds_removed (found : world.vec source = some theirs) (heap : Heap α) (other : Nat) :
    World.holds ⟨heap, world.vectors.set source none⟩ other =
      if other = source then none else world.holds other := by
  rw [World.holds, vec_removed found]
  split <;> rfl

theorem destroyed (owned : world.Owned) (found : world.vec source = some theirs) {freed : State α}
    (free_eq : State.free ⟨world.heap, theirs⟩ = some freed) :
    World.Owned ⟨freed.heap, world.vectors.set source none⟩ := by
  refine ⟨?_, owned.exclusive.trade source ?_ ?_ ?_⟩
  · intro other otherVec other_found
    rw [vec_removed found] at other_found
    split at other_found
    · exact absurd other_found (by simp)
    · exact owned.flagged other otherVec other_found
  · intro other different
    rw [holds_removed found, if_neg different]
  · intro address address_eq
    rw [holds_removed found, if_pos rfl] at address_eq
    exact absurd address_eq (by simp)
  · intro address
    rw [holds_removed found, if_pos rfl, holds_eq_address found, Ne, address_eq_some]
    simp only [reduceCtorEq, false_or]
    have owns_iff := @owns_iff α world source theirs owned found address
    exact (live_free free_eq address).trans (and_congr_right fun _ => not_congr owns_iff)

theorem eq_of_shared (owned : world.Owned) {left right : Nat} {leftVec rightVec : Vec α}
    (left_found : world.vec left = some leftVec) (right_found : world.vec right = some rightVec)
    (left_eq : leftVec.data = .block address) (right_eq : rightVec.data = .block address) :
    left = right := by
  apply owned.exclusive.unique left right address
  · rw [holds_eq_address left_found, left_eq]
    rfl
  · rw [holds_eq_address right_found, right_eq]
    rfl

theorem embedded_of_null (owned : world.Owned) (found : world.vec source = some theirs)
    (null : theirs.data = .null) : theirs.dynamic = false := by
  by_contra dynamic
  obtain ⟨address, block_eq⟩ :=
    (owned.flagged source theirs found).dynamic (eq_true_of_ne_false dynamic)
  exact absurd (null.symm.trans block_eq) (by simp)

/-- A memberwise copy is owned exactly when there is nothing to own. -/
theorem copyBase_iff (owned : world.Owned) (found : world.vec source = some theirs) :
    (world.add ⟨world.heap, theirs.sliced []⟩).Owned ↔ theirs.data = .null := by
  have other : source ≠ world.vectors.length := Nat.ne_of_lt (lt_length_of_vec found)
  have flagged := owned.flagged source theirs found
  have source_after : (world.add ⟨world.heap, theirs.sliced []⟩).vec source = some theirs := by
    rw [vec_add, if_neg other, found]
  have copy_after : (world.add ⟨world.heap, theirs.sliced []⟩).vec world.vectors.length =
      some (theirs.sliced []) := by
    rw [vec_add, if_pos rfl]
  constructor
  · intro owned_after
    cases dynamic_eq : theirs.dynamic with
    | true =>
      obtain ⟨address, block_eq⟩ := flagged.dynamic dynamic_eq
      have sliced_eq : (theirs.sliced []).data = .block address := by
        rw [Vec.sliced, block_eq]
        rfl
      exact absurd (owned_after.eq_of_shared source_after copy_after block_eq sliced_eq) other
    | false =>
      have home_eq := (owned_after.flagged _ _ copy_after).embedded dynamic_eq
      have foreign_eq : theirs.data.foreign = .null := home_eq
      cases data_eq : theirs.data <;> rw [data_eq] at foreign_eq <;> first
        | rfl
        | exact absurd foreign_eq (by simp [foreign])
  · intro null
    have embedded : theirs.dynamic = false := owned.embedded_of_null found null
    refine @join α world owned (theirs.sliced []) embedded ?_
    rw [Vec.sliced, null]
    rfl

/-- A memberwise assignment is owned exactly when neither side has anything to own. -/
theorem assignBase_iff (owned : world.Owned) (different : target ≠ source)
    (target_found : world.vec target = some mine) (source_found : world.vec source = some theirs) :
    (world.put target ⟨world.heap, theirs.sliced mine.storage⟩).Owned ↔
      theirs.data = .null ∧ mine.dynamic = false ∧ mine.derived = false := by
  have source_after : (world.put target ⟨world.heap, theirs.sliced mine.storage⟩).vec source =
      some theirs := by
    rw [vec_put target_found, if_neg different.symm, source_found]
  have target_after : (world.put target ⟨world.heap, theirs.sliced mine.storage⟩).vec target =
      some (theirs.sliced mine.storage) := by
    rw [vec_put target_found, if_pos rfl]
  constructor
  · intro owned_after
    have embedded : theirs.dynamic = false := by
      by_contra dynamic
      obtain ⟨address, block_eq⟩ :=
        (owned.flagged source theirs source_found).dynamic (eq_true_of_ne_false dynamic)
      have sliced_eq : (theirs.sliced mine.storage).data = .block address := by
        rw [Vec.sliced, block_eq]
        rfl
      exact different (owned_after.eq_of_shared target_after source_after sliced_eq block_eq)
    have home_eq : theirs.data.foreign = mine.home :=
      (owned_after.flagged _ _ target_after).embedded embedded
    have both : theirs.data = .null ∧ mine.derived = false := by
      unfold Vec.home at home_eq
      unfold Vec.derived
      cases data_eq : theirs.data <;> cases empty_eq : mine.storage.isEmpty <;>
        simp_all [foreign]
    refine ⟨both.1, ?_, both.2⟩
    by_contra dynamic
    obtain ⟨address, block_eq⟩ :=
      (owned.flagged target mine target_found).dynamic (eq_true_of_ne_false dynamic)
    have live : (world.put target ⟨world.heap, theirs.sliced mine.storage⟩).heap.Live address :=
      owned.held target_found address block_eq
    refine owned.not_owned_of_lost target_found block_eq live ?_ ?_ owned_after
    · intro other other_ne
      rw [holds_put target_found, if_neg other_ne]
      exact id
    · rw [holds_eq_address target_after, Vec.sliced, both.1]
      simp [foreign, Pointer.address]
  · rintro ⟨null, embedded, base⟩
    have mine_null : mine.data = .null := by
      rw [(owned.flagged target mine target_found).embedded embedded, Vec.home,
        if_pos (by simpa [Vec.derived] using base)]
    refine owned.evolve target_found ⟨rfl, Nat.le_refl _, .inl ⟨?_, ?_, fun _ => Iff.rfl⟩⟩
    · change theirs.data.foreign = mine.data
      rw [null, mine_null]
      rfl
    · exact (owned.embedded_of_null source_found null).trans embedded.symm

end World.Owned

/-! ## Every action -/

namespace World.Owned

variable {world after : World α} {name : Nat} {operation : State α → Option (State α)}

theorem on_evolves (owned : world.Owned)
    (evolves : ∀ state next, Held state → operation state = some next → Evolves state next)
    (on_eq : world.on name operation = some after) : after.Owned := by
  obtain ⟨vec, found, on_eq⟩ := Option.bind_eq_some_iff.mp on_eq
  obtain ⟨next, next_eq, on_eq⟩ := Option.bind_eq_some_iff.mp on_eq
  obtain rfl := Option.some.inj on_eq
  exact owned.evolve found (evolves _ next (owned.held found) next_eq)

theorem on_resets_iff (owned : world.Owned)
    (resets : ∀ state next, operation state = some next → Evolves state.reset next)
    (on_eq : world.on name operation = some after) : after.Owned ↔ world.Embedded name := by
  obtain ⟨vec, found, on_eq⟩ := Option.bind_eq_some_iff.mp on_eq
  obtain ⟨next, next_eq, on_eq⟩ := Option.bind_eq_some_iff.mp on_eq
  obtain rfl := Option.some.inj on_eq
  rw [owned.put_reset_iff found (resets _ next next_eq), World.Embedded]
  simp [found]

theorem on_derived_resets_iff (owned : world.Owned)
    (resets : ∀ state next, operation state = some next → Evolves state.reset next)
    (on_eq : world.on name (fun state => do
      guard state.vec.derived
      operation state) = some after) : after.Owned ↔ world.Embedded name := by
  refine owned.on_resets_iff ?_ on_eq
  intro state next next_eq
  obtain ⟨-, -, next_eq⟩ := Option.bind_eq_some_iff.mp next_eq
  exact resets state next next_eq

end World.Owned

theorem World.embedded_iff {vec : Vec α} (found : world.vec name = some vec) :
    world.Embedded name ↔ vec.dynamic = false := by
  simp [World.Embedded, found]

variable {mine theirs : Vec α} {source target : Nat}

theorem World.skips_iff {equal : α → α → Bool} (target_found : world.vec target = some mine)
    (source_found : world.vec source = some theirs) :
    world.Skips equal target source ↔ skips equal ⟨world.heap, mine⟩ theirs = true := by
  simp [World.Skips, target_found, source_found]

theorem movedFrom_reset {vec : Vec α} (found : world.vec source = some theirs) (heap : Heap α) :
    ∃ left, (world.put source ⟨heap, vec.reset⟩).vec source = some left ∧ left.offset = 0 ∧
      left.dynamic = false ∧ left.data = left.home := by
  refine ⟨vec.reset, ?_, rfl, rfl, rfl⟩
  rw [World.vec_put found, if_pos rfl]

section Copies

variable {garbage : Nat → Nat → α} {equal : α → α → Bool} {values : List α}
  {state next : State α}

theorem resets_assign {size : Nat} (assign_eq : state.assign garbage size = some next) :
    Evolves state.reset next :=
  evolves_reserve (held_reset _ _) assign_eq

theorem resets_assignSpan (assign_eq : state.assignSpan garbage values = some next) :
    Evolves state.reset next := by
  obtain ⟨assigned, assigned_eq, insert_eq⟩ := Option.bind_eq_some_iff.mp assign_eq
  exact evolves_reserve_insertEnd (held_reset _ _) assigned_eq insert_eq

theorem copyAssign_cases {source : Vec α}
    (assign_eq : state.copyAssign garbage equal source = some next) :
    state.skips equal source = true ∧ next = state ∨
      state.skips equal source = false ∧ Evolves state.reset next := by
  unfold copyAssign at assign_eq
  split at assign_eq
  · rename_i skipped
    exact .inl ⟨skipped, (Option.some.inj assign_eq).symm⟩
  · rename_i performed
    obtain ⟨assigned, assigned_eq, assign_eq⟩ := Option.bind_eq_some_iff.mp assign_eq
    obtain ⟨fetched, -, insert_eq⟩ := Option.bind_eq_some_iff.mp assign_eq
    exact .inr ⟨Bool.eq_false_iff.mpr performed,
      evolves_reserve_insertEnd (held_reset _ _) assigned_eq insert_eq⟩

theorem selfCopyAssign_cases (assign_eq : state.selfCopyAssign garbage equal = some next) :
    state.skips equal state.vec = true ∧ next = state ∨
      state.skips equal state.vec = false ∧ Evolves state.reset next := by
  unfold selfCopyAssign at assign_eq
  split at assign_eq
  · rename_i skipped
    exact .inl ⟨skipped, (Option.some.inj assign_eq).symm⟩
  · rename_i performed
    obtain ⟨assigned, assigned_eq, insert_eq⟩ := Option.bind_eq_some_iff.mp assign_eq
    exact .inr ⟨Bool.eq_false_iff.mpr performed,
      evolves_reserve_insertEnd (held_reset _ _) assigned_eq insert_eq⟩

theorem evolves_fillWith (held : Held state)
    (fill_eq : state.fillWith garbage values = some next) : Evolves state next := by
  obtain ⟨reserved, reserve_eq, insert_eq⟩ := Option.bind_eq_some_iff.mp fill_eq
  exact evolves_reserve_insertEnd held reserve_eq insert_eq

theorem evolves_copyFrom {source : Vec α} (held : Held state)
    (copy_eq : state.copyFrom garbage source = some next) : Evolves state next := by
  obtain ⟨reserved, reserve_eq, copy_eq⟩ := Option.bind_eq_some_iff.mp copy_eq
  obtain ⟨fetched, -, insert_eq⟩ := Option.bind_eq_some_iff.mp copy_eq
  exact evolves_reserve_insertEnd held reserve_eq insert_eq

end Copies

theorem World.Owned.put_assigned_iff {world : World α} (owned : world.Owned) {name : Nat}
    {vec : Vec α} (found : world.vec name = some vec) {next : State α} {skipped : Bool}
    (kind : skipped = true ∧ next = ⟨world.heap, vec⟩ ∨
      skipped = false ∧ Evolves ⟨world.heap, vec.reset⟩ next) :
    (world.put name next).Owned ↔ skipped = true ∨ vec.dynamic = false := by
  rcases kind with ⟨rfl, rfl⟩ | ⟨rfl, evolves⟩
  · exact iff_of_true (owned.unchanged found) (.inl rfl)
  · rw [owned.put_reset_iff found evolves]
    simp

theorem World.Owned.movedFrom_iff (owned : world.Owned) {vec : Vec α}
    (found : world.vec source = some vec) :
    (∃ left, world.vec source = some left ∧ left.offset = 0 ∧ left.dynamic = false ∧
      left.data = left.home) ↔ vec.dynamic = false ∧ vec.offset = 0 := by
  constructor
  · rintro ⟨left, left_found, offset_eq, embedded, -⟩
    obtain rfl := Option.some.inj (found.symm.trans left_found)
    exact ⟨embedded, offset_eq⟩
  · rintro ⟨embedded, offset_eq⟩
    exact ⟨vec, found, offset_eq, embedded, (owned.flagged source vec found).embedded embedded⟩

section Actions

variable {garbage : Nat → Nat → α} {locate : Pointer → α → Target} {equal : α → α → Bool}
  {world after : World α}

theorem World.Owned.selfMoveAssign_iff (owned : world.Owned)
    (found : world.vec target = some mine) :
    (world.put target (selfMoveAssign equal ⟨world.heap, mine⟩)).Owned ∧
        MovedFrom (world.put target (selfMoveAssign equal ⟨world.heap, mine⟩))
          (.moveAssign target target) ↔
      mine.dynamic = false ∧ (skips equal ⟨world.heap, mine⟩ mine = true ∧ mine.offset = 0 ∨
        ¬ skips equal ⟨world.heap, mine⟩ mine = true ∧ mine.dynamic = false) := by
  unfold selfMoveAssign
  split
  · rename_i skipped
    have kept := owned.unchanged found
    have found_after : (world.put target ⟨world.heap, mine⟩).vec target = some mine := by
      rw [vec_put found, if_pos rfl]
    refine (and_iff_right kept).trans ((kept.movedFrom_iff found_after).trans ?_)
    simp [skipped]
  · rename_i performed
    refine (and_iff_left (movedFrom_reset found _)).trans ?_
    refine (owned.put_reset_iff found (Evolves.refl _)).trans ?_
    simp [performed]

theorem World.Owned.otherMoveAssign_iff (owned : world.Owned) (different : target ≠ source)
    (target_found : world.vec target = some mine) (source_found : world.vec source = some theirs)
    (move_eq : moveAssign garbage equal theirs ⟨world.heap, mine⟩ = some (next, left)) :
    ((world.put target next).put source ⟨next.heap, left⟩).Owned ∧
        MovedFrom ((world.put target next).put source ⟨next.heap, left⟩)
          (.moveAssign target source) ↔
      theirs.dynamic = false ∧
        (skips equal ⟨world.heap, mine⟩ theirs = true ∧ theirs.offset = 0 ∨
          ¬ skips equal ⟨world.heap, mine⟩ theirs = true ∧ mine.dynamic = false) := by
  have still_found : (world.put target next).vec source = some theirs := by
    rw [vec_put target_found, if_neg different.symm, source_found]
  unfold moveAssign at move_eq
  split at move_eq
  · rename_i skipped
    -- Nothing moves, so the source must be as a move would have left it.
    obtain ⟨rfl, rfl⟩ := Prod.mk.inj (Option.some.inj move_eq)
    have kept := (owned.unchanged target_found).unchanged still_found
    have found_after : ((world.put target ⟨world.heap, mine⟩).put source
        ⟨world.heap, theirs⟩).vec source = some theirs := by
      rw [vec_put still_found, if_pos rfl]
    refine (and_iff_right kept).trans ((kept.movedFrom_iff found_after).trans ?_)
    simp [skipped]
  · rename_i performed
    obtain rfl : left = theirs.reset := (moveFrom_cases (held_reset _ _) move_eq).1
    refine (and_iff_left (movedFrom_reset still_found _)).trans ?_
    refine (owned.moveAssign_iff different target_found source_found move_eq).trans ?_
    simp [performed]

theorem World.Owned.step_moveConstruct_iff [Inhabited α] (owned : world.Owned) {storage : List α}
    (step_eq : world.step garbage locate equal (.moveConstruct storage source) = some after) :
    after.Owned ∧ MovedFrom after (.moveConstruct storage source) ↔
      (.moveConstruct storage source : Action α).Safe equal world := by
  obtain ⟨theirs, found, step_eq⟩ := Option.bind_eq_some_iff.mp step_eq
  obtain ⟨-, -, step_eq⟩ := Option.bind_eq_some_iff.mp step_eq
  obtain ⟨⟨next, left⟩, move_eq, step_eq⟩ := Option.bind_eq_some_iff.mp step_eq
  obtain rfl := Option.some.inj step_eq
  obtain rfl : left = theirs.reset := (moveFrom_cases (held_reset _ _) move_eq).1
  have still_found : (world.add next).vec source = some theirs := by
    rw [vec_add, if_neg (Nat.ne_of_lt (lt_length_of_vec found)), found]
  refine (and_iff_left (movedFrom_reset still_found _)).trans ?_
  exact (owned.moveConstruct_iff found move_eq).trans (embedded_iff found).symm

theorem World.Owned.step_copyAssign_iff [Inhabited α] (owned : world.Owned)
    (step_eq : world.step garbage locate equal (.copyAssign target source) = some after) :
    after.Owned ∧ MovedFrom after (.copyAssign target source) ↔
      (.copyAssign target source : Action α).Safe equal world := by
  obtain ⟨theirs, source_found, step_eq⟩ := Option.bind_eq_some_iff.mp step_eq
  obtain ⟨mine, target_found, step_eq⟩ := Option.bind_eq_some_iff.mp step_eq
  obtain ⟨next, next_eq, step_eq⟩ := Option.bind_eq_some_iff.mp step_eq
  obtain ⟨-, -, assign_eq⟩ := Option.bind_eq_some_iff.mp next_eq
  obtain rfl := Option.some.inj step_eq
  refine (and_iff_left trivial).trans ?_
  change _ ↔ world.Skips equal target source ∨ world.Embedded target
  rw [embedded_iff target_found, skips_iff target_found source_found]
  -- A vector that is assigned to itself inserts what its own reset has left.
  rcases eq_or_ne target source with rfl | different
  · rw [if_pos rfl] at assign_eq
    obtain rfl := Option.some.inj (target_found.symm.trans source_found)
    exact owned.put_assigned_iff target_found (selfCopyAssign_cases assign_eq)
  · rw [if_neg different] at assign_eq
    exact owned.put_assigned_iff target_found (copyAssign_cases assign_eq)

theorem World.Owned.step_moveAssign_iff [Inhabited α] (owned : world.Owned)
    (step_eq : world.step garbage locate equal (.moveAssign target source) = some after) :
    after.Owned ∧ MovedFrom after (.moveAssign target source) ↔
      (.moveAssign target source : Action α).Safe equal world := by
  obtain ⟨mine, target_found, step_eq⟩ := Option.bind_eq_some_iff.mp step_eq
  obtain ⟨theirs, source_found, step_eq⟩ := Option.bind_eq_some_iff.mp step_eq
  obtain ⟨-, -, assign_eq⟩ := Option.bind_eq_some_iff.mp step_eq
  have offset_iff : (∀ vec, world.vec source = some vec → vec.offset = 0) ↔ theirs.offset = 0 := by
    simp [source_found]
  rw [Action.Safe, embedded_iff target_found, embedded_iff source_found,
    skips_iff target_found source_found, offset_iff]
  rcases eq_or_ne target source with rfl | different
  · rw [if_pos rfl] at assign_eq
    obtain rfl := Option.some.inj (target_found.symm.trans source_found)
    obtain rfl := Option.some.inj assign_eq
    exact owned.selfMoveAssign_iff target_found
  · rw [if_neg different] at assign_eq
    obtain ⟨⟨next, left⟩, move_eq, assign_eq⟩ := Option.bind_eq_some_iff.mp assign_eq
    obtain rfl := Option.some.inj assign_eq
    exact owned.otherMoveAssign_iff different target_found source_found move_eq

theorem World.Owned.step_assignBase_iff [Inhabited α] (owned : world.Owned)
    (step_eq : world.step garbage locate equal (.assignBase target source) = some after) :
    after.Owned ∧ MovedFrom after (.assignBase target source) ↔
      (.assignBase target source : Action α).Safe equal world := by
  obtain ⟨mine, target_found, step_eq⟩ := Option.bind_eq_some_iff.mp step_eq
  obtain ⟨theirs, source_found, step_eq⟩ := Option.bind_eq_some_iff.mp step_eq
  refine (and_iff_left trivial).trans ?_
  split at step_eq
  · rename_i same
    obtain rfl := Option.some.inj step_eq
    exact iff_of_true owned (.inl same)
  · rename_i different
    obtain rfl := Option.some.inj step_eq
    rw [owned.assignBase_iff different target_found source_found]
    simp [Action.Safe, different, target_found, source_found, embedded_iff target_found]

/-- Every action keeps ownership, and leaves a vector that it moved from empty, exactly when it is
safe. -/
theorem World.Owned.step_iff [Inhabited α] (owned : world.Owned) {action : Action α}
    (step_eq : world.step garbage locate equal action = some after) :
    after.Owned ∧ MovedFrom after action ↔ action.Safe equal world := by
  cases action with
  | construct storage =>
    refine iff_of_true ⟨owned.created (fun next next_eq => ?_) step_eq, trivial⟩ trivial
    obtain rfl := Option.some.inj next_eq
    exact Evolves.refl _
  | constructFrom storage values =>
    exact iff_of_true ⟨owned.created (fun next => evolves_fillWith (held_reset _ _)) step_eq,
      trivial⟩ trivial
  | constructCount storage count value =>
    exact iff_of_true ⟨owned.created (fun next => evolves_resize (held_reset _ _)) step_eq,
      trivial⟩ trivial
  | copyConstruct storage source =>
    obtain ⟨vec, -, create_eq⟩ := Option.bind_eq_some_iff.mp step_eq
    exact iff_of_true ⟨owned.created (fun next => evolves_copyFrom (held_reset _ _)) create_eq,
      trivial⟩ trivial
  | moveConstruct storage source =>
    exact owned.step_moveConstruct_iff step_eq
  | mutate name op =>
    exact iff_of_true ⟨owned.on_evolves (fun _ _ held => evolves_perform held) step_eq, trivial⟩
      trivial
  | reset name =>
    rw [step] at step_eq
    refine (and_iff_left trivial).trans (owned.on_derived_resets_iff ?_ step_eq)
    intro state next next_eq
    obtain rfl := Option.some.inj next_eq
    exact Evolves.refl _
  | copyAssign target source =>
    exact owned.step_copyAssign_iff step_eq
  | moveAssign target source =>
    exact owned.step_moveAssign_iff step_eq
  | assignSpan target values =>
    rw [step] at step_eq
    refine (and_iff_left trivial).trans (owned.on_derived_resets_iff ?_ step_eq)
    exact fun _ _ => resets_assignSpan
  | assignMutableSpan target values =>
    rw [step] at step_eq
    refine iff_of_true ⟨owned.on_evolves ?_ step_eq, trivial⟩ trivial
    intro state next held next_eq
    obtain ⟨-, -, next_eq⟩ := Option.bind_eq_some_iff.mp next_eq
    exact evolves_fillWith held next_eq
  | assignArray target values =>
    rw [step] at step_eq
    refine (and_iff_left trivial).trans (owned.on_derived_resets_iff ?_ step_eq)
    exact fun _ _ => resets_assign
  | destroy name =>
    obtain ⟨vec, found, step_eq⟩ := Option.bind_eq_some_iff.mp step_eq
    obtain ⟨freed, free_eq, step_eq⟩ := Option.bind_eq_some_iff.mp step_eq
    obtain rfl := Option.some.inj step_eq
    exact iff_of_true ⟨owned.destroyed found free_eq, trivial⟩ trivial
  | copyBase source =>
    obtain ⟨theirs, found, step_eq⟩ := Option.bind_eq_some_iff.mp step_eq
    obtain rfl := Option.some.inj step_eq
    refine (and_iff_left trivial).trans ((owned.copyBase_iff found).trans ?_)
    simp [Action.Safe, found]
  | assignBase target source =>
    exact owned.step_assignBase_iff step_eq

end Actions

theorem World.owned_empty : (empty : World α).Owned := by
  have nothing (name : Nat) : (empty : World α).vec name = none := by
    simp [empty, World.vec]
  refine ⟨fun name vec found => ?_, fun name address holds_eq => ?_, fun address live => ?_,
    fun left right address left_eq => ?_⟩
  · exact absurd (found.symm.trans (nothing name)) (by simp)
  · exact absurd holds_eq (by simp [World.holds, nothing])
  · exact absurd live.lt_length (by simp [empty])
  · exact absurd left_eq (by simp [World.holds, nothing])

/-- Along every run ownership holds after every action, and what was moved from is empty on its own
storage, exactly when every action is safe where it is done. -/
theorem everyStep_owned_iff [Inhabited α] (garbage : Nat → Nat → α)
    (locate : Pointer → α → Target) (equal : α → α → Bool) (actions : List (Action α)) :
    Runs.EveryStep (step garbage locate equal) empty
        (fun _ _ action after => after.Owned ∧ MovedFrom after action) actions ↔
      Runs.EveryStep (step garbage locate equal) empty
        (fun _ before action _ => action.Safe equal before) actions := by
  refine @Runs.everyStep_iff _ _ _ _ _ _ (fun _ world => world.Owned) owned_empty ?_ ?_
    actions
  · intro front before action after owned step_eq
    exact owned.step_iff step_eq
  · intro front before action after owned step_eq safe
    exact ((owned.step_iff step_eq).mpr safe).1

/-- A vector with room for one element is filled with two and moved: the new vector points to the
block and does not know that it owns it. -/
theorem moveConstruct_unflagged :
    ¬ Runs.EveryStep (step (fun _ _ => (0 : Nat)) (fun _ _ => .elsewhere) (· == ·))
      empty (fun _ _ action after => after.Owned ∧ MovedFrom after action)
      [.constructFrom [0] [1, 2], .moveConstruct [0] 0] := by
  intro every
  obtain ⟨owned, -⟩ := every [.constructFrom [0] [1, 2]] (.moveConstruct [0] 0) [] _ _ rfl rfl rfl
  have flagged := owned.flagged 1 _ rfl
  exact Pointer.noConfusion (flagged.embedded rfl)

end Fusion.EmbeddedVector
