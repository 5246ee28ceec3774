import Fusion.Library.Runs
import Fusion.Result

/-!
# Dynamic libraries

The system counts how often a library was opened and unloads it when it was closed as often.  A
`Library` object stands for one opening.  `Load` asserts that the object has none, and in a build
without assertions writes over the one that it has.
-/

namespace Fusion.Library

open Runs

/-- What `dlopen` returns. -/
abbrev Handle := Nat

/-- A `DynamicLibrary` and its `m_handle`. -/
inductive Object
  | loaded (handle : Handle)
  /-- `m_handle` is null. -/
  | empty
  | destroyed
deriving DecidableEq, Repr

/-- The libraries of a process. -/
structure World where
  /-- One entry for each `dlopen` that no `dlclose` has undone. -/
  references : List Handle := []
  objects : List Object := []
  /-- The handles that `Load` has written over. -/
  overwritten : List Handle := []

namespace World

def object (world : World) (index : Nat) : Object := world.objects.getD index .destroyed

/-- To close a library that is not open is not defined. -/
def dlclose (world : World) (handle : Handle) : Option World :=
  if handle ∈ world.references then
    some { world with references := world.references.erase handle }
  else none

def unload (world : World) (index : Nat) : Option (World × Result Unit) :=
  match world.object index with
  | .loaded handle =>
    (world.dlclose handle).map fun closed =>
      ({ closed with objects := closed.objects.set index .empty }, .ok ())
  | _ => some (world, .error { error := .notInitialized })

/-- `Load`, with what `dlopen` returns. -/
def load (world : World) (index : Nat) (path : String) (opened : Option Handle) (errno : Int) :
    World × Result Unit :=
  match opened with
  | none =>
    (world, .error { error := .platform errno, message := s!"failed to load library '{path}'" })
  | some handle =>
    ({ references := handle :: world.references
       objects := world.objects.set index (.loaded handle)
       overwritten := match world.object index with
         | .loaded old => old :: world.overwritten
         | _ => world.overwritten }, .ok ())

/-- The move constructor; the new object is the last one. -/
def moveMake (world : World) (source : Nat) : World :=
  { world with objects := world.objects.set source .empty ++ [world.object source] }

def moveAssign (world : World) (target source : Nat) : Option World :=
  if world.object target ≠ world.object source then
    (world.unload target).map fun (unloaded, _) =>
      { unloaded with
        objects := (unloaded.objects.set source .empty).set target (world.object source) }
  else some world

def destroy (world : World) (index : Nat) : Option World :=
  (world.unload index).map fun (unloaded, _) =>
    { unloaded with objects := unloaded.objects.set index .destroyed }

end World

/-- The members that are called on libraries. -/
inductive Call
  | make
  | moveMake (source : Nat)
  | moveAssign (target source : Nat)
  | load (index : Nat) (path : String) (opened : Option Handle) (errno : Int)
  | unload (index : Nat)
  | destroy (index : Nat)

/-- The objects that a call names. -/
def Call.names : Call → List Nat
  | .make => []
  | .moveMake source => [source]
  | .moveAssign target source => [target, source]
  | .load index _ _ _ => [index]
  | .unload index => [index]
  | .destroy index => [index]

def World.perform (world : World) : Call → Option World
  | .make => some { world with objects := world.objects ++ [.empty] }
  | .moveMake source => some (world.moveMake source)
  | .moveAssign target source => world.moveAssign target source
  | .load index path opened errno => some (world.load index path opened errno).1
  | .unload index => (world.unload index).map (·.1)
  | .destroy index => world.destroy index

/-- The objects that the call names have not been destroyed. -/
def World.Lives (world : World) (call : Call) : Prop :=
  ∀ index ∈ call.names, world.object index ≠ .destroyed

instance (world : World) (call : Call) : Decidable (world.Lives call) :=
  inferInstanceAs (Decidable (∀ index ∈ call.names, world.object index ≠ .destroyed))

/-- A call on objects that live. -/
def step (world : World) (call : Call) : Option World :=
  if world.Lives call then world.perform call else none

/-! ## References -/

/-- A library is open once for each object that holds it and for each handle written over. -/
def Balanced (world : World) : Prop :=
  ∀ handle, world.references.count handle =
    world.objects.count (.loaded handle) + world.overwritten.count handle

variable {index : Nat}

theorem World.getElem?_of_lives {world : World} (lives : world.object index ≠ .destroyed) :
    world.objects[index]? = some (world.object index) := by
  rw [World.object, List.getD_eq_getElem?_getD] at lives ⊢
  cases found : world.objects[index]? with
  | none => exact absurd (congrArg (·.getD .destroyed) found) lives
  | some current => rfl

theorem count_set {objects : List Object} {current : Object}
    (held : objects[index]? = some current) (new : Object) (handle : Handle) :
    (objects.set index new).count (.loaded handle) + (if current = .loaded handle then 1 else 0) =
      objects.count (.loaded handle) + if new = .loaded handle then 1 else 0 := by
  obtain ⟨inside, found⟩ := List.getElem?_eq_some_iff.mp held
  rw [List.count_set inside, found]
  simp only [beq_iff_eq]
  by_cases same : current = .loaded handle
  · have counted : 0 < objects.count (.loaded handle) :=
      List.count_pos_iff.mpr (same ▸ List.mem_of_getElem? held)
    rw [if_pos same]
    omega
  · rw [if_neg same, Nat.sub_zero, Nat.add_zero]

namespace Balanced

variable {world : World}

theorem mem_references (balanced : Balanced world) {handle : Handle}
    (held : world.object index = .loaded handle) : handle ∈ world.references := by
  have found := World.getElem?_of_lives (by simp [held] : world.object index ≠ .destroyed)
  rw [held] at found
  have counted : 0 < world.objects.count (.loaded handle) :=
    List.count_pos_iff.mpr (List.mem_of_getElem? found)
  rw [← List.count_pos_iff, balanced handle]
  omega

theorem trade (balanced : Balanced world) {index : Nat} {current new : Object}
    (held : world.objects[index]? = some current) {references overwritten : List Handle}
    (account : ∀ handle, references.count handle + (if current = .loaded handle then 1 else 0) +
        world.overwritten.count handle =
      world.references.count handle + (if new = .loaded handle then 1 else 0) +
        overwritten.count handle) :
    Balanced { references, objects := world.objects.set index new, overwritten } := by
  intro handle
  have objects_eq := count_set held new handle
  have before := balanced handle
  have change := account handle
  dsimp only
  omega

variable (balanced : Balanced world)
include balanced

section

variable (lives : world.object index ≠ .destroyed)
include lives

theorem unload :
    ∃ unloaded result, world.unload index = some (unloaded, result) ∧ Balanced unloaded ∧
      unloaded.objects = world.objects.set index .empty := by
  have held := World.getElem?_of_lives lives
  cases current : world.object index with
  | destroyed => exact absurd current lives
  | empty =>
    refine ⟨world, _, by rw [World.unload, current], balanced, ?_⟩
    obtain ⟨inside, found⟩ := List.getElem?_eq_some_iff.mp held
    rw [← current, ← found, List.set_getElem_self]
  | loaded handle =>
    have opened := balanced.mem_references current
    rw [current] at held
    refine ⟨{ world with references := world.references.erase handle
                         objects := world.objects.set index .empty }, .ok (), ?_, ?_, rfl⟩
    · rw [World.unload, current]
      simp only [World.dlclose, if_pos opened, Option.map_some]
    · refine balanced.trade held fun other => ?_
      have counted := List.count_pos_iff.mpr opened
      simp only [List.count_erase, beq_iff_eq, Object.loaded.injEq, reduceCtorEq, if_false]
      by_cases same : handle = other
      · subst same
        rw [if_pos rfl]
        omega
      · rw [if_neg same, Nat.sub_zero]

theorem destroy : ∃ after, world.destroy index = some after ∧ Balanced after := by
  obtain ⟨unloaded, result, unload_eq, unloaded_balanced, objects_eq⟩ := balanced.unload lives
  obtain ⟨inside, -⟩ := List.getElem?_eq_some_iff.mp (World.getElem?_of_lives lives)
  refine ⟨_, by rw [World.destroy, unload_eq, Option.map_some], unloaded_balanced.trade
    (by rw [objects_eq, List.getElem?_set_self inside]) fun handle => ?_⟩
  simp

theorem load (path : String) (opened : Option Handle) (errno : Int) :
    Balanced (world.load index path opened errno).1 := by
  cases opened with
  | none => exact balanced
  | some handle =>
    refine balanced.trade (World.getElem?_of_lives lives) fun other => ?_
    cases world.object index with
    | loaded old =>
      simp only [List.count_cons, beq_iff_eq, Object.loaded.injEq]
      omega
    | empty | destroyed =>
      simp only [List.count_cons, beq_iff_eq, Object.loaded.injEq, reduceCtorEq, if_false]
      omega

end

theorem moveMake {source : Nat} (lives : world.object source ≠ .destroyed) :
    Balanced (world.moveMake source) := by
  intro handle
  have moved := count_set (World.getElem?_of_lives lives) .empty handle
  have before := balanced handle
  simp only [World.moveMake, List.count_append, List.count_singleton, beq_iff_eq, reduceCtorEq,
    if_false] at moved ⊢
  omega

theorem moveAssign {target source : Nat} (target_lives : world.object target ≠ .destroyed)
    (source_lives : world.object source ≠ .destroyed) :
    ∃ after, world.moveAssign target source = some after ∧ Balanced after := by
  rw [World.moveAssign]
  by_cases same : world.object target = world.object source
  · exact ⟨world, if_neg (not_not_intro same), balanced⟩
  · have apart : target ≠ source := fun equal => same (by rw [equal])
    obtain ⟨inside, -⟩ := List.getElem?_eq_some_iff.mp (World.getElem?_of_lives target_lives)
    obtain ⟨unloaded, result, unload_eq, unloaded_balanced, objects_eq⟩ :=
      balanced.unload target_lives
    refine ⟨_, by rw [if_pos same, unload_eq, Option.map_some], fun handle => ?_⟩
    have source_kept : unloaded.objects[source]? = some (world.object source) := by
      rw [objects_eq, List.getElem?_set_ne apart, World.getElem?_of_lives source_lives]
    have target_empty : (unloaded.objects.set source .empty)[target]? = some .empty := by
      rw [List.getElem?_set_ne apart.symm, objects_eq, List.getElem?_set_self inside]
    have given := count_set source_kept .empty handle
    have taken := count_set target_empty (world.object source) handle
    have before := unloaded_balanced handle
    simp only [reduceCtorEq, if_false] at given taken ⊢
    omega

theorem step {call : Call} (lives : world.Lives call) :
    ∃ after, step world call = some after ∧ Balanced after := by
  rw [Library.step, if_pos lives]
  cases call with
  | make =>
    refine ⟨_, rfl, fun handle => ?_⟩
    simpa using balanced handle
  | moveMake source => exact ⟨_, rfl, balanced.moveMake (lives source List.mem_cons_self)⟩
  | moveAssign target source =>
    exact balanced.moveAssign (lives target List.mem_cons_self)
      (lives source (List.mem_cons_of_mem _ List.mem_cons_self))
  | load index path opened errno =>
    exact ⟨_, rfl, balanced.load (lives index List.mem_cons_self) path opened errno⟩
  | unload index =>
    obtain ⟨after, result, unload_eq, after_balanced, -⟩ :=
      balanced.unload (lives index List.mem_cons_self)
    exact ⟨after, by rw [World.perform, unload_eq, Option.map_some], after_balanced⟩
  | destroy index => exact balanced.destroy (lives index List.mem_cons_self)

end Balanced

/-! ## Handles written over -/

section Overwritten

variable {world after : World}

theorem overwritten_unload {result : Result Unit}
    (unload_eq : world.unload index = some (after, result)) :
    after.overwritten = world.overwritten := by
  unfold World.unload at unload_eq
  split at unload_eq
  · obtain ⟨closed, close_eq, same⟩ := Option.map_eq_some_iff.mp unload_eq
    obtain ⟨-, closed_eq⟩ := Option.ite_none_right_eq_some.mp close_eq
    cases closed_eq
    cases same
    rfl
  · cases unload_eq
    rfl

/-- No call forgets a handle that was written over. -/
theorem overwritten_suffix_step {call : Call} (step_eq : step world call = some after) :
    world.overwritten <:+ after.overwritten := by
  obtain ⟨-, step_eq⟩ := Option.ite_none_right_eq_some.mp step_eq
  cases call with
  | make | moveMake source =>
    cases step_eq
    exact List.suffix_refl _
  | moveAssign target source =>
    simp only [World.perform, World.moveAssign] at step_eq
    split at step_eq
    · obtain ⟨⟨unloaded, result⟩, unload_eq, rfl⟩ := Option.map_eq_some_iff.mp step_eq
      exact overwritten_unload unload_eq ▸ List.suffix_refl _
    · cases step_eq
      exact List.suffix_refl _
  | load index path opened errno =>
    cases step_eq
    cases opened with
    | none => exact List.suffix_refl _
    | some handle =>
      simp only [World.load]
      split
      · exact List.suffix_cons _ _
      · exact List.suffix_refl _
  | unload index | destroy index =>
    obtain ⟨⟨unloaded, result⟩, unload_eq, rfl⟩ := Option.map_eq_some_iff.mp step_eq
    exact overwritten_unload unload_eq ▸ List.suffix_refl _

theorem overwritten_suffix_run {calls : List Call} (execution : run step world calls = some after) :
    world.overwritten <:+ after.overwritten := by
  refine @Reachable.invariant _ _ _ _ (fun reached => world.overwritten <:+ reached.overwritten)
    (List.suffix_refl _) ?_ _ ⟨calls, execution⟩
  intro before call next kept step_eq
  exact kept.trans (overwritten_suffix_step step_eq)

end Overwritten

/-- A library is open as often as objects hold it and `Load` has written over it, a loaded object
holds an open library, no call on objects that live closes a library that is not open, and a library
whose handle was written over stays open for good. -/
structure Safe (world : World) : Prop where
  balanced : Balanced world
  opened : ∀ index handle, world.object index = .loaded handle → handle ∈ world.references
  defined : ∀ call, world.Lives call → ∃ after, step world call = some after
  leaked : ∀ calls after, run step world calls = some after →
    world.overwritten <:+ after.overwritten ∧
      ∀ handle ∈ world.overwritten, handle ∈ after.references

theorem balanced_of_run {calls : List Call} {world : World}
    (execution : run step {} calls = some world) : Balanced world := by
  refine Reachable.invariant (fun _ => rfl) ?_ ⟨calls, execution⟩
  intro before call after balanced step_eq
  obtain ⟨lives, -⟩ := Option.ite_none_right_eq_some.mp step_eq
  obtain ⟨reached, reached_eq, reached_balanced⟩ := balanced.step lives
  obtain rfl := Option.some.inj (step_eq.symm.trans reached_eq)
  exact reached_balanced

theorem safe_of_run {calls : List Call} {world : World}
    (execution : run step {} calls = some world) : Safe world := by
  have balanced := balanced_of_run execution
  refine ⟨balanced, fun _ _ held => balanced.mem_references held, fun call lives => ?_, ?_⟩
  · obtain ⟨after, step_eq, -⟩ := balanced.step lives
    exact ⟨after, step_eq⟩
  · intro later after later_eq
    have kept := overwritten_suffix_run later_eq
    have whole : run step {} (calls ++ later) = some after := by
      rw [run_append, execution, Option.bind_some, later_eq]
    refine ⟨kept, fun handle member => ?_⟩
    have counted := List.count_pos_iff.mpr (kept.subset member)
    rw [← List.count_pos_iff, balanced_of_run whole handle]
    omega

/-- An object is moved, the new one is loaded again, and both are destroyed. -/
def loadedTwice : List Call :=
  [.make, .load 0 "a.so" (some 7) 0, .moveMake 0, .load 1 "b.so" (some 8) 0, .destroy 1, .destroy 0]

/-- The library that was loaded first stays open. -/
theorem safe_loadedTwice :
    run step {} loadedTwice = some ⟨[7], [.destroyed, .destroyed], [7]⟩ ∧
      Safe ⟨[7], [.destroyed, .destroyed], [7]⟩ :=
  ⟨rfl, @safe_of_run loadedTwice _ rfl⟩

end Fusion.Library
