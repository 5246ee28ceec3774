import Fusion.Path.Termination

/-!
# Normalising twice

Whether a path is below the working directory or the home directory is decided from its first
characters, before `..` takes names away.  A path such as `a/../..` has a normal form that begins
with `..`, which means the working directory when it is normalised again.
-/

namespace Fusion.PathUtil

open Fuel (Yields)

/-- An absolute path that is its own normal form. -/
def AbsoluteNormal (path : List Char) : Prop :=
  isAbsolute path = true ∧ reference path = path

/-- Parent steps or a tilde come to the front of the normal form only. -/
def Exposed (path : List Char) : Prop := Direct path ∧ ¬ Direct (reference path)

variable {path : List Char}

theorem direct_of_absolute (absolute : isAbsolute path = true) : Direct path :=
  .inr (start_of_absolute absolute)

theorem absoluteNormal_reference (absolute : isAbsolute path = true) :
    AbsoluteNormal (reference path) :=
  ⟨isAbsolute_reference absolute, reference_reference absolute⟩

theorem isAbsolute_joined {existing : List Char} (absolute : isAbsolute existing = true)
    (segment : List Char) : isAbsolute (joined existing segment) = true := by
  have existing_ne : existing ≠ [] := by
    rintro rfl
    cases absolute
  have of_append (rest : List Char) : isAbsolute (existing ++ rest) = true := by
    rw [isAbsolute, List.head?_append_of_ne_nil _ existing_ne]
    exact absolute
  rw [joined]
  split
  · rename_i restarts
    exact restarts.resolve_right existing_ne
  split
  · split
    · exact of_append _
    · exact of_append _
  · exact absolute

theorem start_doubleDot (tail : List Char) : start ('.' :: '.' :: tail) = .fromCwd := by
  obtain ⟨count, path_eq⟩ := exists_purged ('.' :: '.' :: tail)
  rw [start]
  generalize purgeTrailing ('.' :: '.' :: tail) = purged at path_eq
  have unpurged : '.' ∉ List.replicate count separatorUnix := by
    intro member
    exact absurd (List.eq_of_mem_replicate member) (by decide)
  cases purged with
  | nil =>
    rw [List.nil_append] at path_eq
    exact absurd (path_eq ▸ List.mem_cons_self) unpurged
  | cons first rest =>
    obtain ⟨rfl, rest_eq⟩ := List.cons.inj path_eq
    cases rest with
    | nil =>
      rw [List.append_eq, List.nil_append] at rest_eq
      exact absurd (rest_eq ▸ List.mem_cons_self) unpurged
    | cons second rest =>
      obtain ⟨rfl, -⟩ := List.cons.inj rest_eq
      rfl

/-- A normal form without a special start is a fixed point. -/
theorem reference_reference_of_direct (direct : Direct (reference path)) :
    reference (reference path) = reference path := by
  obtain ⟨stack, stack_eq⟩ := exists_stack path
  have reduced_eq : reduced path =
      List.replicate stack.ups pathDoubleDot ++ stack.names.reverse := by
    rw [← List.reverse_reverse (reduced path), ← stack_eq, Stack.segments, List.reverse_append,
      List.reverse_replicate]
  rw [reference_eq_spell path] at direct ⊢
  cases ups_eq : stack.ups with
  | zero =>
    rw [ups_eq, List.replicate_zero, List.nil_append] at reduced_eq
    refine reference_spell fun name member => ?_
    rw [reduced_eq, List.mem_reverse] at member
    exact stack.plain name member
  | succ ups =>
    -- the normal form of a relative path that leaves its start begins with two dots
    have relative : isAbsolute path = false := by
      by_contra absolute
      have none_up := stack.ups_eq_zero (Bool.of_not_eq_false absolute)
      omega
    rw [relative, reduced_eq, ups_eq, List.replicate_succ, List.cons_append] at direct
    obtain ⟨tail, text_eq⟩ : ∃ tail, spell false (pathDoubleDot ::
        (List.replicate ups pathDoubleDot ++ stack.names.reverse)) = '.' :: '.' :: tail := by
      cases List.replicate ups pathDoubleDot ++ stack.names.reverse with
      | nil => exact ⟨[], rfl⟩
      | cons next rest => exact ⟨_, rfl⟩
    rw [text_eq, Direct, start_doubleDot] at direct
    simp at direct

/-- The working directory and the home directory are absolute and in normal form. -/
structure Settled (directories : Directories) : Prop where
  cwd : AbsoluteNormal
    (if directories.fusionCwd ≠ [] then directories.fusionCwd else directories.cwdSource)
  home : AbsoluteNormal directories.homeSource

namespace Settled

variable {directories : Directories}

theorem plainCwd (settled : Settled directories) :
    directories.PlainCwd ∧ AbsoluteNormal directories.plainCwd := by
  have cwd := settled.cwd
  rw [Directories.PlainCwd, Directories.plainCwd]
  split at cwd
  · rename_i set
    rw [if_pos set]
    exact ⟨.inl set, cwd⟩
  · rename_i unset
    rw [if_neg unset]
    exact ⟨.inr (direct_of_absolute cwd.1), absoluteNormal_reference cwd.1⟩

theorem yields_directory (settled : Settled directories) (directory : Directory) :
    ∃ base, Yields (directories.call directory) base ∧ AbsoluteNormal base := by
  cases directory with
  | cwd => exact ⟨_, yields_plain settled.plainCwd.1, settled.plainCwd.2⟩
  | home =>
    have direct : directories.Plain .home := direct_of_absolute settled.home.1
    exact ⟨_, yields_plain direct, absoluteNormal_reference settled.home.1⟩

theorem yields_below {base : List Char} (base_absolute : isAbsolute base = true)
    (path : List Char) :
    Yields (normalize directories · (joined base (purgeTrailing path)))
        (reference (joined base (purgeTrailing path))) ∧
      AbsoluteNormal (reference (joined base (purgeTrailing path))) := by
  have absolute := isAbsolute_joined base_absolute (purgeTrailing path)
  exact ⟨yields_normalize directories (start_of_absolute absolute),
    absoluteNormal_reference absolute⟩

theorem exists_absoluteNormal (settled : Settled directories) (special : ¬ Direct path) :
    ∃ result, Yields (normalize directories · path) result ∧ AbsoluteNormal result := by
  have joining : ∀ directory : Directory, start path = directory.alone ∨
      start path = directory.above →
        ∃ result, Yields (normalize directories · path) result ∧ AbsoluteNormal result := by
    intro directory start_eq
    obtain ⟨base, base_yields, base_normal⟩ := settled.yields_directory directory
    rcases start_eq with alone | above
    · exact ⟨base, yields_alone alone base_yields, base_normal⟩
    · obtain ⟨yields, normal⟩ := yields_below base_normal.1 path
      exact ⟨_, yields_above above base_yields yields, normal⟩
  rcases Directory.start_cases .cwd (start path) with empty | segments | cwd | home
  · exact absurd (.inl empty) special
  · exact absurd (.inr segments) special
  · exact joining .cwd cwd
  · exact joining .home home

end Settled

/-- Normalising twice is normalising once, except for paths whose normal form begins with a parent
step or a tilde that the path itself does not begin with. -/
theorem normalize_normalize_iff {directories : Directories} (settled : Settled directories)
    (path : List Char) :
    ∃ result again, Yields (normalize directories · path) result ∧
      Yields (normalize directories · result) again ∧ (again = result ↔ ¬ Exposed path) := by
  by_cases direct : Direct path
  · have first := yields_direct directories direct
    by_cases kept : Direct (reference path)
    · refine ⟨_, _, first, yields_direct directories kept, ?_⟩
      exact iff_of_true (reference_reference_of_direct kept) fun exposed => exposed.2 kept
    · obtain ⟨again, second, normal⟩ := settled.exists_absoluteNormal kept
      refine ⟨_, again, first, second, iff_of_false ?_ fun hidden => hidden ⟨direct, kept⟩⟩
      rintro rfl
      exact kept (direct_of_absolute normal.1)
  · obtain ⟨result, first, normal⟩ := settled.exists_absoluteNormal direct
    have second := yields_direct directories (direct_of_absolute normal.1)
    exact ⟨result, _, first, second, iff_of_true normal.2 fun exposed => direct exposed.1⟩

/-- A process in the directory `/w`. -/
def inW : Directories := ⟨"/w".toList, none, "/h".toList, [], none, none⟩

theorem settled_inW : Settled inW :=
  ⟨⟨by decide, by decide⟩, ⟨by decide, by decide⟩⟩

/-- A path below the working directory is absolute after the first time. -/
theorem normalize_normalize_dot :
    ∃ result again, Yields (normalize inW · "./x/..".toList) result ∧
      Yields (normalize inW · result) again ∧
      (again = result ↔ ¬ Exposed "./x/..".toList) :=
  normalize_normalize_iff settled_inW _

/-- The normal form of `a/../..` is the parent of the working directory when read again. -/
theorem normalize_normalize_ne :
    Settled inW ∧ Yields (normalize inW · "a/../..".toList) "..".toList ∧
      Yields (normalize inW · "..".toList) "/".toList := by
  have purged_eq : purgeTrailing "..".toList = "..".toList := purgeTrailing_eq_self (by decide)
  have reference_eq : reference (joined "/w".toList "..".toList) = "/".toList := by decide
  refine ⟨settled_inW, ?_, ?_⟩
  · exact yields_normalize inW (start_of_head rfl (by decide) (by decide))
  · refine @yields_above _ .cwd _ _ _ (start_doubleDot [])
      (yields_plain settled_inW.plainCwd.1) ?_
    have below := (@Settled.yields_below inW _ settled_inW.plainCwd.2.1 "..".toList).1
    rw [purged_eq] at below ⊢
    exact reference_eq ▸ below

end Fusion.PathUtil
