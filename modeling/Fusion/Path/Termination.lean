import Fusion.Path.NormalForm

/-!
# Where the path functions end

`Normalize` asks for the working directory or the home directory where a path begins with a dot or
a tilde, joins the path to it and begins again with the result.  Each directory is read from the
environment and may itself begin so.  Whether the calls come to an end is decided by the starts of
these texts.
-/

namespace Fusion.PathUtil

open Directories

open Fuel (Yields)

/-! ## The start of a joined path -/

/-- The start of a path below a directory with the given start. -/
def Start.below : Start → Start
  | .cwd => .fromCwd
  | .home => .fromHome
  | other => other

variable {path : List Char}

theorem purgeTrailing_eq_self (last_ne : path.getLast? ≠ some separatorUnix) :
    purgeTrailing path = path := by
  rw [purgeTrailing, if_neg fun trailing => last_ne trailing.2]

theorem exists_purged (path : List Char) :
    ∃ count, path = purgeTrailing path ++ List.replicate count separatorUnix := by
  fun_induction purgeTrailing path with
  | case1 path trailing ih =>
    obtain ⟨count, front_eq⟩ := ih
    obtain ⟨front, rfl⟩ : ∃ front, path = front ++ [separatorUnix] :=
      List.getLast?_eq_some_iff.mp trailing.2
    rw [List.dropLast_concat] at front_eq ⊢
    refine ⟨count + 1, ?_⟩
    rw [List.replicate_succ', ← List.append_assoc, ← front_eq]
  | case2 path _ => exact ⟨0, (List.append_nil path).symm⟩

variable {existing segment : List Char}

/-- A path that does not start over is appended to the directory it is joined to. -/
theorem joined_eq_append (existing_ne : existing ≠ []) (segment_ne : segment ≠ [])
    (relative : isAbsolute segment = false) :
    ∃ rest, joined existing segment = purgeTrailing existing ++ rest ∧ rest ≠ [] ∧
      rest.getLast? = segment.getLast? ∧
      (purgeTrailing existing = ['.'] → rest.head? = some separatorUnix) := by
  obtain ⟨count, existing_eq⟩ := exists_purged existing
  obtain ⟨between, joined_eq, between_eq⟩ : ∃ between,
      joined existing segment = existing ++ (between ++ segment) ∧
        (existing = ['.'] → between = [separatorUnix]) := by
    rw [joined, if_neg (by simp [relative, existing_ne]), if_pos segment_ne]
    split
    · exact ⟨[separatorUnix], rfl, fun _ => rfl⟩
    · rename_i separated
      refine ⟨[], rfl, ?_⟩
      rintro rfl
      exact absurd (by decide) separated
  refine ⟨List.replicate count separatorUnix ++ (between ++ segment), ?_, ?_, ?_, ?_⟩
  · rw [joined_eq, ← List.append_assoc (purgeTrailing existing), ← existing_eq]
  · simp [segment_ne]
  · rw [← List.append_assoc, List.getLast?_append_of_ne_nil _ segment_ne]
  · intro dot
    rw [dot] at existing_eq
    cases count with
    | zero =>
      rw [between_eq existing_eq]
      rfl
    | succ count => rfl

theorem start_joined (existing_ne : existing ≠ []) (segment_ne : segment ≠ [])
    (relative : isAbsolute segment = false) (last_ne : segment.getLast? ≠ some separatorUnix) :
    start (joined existing segment) = (start existing).below := by
  obtain ⟨rest, joined_eq, rest_ne, rest_last, rest_head⟩ :=
    joined_eq_append existing_ne segment_ne relative
  have purged_eq : purgeTrailing (joined existing segment) = joined existing segment := by
    refine purgeTrailing_eq_self ?_
    rw [joined_eq, List.getLast?_append_of_ne_nil _ rest_ne, rest_last]
    exact last_ne
  rw [start, purged_eq, start, joined_eq]
  have purged_ne := purgeTrailing_ne_nil existing_ne
  generalize purgeTrailing existing = purged at rest_head purged_ne
  rw [Start.of.eq_def purged]
  split
  · exact absurd rfl purged_ne
  · obtain ⟨tail, rfl⟩ := List.head?_eq_some_iff.mp (rest_head rfl)
    rfl
  · rename_i second tail
    rw [List.cons_append, List.cons_append, Start.of]
    split
    · rfl
    · rfl
  · cases rest with
    | nil => exact absurd rfl rest_ne
    | cons first rest => rfl
  · rename_i tail tail_ne
    cases tail with
    | nil => exact absurd rfl tail_ne
    | cons second tail => rfl
  · rename_i ne_dot not_dotted ne_tilde not_tilded
    cases purged with
    | nil => exact absurd rfl purged_ne
    | cons first tail =>
      refine Start.of_head rfl ?_ ?_
      · rintro rfl
        cases tail with
        | nil => exact ne_dot rfl
        | cons second tail => exact not_dotted second tail rfl
      · rintro rfl
        exact not_tilded tail rfl

theorem start_eq_empty_iff : start path = .empty ↔ path = [] := by
  constructor
  · intro start_eq
    by_contra nonempty
    have purged_ne := purgeTrailing_ne_nil nonempty
    rw [start, Start.of.eq_def] at start_eq
    split at start_eq
    · rename_i purged_eq
      exact purged_ne purged_eq
    · cases start_eq
    · split at start_eq
      · cases start_eq
      · cases start_eq
    · cases start_eq
    · cases start_eq
    · cases start_eq
  · rintro rfl
    rw [start, purgeTrailing_eq_self (by decide)]
    rfl

theorem purged_long_or_closed (path : List Char) :
    (purgeTrailing path).length ≤ 1 ∨ (purgeTrailing path).getLast? ≠ some separatorUnix := by
  fun_induction purgeTrailing path with
  | case1 path _ ih => exact ih
  | case2 path closed =>
    rw [not_and_or, Nat.not_lt] at closed
    exact closed

/-- The directories that a path can stand for or be joined to. -/
inductive Directory
  | cwd
  | home

namespace Directory

def other : Directory → Directory
  | .cwd => .home
  | .home => .cwd

/-- The start of a path that stands for the directory. -/
def alone : Directory → Start
  | .cwd => .cwd
  | .home => .home

/-- The start of a path that is joined to the directory. -/
def above : Directory → Start
  | .cwd => .fromCwd
  | .home => .fromHome

variable (directory : Directory)

@[simp] theorem other_other : directory.other.other = directory := by
  cases directory <;> rfl

@[simp] theorem below_alone : directory.alone.below = directory.above := by
  cases directory <;> rfl

@[simp] theorem below_above : directory.above.below = directory.above := by
  cases directory <;> rfl

theorem start_cases (start : Start) :
    start = .empty ∨ start = .segments ∨ (start = directory.alone ∨ start = directory.above) ∨
      start = directory.other.alone ∨ start = directory.other.above := by
  cases directory <;> cases start <;> simp [other, alone, above]

theorem distinct :
    directory.alone ≠ .empty ∧ directory.above ≠ .empty ∧ directory.alone ≠ .segments ∧
      directory.above ≠ .segments ∧ directory.above ≠ directory.other.alone ∧
      directory.above ≠ directory.other.above ∧ directory.alone ≠ directory.above := by
  cases directory <;> simp [other, alone, above]

end Directory

theorem purged_of_above {directory : Directory} (start_eq : start path = directory.above) :
    ∃ first second tail, purgeTrailing path = first :: second :: tail ∧ first ≠ separatorUnix := by
  have special : start path = .fromCwd ∨ start path = .fromHome := by
    cases directory
    · exact .inl start_eq
    · exact .inr start_eq
  rw [start] at special
  generalize purgeTrailing path = purged at special
  rw [Start.of.eq_def] at special
  split at special
  · simp at special
  · simp at special
  · exact ⟨'.', _, _, rfl, by decide⟩
  · simp at special
  · rename_i tail tail_ne
    cases tail with
    | nil => exact absurd rfl tail_ne
    | cons second tail => exact ⟨'~', second, tail, rfl, by decide⟩
  · simp at special

theorem start_joined_purged {path : List Char} {directory : Directory}
    (start_eq : start path = directory.above) (base : List Char) :
    start (joined base (purgeTrailing path)) =
      if start base = .empty then directory.above else (start base).below := by
  obtain ⟨first, second, tail, purged_eq, first_ne⟩ := purged_of_above start_eq
  have last_ne : (purgeTrailing path).getLast? ≠ some separatorUnix := by
    refine (purged_long_or_closed path).resolve_left ?_
    rw [purged_eq]
    simp
  have purged_ne : purgeTrailing path ≠ [] := by
    rw [purged_eq]
    exact List.cons_ne_nil _ _
  have relative : isAbsolute (purgeTrailing path) = false := by
    rw [purged_eq]
    exact beq_false_of_ne fun same => first_ne (Option.some.inj same)
  by_cases empty : base = []
  · subst empty
    have joined_eq : joined [] (purgeTrailing path) = purgeTrailing path := if_pos (.inr rfl)
    rw [joined_eq, if_pos (start_eq_empty_iff.mpr rfl), ← start_eq, start, start,
      purgeTrailing_eq_self last_ne]
  · rw [if_neg fun start_eq => empty (start_eq_empty_iff.mp start_eq)]
    exact start_joined empty purged_ne relative last_ne

/-! ## What the environment gives -/

/-- A path that is normalised without asking for a directory. -/
def Direct (path : List Char) : Prop := start path = .empty ∨ start path = .segments

namespace Directories

/-- The text of the working directory as the operating system has it. -/
def cwdSource (directories : Directories) : List Char := directories.cwd.getD []

/-- The text that is normalised to the home directory. -/
def homeSource (directories : Directories) : List Char :=
  if directories.fusionHome ≠ [] then directories.fusionHome
  else if directories.home ≠ [] then directories.home
  else (directories.userHome.or directories.effectiveHome).getD []

/-- `FUSION_CWD` is set, or the text of the working directory is normalised without asking. -/
def PlainCwd (directories : Directories) : Prop :=
  directories.fusionCwd ≠ [] ∨ Direct directories.cwdSource

/-- The working directory where it does not depend on the home directory. -/
def plainCwd (directories : Directories) : List Char :=
  if directories.fusionCwd ≠ [] then directories.fusionCwd else reference directories.cwdSource

/-- The home directory is needed only where it does not need the working directory. -/
def CwdReturns (directories : Directories) : Prop :=
  directories.PlainCwd ∨
    start directories.cwdSource = .home ∧ Direct directories.homeSource ∨
    start directories.cwdSource = .fromHome ∧ Direct directories.homeSource ∧
      start (reference directories.homeSource) = .segments

def cwdText (directories : Directories) : List Char :=
  if directories.fusionCwd ≠ [] then directories.fusionCwd
  else
    match start directories.cwdSource with
    | .home => reference directories.homeSource
    | .fromHome =>
      reference (joined (reference directories.homeSource) (purgeTrailing directories.cwdSource))
    | _ => reference directories.cwdSource

/-- The working directory is needed only where it does not need the home directory. -/
def HomeReturns (directories : Directories) : Prop :=
  Direct directories.homeSource ∨
    start directories.homeSource = .cwd ∧ directories.PlainCwd ∨
    start directories.homeSource = .fromCwd ∧ directories.PlainCwd ∧
      start directories.plainCwd = .segments

def homeText (directories : Directories) : List Char :=
  match start directories.homeSource with
  | .cwd => directories.plainCwd
  | .fromCwd => reference (joined directories.plainCwd (purgeTrailing directories.homeSource))
  | _ => reference directories.homeSource

/-- The directory that a path is joined to is there, and neither it nor the other directory, where
it is needed as well, leads back. -/
def Returns (directories : Directories) (path : List Char) : Prop :=
  match start path with
  | .empty => True
  | .segments => True
  | .cwd => directories.CwdReturns
  | .home => directories.HomeReturns
  | .fromCwd =>
    directories.CwdReturns ∧
      (start directories.cwdText = .segments ∨
        (start directories.cwdText = .home ∨ start directories.cwdText = .fromHome) ∧
          directories.HomeReturns ∧ start directories.homeText = .segments)
  | .fromHome =>
    directories.HomeReturns ∧
      (start directories.homeText = .segments ∨
        (start directories.homeText = .cwd ∨ start directories.homeText = .fromCwd) ∧
          directories.CwdReturns ∧ start directories.cwdText = .segments)

/-! ### The same for either directory -/

def call (directories : Directories) : Directory → Nat → Option (List Char)
  | .cwd => fun steps => getCwdPath directories steps
  | .home => fun steps => getHomePath directories steps

/-- The text that is normalised to the directory. -/
def source (directories : Directories) : Directory → List Char
  | .cwd => directories.cwdSource
  | .home => directories.homeSource

/-- The directory is taken as it is from the environment. -/
def Given (directories : Directories) : Directory → Prop
  | .cwd => directories.fusionCwd ≠ []
  | .home => False

/-- The directory does not depend on the other one. -/
def Plain (directories : Directories) : Directory → Prop
  | .cwd => directories.PlainCwd
  | .home => Direct directories.homeSource

/-- The directory where it does not depend on the other one. -/
def plain (directories : Directories) : Directory → List Char
  | .cwd => directories.plainCwd
  | .home => reference directories.homeSource

def Gives (directories : Directories) : Directory → Prop
  | .cwd => directories.CwdReturns
  | .home => directories.HomeReturns

def text (directories : Directories) : Directory → List Char
  | .cwd => directories.cwdText
  | .home => directories.homeText

section Either

variable {directories : Directories} {directory : Directory} {path : List Char}

theorem plain_iff :
    directories.Plain directory ↔
      directories.Given directory ∨ Direct (directories.source directory) := by
  cases directory with
  | cwd => exact Iff.rfl
  | home => exact (or_iff_right id).symm

theorem gives_iff :
    directories.Gives directory ↔
      directories.Plain directory ∨
        start (directories.source directory) = directory.other.alone ∧
          directories.Plain directory.other ∨
        start (directories.source directory) = directory.other.above ∧
          directories.Plain directory.other ∧
            start (directories.plain directory.other) = .segments := by
  cases directory <;> exact Iff.rfl

theorem returns_alone (start_eq : start path = directory.alone) :
    directories.Returns path ↔ directories.Gives directory := by
  rw [Returns, start_eq]
  cases directory <;> exact Iff.rfl

theorem returns_above (start_eq : start path = directory.above) :
    directories.Returns path ↔
      directories.Gives directory ∧
        (start (directories.text directory) = .segments ∨
          (start (directories.text directory) = directory.other.alone ∨
              start (directories.text directory) = directory.other.above) ∧
            directories.Gives directory.other ∧
              start (directories.text directory.other) = .segments) := by
  rw [Returns, start_eq]
  cases directory <;> exact Iff.rfl

theorem call_succ (unset : ¬directories.Given directory) (steps : Nat) :
    directories.call directory (steps + 1) =
        normalize directories steps (directories.source directory) ∨
      directories.source directory = [] ∧ directories.call directory (steps + 1) = some [] := by
  cases directory with
  | cwd =>
    change ¬directories.fusionCwd ≠ [] at unset
    simp only [call, source, getCwdPath, if_neg unset, cwdSource]
    cases directories.cwd with
    | none => exact .inr ⟨rfl, rfl⟩
    | some source => exact .inl rfl
  | home =>
    simp only [call, source, getHomePath, homeSource]
    split
    · exact .inl rfl
    split
    · exact .inl rfl
    cases directories.userHome with
    | some source => exact .inl rfl
    | none =>
      cases directories.effectiveHome with
      | some source => exact .inl rfl
      | none => exact .inr ⟨rfl, rfl⟩

theorem call_of_given (given : directories.Given directory) (steps : Nat) :
    directories.call directory (steps + 1) = some (directories.plain directory) := by
  cases directory with
  | cwd =>
    change directories.fusionCwd ≠ [] at given
    simp only [call, getCwdPath, if_pos given, plain, plainCwd]
  | home => exact given.elim

theorem plain_of_unset (unset : ¬directories.Given directory) :
    directories.plain directory = reference (directories.source directory) := by
  cases directory with
  | cwd => exact if_neg unset
  | home => rfl

theorem text_of_plain (plain : directories.Plain directory) :
    directories.text directory = directories.plain directory := by
  have direct := plain_iff.mp plain
  cases directory with
  | cwd =>
    rw [text, Directories.plain, cwdText, plainCwd]
    split
    · rfl
    · rename_i unset
      rcases direct.resolve_left unset with empty | segments
      · rw [show start directories.cwdSource = .empty from empty]
      · rw [show start directories.cwdSource = .segments from segments]
  | home =>
    rw [text, homeText]
    rcases direct.resolve_left id with empty | segments
    · rw [show start directories.homeSource = .empty from empty]
      rfl
    · rw [show start directories.homeSource = .segments from segments]
      rfl

theorem text_of_alone (unset : ¬directories.Given directory)
    (start_eq : start (directories.source directory) = directory.other.alone) :
    directories.text directory = directories.plain directory.other := by
  cases directory with
  | cwd =>
    change ¬directories.fusionCwd ≠ [] at unset
    change start directories.cwdSource = .home at start_eq
    rw [text, cwdText, if_neg unset, start_eq]
    rfl
  | home =>
    change start directories.homeSource = .cwd at start_eq
    rw [text, homeText, start_eq]
    rfl

theorem text_of_above (unset : ¬directories.Given directory)
    (start_eq : start (directories.source directory) = directory.other.above) :
    directories.text directory = reference (joined (directories.plain directory.other)
      (purgeTrailing (directories.source directory))) := by
  cases directory with
  | cwd =>
    change ¬directories.fusionCwd ≠ [] at unset
    change start directories.cwdSource = .fromHome at start_eq
    rw [text, cwdText, if_neg unset, start_eq]
    rfl
  | home =>
    change start directories.homeSource = .fromCwd at start_eq
    rw [text, homeText, start_eq]
    rfl

end Either

end Directories

/-! ## Enough steps -/

theorem yields_direct (directories : Directories) (direct : Direct path) :
    Yields (normalize directories · path) (reference path) := by
  cases direct with
  | inl empty =>
    obtain rfl := start_eq_empty_iff.mp empty
    exact Yields.of_succ (fun _ => rfl) ⟨0, fun _ _ => rfl⟩
  | inr segments => exact yields_normalize directories segments

section Steps

variable {directories : Directories} {directory : Directory} {path base result : List Char}
  {steps : Nat}

theorem normalize_alone (start_eq : start path = directory.alone) (steps : Nat) :
    normalize directories (steps + 1) path = directories.call directory steps := by
  rw [normalize_succ, start_eq]
  cases directory <;> rfl

theorem normalize_above (start_eq : start path = directory.above) (steps : Nat) :
    normalize directories (steps + 1) path = (directories.call directory steps).bind fun base =>
      join directories steps base (purgeTrailing path) := by
  rw [normalize_succ, start_eq]
  cases directory <;> rfl

theorem yields_alone (start_eq : start path = directory.alone)
    (yields : Yields (directories.call directory) result) :
    Yields (normalize directories · path) result :=
  yields.of_succ (normalize_alone start_eq)

theorem yields_above (start_eq : start path = directory.above)
    (first : Yields (directories.call directory) base)
    (rest : Yields (normalize directories · (joined base (purgeTrailing path))) result) :
    Yields (normalize directories · path) result := by
  have joining : Yields (join directories · base (purgeTrailing path)) result :=
    rest.of_succ fun _ => rfl
  have both := @Yields.bind _ _ _ (fun base steps => join directories steps base
    (purgeTrailing path)) _ _ first joining
  exact both.of_succ (normalize_above start_eq)

theorem yields_of_source (unset : ¬directories.Given directory)
    (yields : Yields (normalize directories · (directories.source directory)) result) :
    Yields (directories.call directory) result := by
  obtain ⟨bound, result_eq⟩ := yields
  refine ⟨bound + 1, fun steps enough => ?_⟩
  obtain ⟨fewer, rfl⟩ : ∃ fewer, steps = fewer + 1 := ⟨steps - 1, by omega⟩
  cases call_succ unset fewer with
  | inl normal => exact normal.trans (result_eq fewer (by omega))
  | inr missing =>
    have empty_eq := result_eq (bound + 1) (Nat.le_succ bound)
    rw [missing.1] at empty_eq
    exact missing.2.trans empty_eq

theorem yields_plain (plain : directories.Plain directory) :
    Yields (directories.call directory) (directories.plain directory) := by
  by_cases given : directories.Given directory
  · refine ⟨1, fun steps enough => ?_⟩
    obtain ⟨fewer, rfl⟩ : ∃ fewer, steps = fewer + 1 := ⟨steps - 1, by omega⟩
    exact call_of_given given fewer
  · rw [plain_of_unset given]
    exact yields_of_source given
      (yields_direct directories ((Directories.plain_iff.mp plain).resolve_left given))

theorem yields_joined (start_eq : start path = directory.above) (base_eq : start base = .segments) :
    Yields (normalize directories · (joined base (purgeTrailing path)))
      (reference (joined base (purgeTrailing path))) := by
  refine yields_normalize directories ?_
  rw [start_joined_purged start_eq base, base_eq]
  rfl

theorem yields_text (gives : directories.Gives directory) :
    Yields (directories.call directory) (directories.text directory) := by
  by_cases plain : directories.Plain directory
  · rw [text_of_plain plain]
    exact yields_plain plain
  have unset : ¬directories.Given directory := fun given =>
    plain (Directories.plain_iff.mpr (.inl given))
  refine yields_of_source unset ?_
  rcases (gives_iff.mp gives).resolve_left plain with
    ⟨start_eq, other_plain⟩ | ⟨start_eq, other_plain, base_eq⟩
  · rw [text_of_alone unset start_eq]
    exact yields_alone start_eq (yields_plain other_plain)
  · rw [text_of_above unset start_eq]
    exact yields_above start_eq (yields_plain other_plain) (yields_joined start_eq base_eq)

/-- Where the directories allow it, `Normalize` has a result. -/
theorem exists_yields (returns : directories.Returns path) :
    ∃ result, Yields (normalize directories · path) result := by
  have special : ∀ directory : Directory, start path = directory.alone ∨
      start path = directory.above → ∃ result, Yields (normalize directories · path) result := by
    rintro directory (alone | above)
    · exact ⟨_, yields_alone alone (yields_text ((returns_alone alone).mp returns))⟩
    · obtain ⟨gives, anchored | ⟨leads, other_gives, anchored⟩⟩ :=
        (returns_above above).mp returns
      · exact ⟨_, yields_above above (yields_text gives) (yields_joined above anchored)⟩
      · -- the directory begins with the sign of the other one, so the path is joined to that too
        have below : start (joined (directories.text directory) (purgeTrailing path)) =
            directory.other.above := by
          have distinct := directory.other.distinct
          rw [start_joined_purged above]
          rcases leads with other | other
          · rw [other, if_neg distinct.1, Directory.below_alone]
          · rw [other, if_neg distinct.2.1, Directory.below_above]
        exact ⟨_, yields_above above (yields_text gives)
          (yields_above below (yields_text other_gives) (yields_joined below anchored))⟩
  rcases Directory.start_cases .cwd (start path) with empty | segments | cwd | home
  · exact ⟨_, yields_direct directories (.inl empty)⟩
  · exact ⟨_, yields_direct directories (.inr segments)⟩
  · exact special .cwd cwd
  · exact special .home home

end Steps

/-! ## What a result tells -/

variable {steps : Nat} {cursor : Cursor}

theorem Cursor.loop_succ (loop_eq : cursor.loop steps = some path) :
    cursor.loop (steps + 1) = some path := by
  induction steps generalizing cursor with
  | zero => cases loop_eq
  | succ steps ih =>
    rw [Cursor.loop] at loop_eq ⊢
    split at loop_eq
    · exact loop_eq
    · exact ih loop_eq

theorem Cursor.loop_add (loop_eq : cursor.loop steps = some path) (more : Nat) :
    cursor.loop (steps + more) = some path := by
  induction more with
  | zero => exact loop_eq
  | succ more ih => exact Cursor.loop_succ ih

theorem eq_reference_of_normalizeSegments {result : List Char}
    (result_eq : normalizeSegments steps path = some result) : result = reference path := by
  obtain ⟨final, loop_eq, rfl⟩ := Option.map_eq_some_iff.mp result_eq
  have longer : normalizeSegments (steps + (path.length + 1)) path = some (trim final) :=
    Option.map_eq_some_iff.mpr ⟨final, Cursor.loop_add loop_eq _, rfl⟩
  exact Option.some.inj (longer.symm.trans (normalizeSegments_eq (by omega)))

/-- What a result of one of the functions within a number of steps says about the environment. -/
structure Sound (directories : Directories) (steps : Nat) : Prop where
  directory : ∀ directory result, directories.call directory steps = some result →
    directories.Gives directory ∧ result = directories.text directory
  normal : ∀ path result, normalize directories steps path = some result →
    directories.Returns path ∧ (Direct path → result = reference path)

section Results

variable {directories : Directories} {directory : Directory} {steps : Nat}
  {path result : List Char}

theorem not_direct (special : start path = directory.alone ∨ start path = directory.above) :
    ¬Direct path := by
  have distinct := directory.distinct
  rintro (empty | segments)
  · rw [empty] at special
    exact special.elim (distinct.1 ·.symm) (distinct.2.1 ·.symm)
  · rw [segments] at special
    exact special.elim (distinct.2.2.1 ·.symm) (distinct.2.2.2.1 ·.symm)

/-- A directory whose text begins with the sign of the other one needs that one, which does not need
it in turn. -/
theorem plain_other (unset : ¬directories.Given directory)
    (start_eq : start (directories.source directory) = directory.other.alone ∨
      start (directories.source directory) = directory.other.above)
    (gives : directories.Gives directory.other) : directories.Plain directory.other := by
  have not_plain : ¬directories.Plain directory := fun plain =>
    not_direct start_eq ((Directories.plain_iff.mp plain).resolve_left unset)
  have cases := gives_iff.mp gives
  rw [Directory.other_other] at cases
  rcases cases with plain | ⟨-, plain⟩ | ⟨-, plain, -⟩
  · exact plain
  · exact absurd plain not_plain
  · exact absurd plain not_plain

theorem exists_of_alone (start_eq : start path = directory.alone)
    (result_eq : normalize directories steps path = some result) :
    ∃ fewer, steps = fewer + 1 ∧ directories.call directory fewer = some result := by
  cases steps with
  | zero => cases result_eq
  | succ fewer => exact ⟨fewer, rfl, (normalize_alone start_eq fewer).symm.trans result_eq⟩

theorem exists_of_above (start_eq : start path = directory.above)
    (result_eq : normalize directories steps path = some result) :
    ∃ fewer base, steps = fewer + 2 ∧ directories.call directory (fewer + 1) = some base ∧
      normalize directories fewer (joined base (purgeTrailing path)) = some result := by
  cases steps with
  | zero => cases result_eq
  | succ steps =>
    rw [normalize_above start_eq] at result_eq
    obtain ⟨base, base_eq, join_eq⟩ := Option.bind_eq_some_iff.mp result_eq
    cases steps with
    | zero => cases join_eq
    | succ fewer => exact ⟨fewer, base, rfl, base_eq, join_eq⟩

/-- If a path joined to a directory has a normal form, the directory does not lead back to
itself. -/
theorem returns_joined (start_eq : start path = directory.above)
    (returns : directories.Returns (joined (directories.text directory) (purgeTrailing path))) :
    start (directories.text directory) = .segments ∨
      (start (directories.text directory) = directory.other.alone ∨
          start (directories.text directory) = directory.other.above) ∧
        directories.Gives directory.other ∧
          start (directories.text directory.other) = .segments := by
  have below := @start_joined_purged path directory start_eq (directories.text directory)
  have distinct := directory.distinct
  have other_distinct := directory.other.distinct
  rcases directory.start_cases (start (directories.text directory)) with
    empty | segments | (alone | above) | leads
  · rw [if_pos empty] at below
    exact ((returns_above below).mp returns).2
  · exact .inl segments
  · rw [alone, if_neg distinct.1, Directory.below_alone] at below
    exact ((returns_above below).mp returns).2
  · rw [above, if_neg distinct.2.1, Directory.below_above] at below
    exact ((returns_above below).mp returns).2
  · have turned : start (joined (directories.text directory) (purgeTrailing path)) =
        directory.other.above := by
      rw [below]
      rcases leads with alone | above
      · rw [alone, if_neg other_distinct.1, Directory.below_alone]
      · rw [above, if_neg other_distinct.2.1, Directory.below_above]
    obtain ⟨gives, anchored | ⟨-, -, anchored⟩⟩ := (returns_above turned).mp returns
    · exact .inr ⟨leads, gives, anchored⟩
    · rw [Directory.other_other] at anchored
      exact .inl anchored

variable (smaller : ∀ fewer ≤ steps, Sound directories fewer)
include smaller

theorem sound_above (unset : ¬directories.Given directory)
    (start_eq : start (directories.source directory) = directory.other.above)
    (result_eq : normalize directories steps (directories.source directory) = some result) :
    directories.Gives directory ∧ result = directories.text directory := by
  obtain ⟨fewer, base, rfl, base_eq, normal_eq⟩ := exists_of_above start_eq result_eq
  obtain ⟨gives, rfl⟩ := (smaller (fewer + 1) (by omega)).directory _ _ base_eq
  obtain ⟨below_returns, value⟩ := (smaller fewer (by omega)).normal _ _ normal_eq
  have plain := plain_other unset (.inr start_eq) gives
  have leads := returns_joined start_eq below_returns
  rw [Directory.other_other, text_of_plain plain] at leads
  rw [text_of_plain plain] at value
  have anchored : start (directories.plain directory.other) = .segments := by
    rcases leads with anchored | ⟨-, own_gives, -⟩
    · exact anchored
    · rcases gives_iff.mp own_gives with own_plain | ⟨alone, -⟩ | ⟨-, -, anchored⟩
      · exact absurd ((Directories.plain_iff.mp own_plain).resolve_left unset)
          (not_direct (.inr start_eq))
      · exact absurd (alone.symm.trans start_eq) directory.other.distinct.2.2.2.2.2.2
      · exact anchored
  refine ⟨gives_iff.mpr (.inr (.inr ⟨start_eq, plain, anchored⟩)), ?_⟩
  rw [text_of_above unset start_eq]
  refine value (.inr ?_)
  rw [start_joined_purged start_eq, anchored]
  rfl

theorem sound_directory (result_eq : directories.call directory (steps + 1) = some result) :
    directories.Gives directory ∧ result = directories.text directory := by
  by_cases given : directories.Given directory
  · have plain := Directories.plain_iff.mpr (.inl given)
    refine ⟨gives_iff.mpr (.inl plain), ?_⟩
    rw [text_of_plain plain]
    exact Option.some.inj (result_eq.symm.trans (call_of_given given steps))
  have direct_case (direct : Direct (directories.source directory))
      (value : result = reference (directories.source directory)) :
      directories.Gives directory ∧ result = directories.text directory := by
    have plain := Directories.plain_iff.mpr (.inr direct)
    refine ⟨gives_iff.mpr (.inl plain), ?_⟩
    rw [text_of_plain plain, plain_of_unset given, value]
  rcases call_succ given steps with normal | ⟨empty, missing⟩
  case inr =>
    refine direct_case (.inl (start_eq_empty_iff.mpr empty)) ?_
    rw [empty, ← Option.some.inj (missing.symm.trans result_eq)]
    rfl
  rw [normal] at result_eq
  have direct_value := ((smaller steps (Nat.le_refl _)).normal _ _ result_eq).2
  rcases directory.start_cases (start (directories.source directory)) with
    empty | segments | (alone | above) | alone | above
  · exact direct_case (.inl empty) (direct_value (.inl empty))
  · exact direct_case (.inr segments) (direct_value (.inr segments))
  · obtain ⟨fewer, rfl, call_eq⟩ := exists_of_alone alone result_eq
    exact (smaller fewer (by omega)).directory _ _ call_eq
  · -- such a text asks for the directory itself
    obtain ⟨fewer, base, rfl, call_eq, -⟩ := exists_of_above above result_eq
    have gives := ((smaller (fewer + 1) (by omega)).directory _ _ call_eq).1
    have distinct := directory.distinct
    rcases gives_iff.mp gives with plain | ⟨other, -⟩ | ⟨other, -⟩
    · exact absurd ((Directories.plain_iff.mp plain).resolve_left given)
        (not_direct (.inr above))
    · exact absurd (above.symm.trans other) distinct.2.2.2.2.1
    · exact absurd (above.symm.trans other) distinct.2.2.2.2.2.1
  · obtain ⟨fewer, rfl, call_eq⟩ := exists_of_alone alone result_eq
    obtain ⟨gives, value⟩ := (smaller fewer (by omega)).directory _ _ call_eq
    have plain := plain_other given (.inl alone) gives
    refine ⟨gives_iff.mpr (.inr (.inl ⟨alone, plain⟩)), ?_⟩
    rw [text_of_alone given alone, value, text_of_plain plain]
  · exact sound_above smaller given above result_eq

theorem sound_normal (result_eq : normalize directories (steps + 1) path = some result) :
    directories.Returns path ∧ (Direct path → result = reference path) := by
  have special : ∀ directory : Directory, start path = directory.alone ∨
      start path = directory.above →
        directories.Returns path ∧ (Direct path → result = reference path) := by
    intro directory start_eq
    refine ⟨?_, fun direct => absurd direct (not_direct start_eq)⟩
    rcases start_eq with alone | above
    · rw [normalize_alone alone] at result_eq
      exact (returns_alone alone).mpr
        ((smaller steps (Nat.le_refl _)).directory _ _ result_eq).1
    · obtain ⟨fewer, base, steps_eq, call_eq, normal_eq⟩ := exists_of_above above result_eq
      obtain ⟨gives, rfl⟩ := (smaller (fewer + 1) (by omega)).directory _ _ call_eq
      have below_returns := ((smaller fewer (by omega)).normal _ _ normal_eq).1
      exact (returns_above above).mpr ⟨gives, returns_joined above below_returns⟩
  rcases Directory.start_cases .cwd (start path) with start_eq | start_eq | cwd | home
  · rw [normalize_succ, start_eq] at result_eq
    refine ⟨by rw [Directories.Returns, start_eq]; trivial, fun _ => ?_⟩
    rw [start_eq_empty_iff.mp start_eq, ← Option.some.inj result_eq]
    rfl
  · rw [normalize_succ, start_eq] at result_eq
    refine ⟨by rw [Directories.Returns, start_eq]; trivial, fun _ => ?_⟩
    rw [eq_reference_of_normalizeSegments result_eq, (reference_purgeTrailing path).1]
  · exact special .cwd cwd
  · exact special .home home

end Results

theorem sound (directories : Directories) (steps : Nat) : Sound directories steps := by
  induction steps using Nat.strongRecOn with
  | ind steps ih =>
    cases steps with
    | zero => exact ⟨fun directory => by cases directory <;> exact nofun, nofun⟩
    | succ steps =>
      have smaller (fewer : Nat) (bound : fewer ≤ steps) : Sound directories fewer :=
        ih fewer (Nat.lt_succ_of_le bound)
      exact ⟨fun _ _ => sound_directory smaller, fun _ _ => sound_normal smaller⟩

/-- Each path function has a result exactly where the starts of the texts in the environment do not
lead back to themselves. -/
theorem returns_iff (directories : Directories) (path existing segment : List Char) :
    ((∃ steps, (normalize directories steps path).isSome) ↔ directories.Returns path) ∧
    ((∃ steps, (join directories steps existing segment).isSome) ↔
      directories.Returns (joined existing segment)) ∧
    ((∃ steps, (getCwdPath directories steps).isSome) ↔ directories.CwdReturns) ∧
    ((∃ steps, (getHomePath directories steps).isSome) ↔ directories.HomeReturns) := by
  have normal_returns {steps : Nat} {path : List Char}
      (some_result : (normalize directories steps path).isSome) : directories.Returns path := by
    obtain ⟨result, result_eq⟩ := Option.isSome_iff_exists.mp some_result
    exact ((sound directories steps).normal _ _ result_eq).1
  refine ⟨⟨?_, ?_⟩, ⟨?_, ?_⟩, ⟨?_, ?_⟩, ⟨?_, ?_⟩⟩
  · rintro ⟨steps, some_result⟩
    exact normal_returns some_result
  · intro returns
    obtain ⟨result, yields⟩ := exists_yields returns
    exact yields.exists_isSome
  · rintro ⟨steps, some_result⟩
    cases steps with
    | zero => cases some_result
    | succ steps => exact normal_returns some_result
  · intro returns
    obtain ⟨result, yields⟩ := exists_yields returns
    exact Yields.exists_isSome (yields.of_succ fun _ => rfl)
  · rintro ⟨steps, some_result⟩
    obtain ⟨result, result_eq⟩ := Option.isSome_iff_exists.mp some_result
    exact ((sound directories steps).directory .cwd _ result_eq).1
  · exact fun returns => (@yields_text directories .cwd returns).exists_isSome
  · rintro ⟨steps, some_result⟩
    obtain ⟨result, result_eq⟩ := Option.isSome_iff_exists.mp some_result
    exact ((sound directories steps).directory .home _ result_eq).1
  · exact fun returns => (@yields_text directories .home returns).exists_isSome

/-- The working directory has been removed: `./x` is joined to nothing again and again. -/
theorem normalize_diverges : ¬ ∃ steps,
    (normalize ⟨[], none, [], "/root".toList, none, none⟩ steps "./x".toList).isSome := by
  have purged_eq : purgeTrailing "./x".toList = "./x".toList := purgeTrailing_eq_self (by decide)
  have start_eq : start "./x".toList = .fromCwd := by
    rw [start, purged_eq]
    rfl
  rintro ⟨steps, some_result⟩
  induction steps using Nat.strongRecOn with
  | ind steps ih =>
    obtain ⟨result, result_eq⟩ := Option.isSome_iff_exists.mp some_result
    obtain ⟨fewer, cwd, rfl, cwd_eq, normal_eq⟩ :=
      @exists_of_above _ .cwd _ _ _ start_eq result_eq
    obtain rfl : [] = cwd := Option.some.inj cwd_eq
    rw [purged_eq] at normal_eq
    exact ih fewer (by omega) (Option.isSome_iff_exists.mpr ⟨result, normal_eq⟩)

end Fusion.PathUtil
