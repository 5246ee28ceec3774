import Fusion.Path.NormalForm

/-!
# Directory and base name of a path, and paths inside others

Each function normalises its arguments and then works on the text: it cuts at the last separator,
or it compares the characters of one path with the front of another.
-/

namespace Fusion.PathUtil

open Fuel (Yields)

/-- What `Basename` does with a normalised path. -/
def basenameOf (normalized : List Char) : List Char :=
  if isNormalizedRoot normalized then []
  else
    match Strings.rfind normalized separatorUnix (normalized.length - 1) with
    | none => normalized
    | some separator => Strings.erase normalized 0 (separator + 1)

def basename (directories : Directories) (steps : Nat) (path : List Char) : Option (List Char) :=
  (normalize directories steps path).map basenameOf

/-- What `Dirname` does with a normalised path. -/
def dirnameOf (normalized : List Char) : List Char :=
  if isNormalizedRoot normalized then normalized
  else
    match Strings.rfind normalized separatorUnix (normalized.length - 1) with
    | none => []
    | some separator =>
      let front := normalized.take separator
      if front = [] ∨ isNormalizedRoot front then front ++ [separatorUnix] else front

def dirname (directories : Directories) (steps : Nat) (path : List Char) : Option (List Char) :=
  (normalize directories steps path).map dirnameOf

/-- What `IsRelative` answers for normalised paths. -/
def isInside (child parent : List Char) : Bool :=
  if child.length ≤ parent.length ∨ ¬ parent <+: child then false
  else child[parent.length]? == some separatorUnix || isNormalizedRoot parent

def isRelative (directories : Directories) (steps : Nat) (child parent : List Char) : Option Bool :=
  (normalize directories steps parent).bind fun p =>
    (normalize directories steps child).map fun c => isInside c p

/-! ## Names below the root -/

/-- Names with a separator before each. -/
def rooted (names : List (List Char)) : List Char := names.flatMap (separatorUnix :: ·)

variable {names : List (List Char)}

theorem spell_eq_rooted (nonempty : names ≠ []) : spell true names = rooted names := by
  induction names with
  | nil => exact absurd rfl nonempty
  | cons name names ih =>
    cases names with
    | nil => simp [spell, root, rooted]
    | cons next names =>
      have rest := ih (List.cons_ne_nil next names)
      simp only [spell, root, if_true, List.singleton_append] at rest ⊢
      rw [List.intercalate_cons_cons, List.append_assoc, List.singleton_append, rest]
      rfl

theorem rooted_concat (front : List (List Char)) (last : List Char) :
    rooted (front ++ [last]) = rooted front ++ separatorUnix :: last := by
  simp [rooted]

variable {name : List Char}

theorem two_le_length_rooted (plain : ∀ other ∈ name :: names, Plain other) :
    2 ≤ (rooted (name :: names)).length := by
  have name_pos : 0 < name.length :=
    List.length_pos_iff.mpr (plain name List.mem_cons_self).ne_nil
  simp only [rooted, List.flatMap_cons, List.length_append, List.length_cons]
  omega

theorem isNormalizedRoot_spell (plain : ∀ name ∈ names, Plain name) :
    isNormalizedRoot (spell true names) = names.isEmpty := by
  cases names with
  | nil => rfl
  | cons name names =>
    have long := two_le_length_rooted plain
    rw [spell_eq_rooted (List.cons_ne_nil name names), List.isEmpty_cons, isNormalizedRoot,
      beq_eq_false_iff_ne]
    intro equal
    rw [equal] at long
    exact absurd long (by decide)

/-! ## Cutting at the last separator -/

variable {last : List Char}

theorem rfind_rooted (front : List (List Char)) (plain : Plain last) :
    Strings.rfind (rooted (front ++ [last])) separatorUnix
      ((rooted (front ++ [last])).length - 1) = some (rooted front).length := by
  have found := @Strings.rfind_append _ _ (rooted front) _ _ plain.undivided []
  rw [List.append_nil] at found
  rw [rooted_concat, List.length_append, List.length_cons]
  exact found

theorem basenameOf_spell (plain : ∀ name ∈ names, Plain name) :
    basenameOf (spell true names) = names.getLast?.getD [] := by
  rw [basenameOf, isNormalizedRoot_spell plain]
  rcases List.eq_nil_or_concat names with rfl | ⟨front, last, rfl⟩
  · rfl
  · rw [List.concat_eq_append] at plain ⊢
    have last_plain : Plain last := plain last (by simp)
    rw [if_neg (by simp), spell_eq_rooted (by simp), rfind_rooted front last_plain,
      List.getLast?_concat, Option.getD_some, rooted_concat]
    simp [Strings.erase]

theorem dirnameOf_spell (plain : ∀ name ∈ names, Plain name) :
    dirnameOf (spell true names) = spell true names.dropLast := by
  rw [dirnameOf, isNormalizedRoot_spell plain]
  rcases List.eq_nil_or_concat names with rfl | ⟨front, last, rfl⟩
  · rfl
  · rw [List.concat_eq_append] at plain ⊢
    have last_plain : Plain last := plain last (by simp)
    have take_eq : (rooted (front ++ [last])).take (rooted front).length = rooted front := by
      rw [rooted_concat, List.take_left]
    rw [if_neg (by simp), List.dropLast_concat, spell_eq_rooted (by simp),
      rfind_rooted front last_plain]
    simp only [take_eq]
    cases front with
    | nil => rfl
    | cons name front =>
      have front_plain : ∀ other ∈ name :: front, Plain other := fun other member =>
        plain other (List.mem_append_left _ member)
      rw [← spell_eq_rooted (List.cons_ne_nil name front), isNormalizedRoot_spell front_plain,
        if_neg]
      simp [spell, root]

variable {path : List Char}

theorem yields_basename (directories : Directories) (absolute : isAbsolute path = true) :
    Yields (basename directories · path) ((reduced path).getLast?.getD []) := by
  rw [← basenameOf_spell fun _ member => plain_of_mem_reduced absolute member,
    ← reference_of_absolute absolute]
  exact (yields_normalize directories (start_of_absolute absolute)).map basenameOf

theorem yields_dirname (directories : Directories) (absolute : isAbsolute path = true) :
    Yields (dirname directories · path) (spell true (reduced path).dropLast) := by
  rw [← dirnameOf_spell fun _ member => plain_of_mem_reduced absolute member,
    ← reference_of_absolute absolute]
  exact (yields_normalize directories (start_of_absolute absolute)).map dirnameOf

theorem isAbsolute_of_plain (plain : Plain name) : isAbsolute name = false := by
  cases name with
  | nil => rfl
  | cons first rest =>
    refine beq_false_of_ne fun same => plain.undivided ?_
    rw [← Option.some.inj same]
    exact List.mem_cons_self

theorem getLast?_rooted (plain : ∀ name ∈ names, Plain name) (nonempty : names ≠ []) :
    ∃ last, names.getLast? = some last ∧ ∃ final ∈ last,
      (rooted names).getLast? = some final ∧ last.getLast? = some final := by
  rcases List.eq_nil_or_concat names with rfl | ⟨front, last, rfl⟩
  · exact absurd rfl nonempty
  · rw [List.concat_eq_append] at plain ⊢
    have last_ne := (plain last (by simp)).ne_nil
    have final_eq := List.getLast?_eq_some_getLast last_ne
    refine ⟨last, List.getLast?_concat, last.getLast last_ne, List.getLast_mem last_ne, ?_,
      final_eq⟩
    rw [rooted_concat, List.getLast?_append_of_ne_nil _ (List.cons_ne_nil _ _),
      List.getLast?_cons_of_ne_nil last_ne, final_eq]

/-- The last of the names ends in a backslash. -/
def Escaped (names : List (List Char)) : Prop :=
  names.getLast?.bind List.getLast? = some separatorWindows

instance (names : List (List Char)) : Decidable (Escaped names) :=
  inferInstanceAs (Decidable (_ = _))

theorem escaped_iff :
    Escaped names ↔ ∃ name, names.getLast? = some name ∧ name.getLast? = some separatorWindows :=
  Option.bind_eq_some_iff

theorem joined_of_not_escaped {segment : List Char} (plain : ∀ name ∈ names, Plain name)
    (relative : isAbsolute segment = false) (segment_ne : segment ≠ [])
    (unescaped : ¬ Escaped names) :
    joined (spell true names) segment = rooted names ++ separatorUnix :: segment := by
  have existing_ne : spell true names ≠ [] := by simp [spell, root]
  rw [joined, if_neg (by simp [relative, existing_ne]), if_pos segment_ne]
  by_cases empty : names = []
  · subst empty
    rfl
  · obtain ⟨name, name_eq, final, final_mem, last_eq, final_eq⟩ := getLast?_rooted plain empty
    have final_ne : final ≠ separatorUnix ∧ final ≠ separatorWindows := by
      constructor
      · exact fun same => (plain name (List.mem_of_getLast? name_eq)).undivided (same ▸ final_mem)
      · rintro rfl
        exact unescaped (escaped_iff.mpr ⟨name, name_eq, final_eq⟩)
    rw [spell_eq_rooted empty, last_eq, if_pos (by simpa using final_ne)]

theorem joined_spell {front : List (List Char)} (plain : ∀ name ∈ front, Plain name)
    (last_plain : Plain last) (unescaped : ∀ name ∈ front, separatorWindows ∉ name) :
    joined (spell true front) last = spell true (front ++ [last]) := by
  have not_escaped : ¬ Escaped front := by
    intro escaped
    obtain ⟨name, name_eq, backslash⟩ := escaped_iff.mp escaped
    exact unescaped name (List.mem_of_getLast? name_eq) (List.mem_of_getLast? backslash)
  rw [joined_of_not_escaped plain (isAbsolute_of_plain last_plain) last_plain.ne_nil not_escaped,
    spell_eq_rooted (by simp), rooted_concat]

/-- The directory and the base name of an absolute path, joined, are its normal form. -/
theorem join_dirname_basename (directories : Directories) {path : List Char}
    (absolute : isAbsolute path = true) (unescaped : separatorWindows ∉ path) :
    ∃ directory name normal,
      Yields (dirname directories · path) directory ∧
      Yields (basename directories · path) name ∧
      Yields (normalize directories · path) normal ∧
      Yields (join directories · directory name) normal ∧
      isAbsolute directory = true ∧ separatorUnix ∉ name := by
  have plain (name : List Char) (member : name ∈ reduced path) : Plain name :=
    plain_of_mem_reduced absolute member
  have front_plain (name : List Char) (member : name ∈ (reduced path).dropLast) : Plain name :=
    plain name ((List.dropLast_sublist _).subset member)
  have joined_eq : joined (spell true (reduced path).dropLast)
      ((reduced path).getLast?.getD []) = reference path := by
    rw [reference_of_absolute absolute]
    cases last_eq : (reduced path).getLast? with
    | none =>
      rw [List.getLast?_eq_none_iff.mp last_eq]
      rfl
    | some last =>
      rw [Option.getD_some, joined_spell front_plain (plain last (List.mem_of_getLast? last_eq))]
      · rw [List.dropLast_append_getLast? last last_eq]
      · intro name member backslash
        have name_mem := (List.dropLast_sublist _).subset member
        exact unescaped (subset_of_mem_reduced name_mem backslash)
  refine ⟨_, _, reference path, yields_dirname directories absolute,
    yields_basename directories absolute, yields_normalize directories (start_of_absolute absolute),
    ?_, isAbsolute_spell front_plain, ?_⟩
  · have normal := yields_normalize directories
      (start_of_absolute (isAbsolute_reference absolute))
    rw [reference_reference absolute, ← joined_eq] at normal
    rw [← joined_eq]
    exact normal.of_succ fun _ => rfl
  · cases last_eq : (reduced path).getLast? with
    | none => exact List.not_mem_nil
    | some last => exact (plain last (List.mem_of_getLast? last_eq)).undivided

/-- A name in a directory two levels up from where the path began. -/
theorem join_dirname_basename_up :
    ∃ directory name normal,
      Yields (dirname ⟨[], none, [], [], none, none⟩ · "/a//b/../c/".toList) directory ∧
      Yields (basename ⟨[], none, [], [], none, none⟩ · "/a//b/../c/".toList) name ∧
      Yields (normalize ⟨[], none, [], [], none, none⟩ · "/a//b/../c/".toList) normal ∧
      Yields (join ⟨[], none, [], [], none, none⟩ · directory name) normal ∧
      isAbsolute directory = true ∧ separatorUnix ∉ name :=
  join_dirname_basename _ (by decide) (by decide)

/-! ## Paths inside others -/

/-- The segments that a path shows. -/
def segmentList (path : List Char) : List (List Char) :=
  (path.splitOn separatorUnix).filter (· ≠ [])

theorem segmentList_spell (plain : ∀ name ∈ names, Plain name) :
    segmentList (spell true names) = names := by
  have rooted_split := @List.splitOn_append_cons_self _ _ _ separatorUnix []
    ([separatorUnix].intercalate names)
  rw [List.nil_append] at rooted_split
  rw [segmentList, spell, root, if_pos rfl, List.singleton_append, rooted_split, List.filter_append]
  cases names with
  | nil => rfl
  | cons name names =>
    rw [List.splitOn_intercalate separatorUnix
      (fun other member => (plain other member).undivided) (List.cons_ne_nil name names)]
    refine List.filter_eq_self.mpr fun other member => ?_
    exact decide_eq_true (plain other member).ne_nil

/-- Two words before a separator are compared up to it. -/
theorem undivided_prefix_iff {left right rest text : List Char}
    (left_undivided : separatorUnix ∉ left) (right_undivided : separatorUnix ∉ right)
    (text_start : text = [] ∨ ∃ tail, text = separatorUnix :: tail) :
    left ++ separatorUnix :: rest <+: right ++ text ↔
      left = right ∧ separatorUnix :: rest <+: text := by
  induction left generalizing right with
  | nil =>
    cases right with
    | nil => simp
    | cons first right =>
      have first_ne : separatorUnix ≠ first := fun same =>
        right_undivided (same ▸ List.mem_cons_self)
      simp [List.cons_prefix_cons, first_ne]
  | cons letter left ih =>
    have letter_ne : letter ≠ separatorUnix := fun same =>
      left_undivided (same ▸ List.mem_cons_self)
    have rest_undivided : separatorUnix ∉ left := fun member =>
      left_undivided (List.mem_cons_of_mem letter member)
    cases right with
    | nil =>
      obtain rfl | ⟨tail, rfl⟩ := text_start
      · simp
      · simp [List.cons_prefix_cons, letter_ne]
    | cons first right =>
      have after := ih rest_undivided fun member =>
        right_undivided (List.mem_cons_of_mem first member)
      rw [List.cons_append, List.cons_append, List.cons_prefix_cons, after, List.cons.injEq,
        and_assoc]

theorem rooted_start (names : List (List Char)) :
    rooted names = [] ∨ ∃ tail, rooted names = separatorUnix :: tail := by
  cases names with
  | nil => exact .inl rfl
  | cons name names => exact .inr ⟨name ++ rooted names, rfl⟩

variable {cs ps : List (List Char)}

/-- Names and one more separator are at the front of longer names only. -/
theorem rooted_prefix_iff (ps_plain : ∀ name ∈ ps, Plain name)
    (cs_plain : ∀ name ∈ cs, Plain name) :
    rooted ps ++ [separatorUnix] <+: rooted cs ↔ ps <+: cs ∧ ps ≠ cs := by
  induction ps generalizing cs with
  | nil =>
    cases cs with
    | nil => simp [rooted]
    | cons name cs => simp [rooted]
  | cons parent ps ih =>
    cases cs with
    | nil => simp [rooted]
    | cons child cs =>
      have rest := ih (fun name member => ps_plain name (List.mem_cons_of_mem parent member))
        fun name member => cs_plain name (List.mem_cons_of_mem child member)
      obtain ⟨tail, tail_eq⟩ : ∃ tail, rooted ps ++ [separatorUnix] = separatorUnix :: tail := by
        cases rooted_start ps with
        | inl empty => exact ⟨[], by rw [empty, List.nil_append]⟩
        | inr start =>
          obtain ⟨tail, start⟩ := start
          exact ⟨tail ++ [separatorUnix], by rw [start, List.cons_append]⟩
      have step : parent ++ separatorUnix :: tail <+: child ++ rooted cs ↔
          parent = child ∧ separatorUnix :: tail <+: rooted cs :=
        undivided_prefix_iff (ps_plain parent List.mem_cons_self).undivided
          (cs_plain child List.mem_cons_self).undivided (rooted_start cs)
      rw [← tail_eq, rest] at step
      calc rooted (parent :: ps) ++ [separatorUnix] <+: rooted (child :: cs)
          ↔ parent ++ (rooted ps ++ [separatorUnix]) <+: child ++ rooted cs := by
            simp [rooted, List.cons_prefix_cons]
        _ ↔ parent = child ∧ ps <+: cs ∧ ps ≠ cs := step
        _ ↔ parent :: ps <+: child :: cs ∧ parent :: ps ≠ child :: cs := by
            rw [List.cons_prefix_cons]
            constructor
            · rintro ⟨rfl, within, different⟩
              exact ⟨⟨rfl, within⟩, fun same => different (List.cons.inj same).2⟩
            · rintro ⟨⟨rfl, within⟩, different⟩
              exact ⟨rfl, within, fun same => different (congrArg _ same)⟩

theorem isInside_iff_begins {c p : List Char} (not_root : isNormalizedRoot p = false) :
    isInside c p = true ↔ p ++ [separatorUnix] <+: c := by
  rw [isInside, not_root, Bool.or_false]
  constructor
  · intro inside
    split at inside
    · cases inside
    · rename_i longer
      rw [not_or, not_not] at longer
      obtain ⟨tail, rfl⟩ := longer.2
      cases tail with
      | nil => simp at longer
      | cons first tail =>
        obtain rfl : first = separatorUnix := by simpa using inside
        exact ⟨tail, by simp⟩
  · rintro ⟨tail, rfl⟩
    rw [if_neg]
    · simp
    · simp

theorem isInside_spell (cs_plain : ∀ name ∈ cs, Plain name) (ps_plain : ∀ name ∈ ps, Plain name) :
    isInside (spell true cs) (spell true ps) = true ↔ ps <+: cs ∧ ps ≠ cs := by
  cases ps with
  | nil =>
    cases cs with
    | nil => decide
    | cons name cs =>
      have long := two_le_length_rooted cs_plain
      have longer : ¬ (rooted (name :: cs)).length ≤ (spell true []).length :=
        Nat.not_le_of_lt long
      have within : spell true [] <+: rooted (name :: cs) := ⟨name ++ rooted cs, rfl⟩
      rw [spell_eq_rooted (List.cons_ne_nil name cs), isInside,
        if_neg (not_or.mpr ⟨longer, not_not.mpr within⟩), isNormalizedRoot_spell ps_plain]
      simp
  | cons parent ps =>
    have not_root : isNormalizedRoot (spell true (parent :: ps)) = false :=
      isNormalizedRoot_spell ps_plain
    rw [isInside_iff_begins not_root, spell_eq_rooted (List.cons_ne_nil parent ps)]
    cases cs with
    | nil =>
      have long := two_le_length_rooted ps_plain
      refine iff_of_false ?_ (by simp)
      intro within
      have length_le : (rooted (parent :: ps) ++ [separatorUnix]).length ≤ 1 := within.length_le
      rw [List.length_append] at length_le
      omega
    | cons child cs =>
      rw [spell_eq_rooted (List.cons_ne_nil child cs)]
      exact rooted_prefix_iff ps_plain cs_plain

theorem yields_isRelative (directories : Directories) {child parent : List Char}
    (child_absolute : isAbsolute child = true) (parent_absolute : isAbsolute parent = true) :
    Yields (isRelative directories · child parent)
      (decide (reduced parent <+: reduced child ∧ reduced parent ≠ reduced child)) := by
  have answer : isInside (reference child) (reference parent) =
      decide (reduced parent <+: reduced child ∧ reduced parent ≠ reduced child) := by
    rw [reference_of_absolute child_absolute, reference_of_absolute parent_absolute,
      Bool.eq_iff_iff, decide_eq_true_iff]
    exact isInside_spell (fun _ member => plain_of_mem_reduced child_absolute member)
      fun _ member => plain_of_mem_reduced parent_absolute member
  rw [← answer]
  exact (yields_normalize directories (start_of_absolute parent_absolute)).bind
    ((yields_normalize directories (start_of_absolute child_absolute)).map
      (isInside · (reference parent)))

/-- `IsRelative` is the proper prefix order of the segments of normal forms. -/
theorem isRelative_iff_segments (directories : Directories) :
    (∀ child parent, isAbsolute child = true → isAbsolute parent = true →
      ∃ c p, Yields (normalize directories · child) c ∧
        Yields (normalize directories · parent) p ∧
        Yields (isRelative directories · child parent)
          (decide (segmentList p <+: segmentList c ∧ segmentList p ≠ segmentList c))) ∧
    (∀ path, isAbsolute path = true → Yields (isRelative directories · path path) false) ∧
    (∀ inner middle outer, isAbsolute inner = true → isAbsolute middle = true →
      isAbsolute outer = true → Yields (isRelative directories · inner middle) true →
      Yields (isRelative directories · middle outer) true →
      Yields (isRelative directories · inner outer) true) ∧
    Yields (isRelative directories · "/ab".toList "/a".toList) false := by
  refine ⟨?_, ?_, ?_, ?_⟩
  · intro child parent child_absolute parent_absolute
    refine ⟨reference child, reference parent,
      yields_normalize directories (start_of_absolute child_absolute),
      yields_normalize directories (start_of_absolute parent_absolute), ?_⟩
    rw [reference_of_absolute child_absolute, reference_of_absolute parent_absolute,
      segmentList_spell fun _ member => plain_of_mem_reduced child_absolute member,
      segmentList_spell fun _ member => plain_of_mem_reduced parent_absolute member]
    exact yields_isRelative directories child_absolute parent_absolute
  · intro path absolute
    have answer := yields_isRelative directories absolute absolute
    simpa using answer
  · intro inner middle outer inner_absolute middle_absolute outer_absolute first second
    have lower := first.unique (yields_isRelative directories inner_absolute middle_absolute)
    have upper := second.unique (yields_isRelative directories middle_absolute outer_absolute)
    obtain ⟨middle_begins, middle_ne⟩ := of_decide_eq_true lower.symm
    obtain ⟨outer_begins, outer_ne⟩ := of_decide_eq_true upper.symm
    have inside : reduced outer <+: reduced inner ∧ reduced outer ≠ reduced inner := by
      refine ⟨outer_begins.trans middle_begins, fun same => outer_ne ?_⟩
      rw [same] at outer_begins
      exact same.trans (outer_begins.eq_of_length_le middle_begins.length_le)
    have answer := yields_isRelative directories inner_absolute outer_absolute
    rwa [decide_eq_true inside] at answer
  · exact yields_isRelative directories (by decide) (by decide)

/-- A directory two levels below another one is inside it. -/
theorem isRelative_nested :
    ∃ c p, Yields (normalize ⟨[], none, [], [], none, none⟩ · "/a/b//./c".toList) c ∧
      Yields (normalize ⟨[], none, [], [], none, none⟩ · "/x/../a/".toList) p ∧
      Yields (isRelative ⟨[], none, [], [], none, none⟩ · "/a/b//./c".toList "/x/../a/".toList)
        (decide (segmentList p <+: segmentList c ∧ segmentList p ≠ segmentList c)) :=
  (isRelative_iff_segments _).1 _ _ (by decide) (by decide)

end Fusion.PathUtil
