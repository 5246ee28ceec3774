import Fusion.Path.Idempotence
import Fusion.Path.Parts
import Mathlib.Data.List.Induction

/-!
# Joining several segments

`Join` puts a separator between its arguments unless the first one ends in a separator of either
platform, and normalises after every argument.  On POSIX a name may end in a backslash, and the
next segment is then glued to it.
-/

namespace Fusion.PathUtil

open Fuel (Yields Agree)

/-- Join the segments to a path one after the other. -/
def joinAll (directories : Directories) (steps : Nat) :
    List Char → List (List Char) → Option (List Char)
  | path, [] => some path
  | path, segment :: segments =>
    (join directories steps path segment).bind fun next =>
      joinAll directories steps next segments

/-- `Join` with any number of arguments: all of them are joined to an empty path. -/
def joinVariadic (directories : Directories) (steps : Nat) (a : List Char)
    (segments : List (List Char)) : Option (List Char) :=
  joinAll directories steps [] (a :: segments)

/-- The text with one more segment: an absolute one starts over. -/
def extend (text segment : List Char) : List Char :=
  if isAbsolute segment then segment else text ++ separatorUnix :: segment

/-! ## The effect of segments on a stack -/

/-- How many names that were there before the segments take away. -/
def climbs (segments : List (List Char)) : Nat :=
  (segments.foldl (advance false) []).count pathDoubleDot

theorem Stack.count_segments {absolute : Bool} (stack : Stack absolute) :
    stack.segments.count pathDoubleDot = stack.ups := by
  have names_count : stack.names.count pathDoubleDot = 0 := by
    refine List.count_eq_zero.mpr fun member => ?_
    exact (stack.plain _ member).ne_doubleDot rfl
  rw [Stack.segments, List.count_append, names_count, List.count_replicate_self, Nat.zero_add]

/-- What is left of names that were there before, under the names of a relative stack. -/
def Stack.above (stack : Stack false) (base : List (List Char)) : List (List Char) :=
  stack.names ++ base.drop stack.ups

theorem advance_doubleDot {names : List (List Char)} (plain : ∀ name ∈ names, Plain name) :
    advance true names pathDoubleDot = names.tail := by
  rw [advance, if_neg (by decide), reduce.eq_def, if_pos rfl]
  cases names with
  | nil => rfl
  | cons top below => exact if_neg (plain top List.mem_cons_self).ne_doubleDot

variable {segment : List Char}

/-- One segment has the same effect on a relative stack and on the names under it. -/
theorem Stack.exists_advance (stack : Stack false) (undivided : separatorUnix ∉ segment) :
    ∃ next : Stack false, next.segments = advance false stack.segments segment ∧
      ∀ base : List (List Char), (∀ name ∈ base, Plain name) →
        advance true (stack.above base) segment = next.above base := by
  by_cases skipped : Skipped segment
  · exact ⟨stack, (if_pos skipped).symm, fun _ _ => if_pos skipped⟩
  by_cases doubleDot : segment = pathDoubleDot
  · subst doubleDot
    cases names_eq : stack.names with
    | nil =>
      refine ⟨stack.up rfl, ?_, fun base plain => ?_⟩
      · rw [advance_doubleDot_of_nameless names_eq, Stack.segments, Stack.segments, names_eq]
        rfl
      · rw [Stack.above, names_eq, List.nil_append, advance_doubleDot, List.tail_drop]
        · rfl
        · exact fun name member => plain name (List.mem_of_mem_drop member)
    | cons top names =>
      obtain ⟨below, top_plain, rfl⟩ := Stack.exists_eq_push names_eq
      refine ⟨below, (if_neg top_plain.ne_doubleDot).symm, fun base plain => ?_⟩
      exact if_neg top_plain.ne_doubleDot
  · have plain : Plain segment := ⟨skipped, doubleDot, undivided⟩
    refine ⟨stack.push segment plain, ?_, fun base _ => ?_⟩
    · rw [advance_plain plain]
      rfl
    · rw [advance_plain plain]
      rfl

theorem exists_foldl_above {segments : List (List Char)}
    (undivided : ∀ segment ∈ segments, separatorUnix ∉ segment) :
    ∃ own : List (List Char), ∀ base : List (List Char), (∀ name ∈ base, Plain name) →
      segments.foldl (advance true) base = own ++ base.drop (climbs segments) := by
  have general (stack : Stack false) : ∃ final : Stack false,
      final.segments = segments.foldl (advance false) stack.segments ∧
      ∀ base : List (List Char), (∀ name ∈ base, Plain name) →
        segments.foldl (advance true) (stack.above base) = final.above base := by
    induction segments generalizing stack with
    | nil => exact ⟨stack, rfl, fun _ _ => rfl⟩
    | cons segment segments ih =>
      obtain ⟨next, next_eq, step⟩ :=
        stack.exists_advance (undivided segment List.mem_cons_self)
      obtain ⟨final, final_eq, rest⟩ :=
        ih (fun other member => undivided other (List.mem_cons_of_mem segment member)) next
      refine ⟨final, by rw [final_eq, next_eq, List.foldl_cons], fun base plain => ?_⟩
      rw [List.foldl_cons, step base plain, rest base plain]
  obtain ⟨final, final_eq, over_eq⟩ := general (emptyStack false)
  refine ⟨final.names, fun base plain => (over_eq base plain).trans ?_⟩
  have climbs_eq : climbs segments = final.ups := by
    rw [← final.count_segments, final_eq]
    rfl
  rw [climbs_eq]
  rfl

/-! ## A segment glued to a name -/

/-- The segments after the first one climb above the place where it was glued to the last of the
names. -/
def Erased (names : List (List Char)) (segment : List Char) : Prop :=
  match segment.splitOn separatorUnix with
  | [] => True
  | first :: rest =>
    if Skipped first then 1 ≤ climbs rest
    else if first = pathDoubleDot then names.length ≤ climbs rest
    else names.length < climbs rest

/-- A relative segment that is joined to the names, or glued without a trace. -/
def Separates (names : List (List Char)) (segment : List Char) : Prop :=
  segment = [] ∨ ¬ Escaped names ∨ Erased names segment

theorem plain_of_backslash (backslash : separatorWindows ∈ segment)
    (undivided : separatorUnix ∉ segment) : Plain segment := by
  refine ⟨?_, ?_, undivided⟩
  · rintro (empty | dot | tilde)
    · exact absurd (empty ▸ backslash) (by decide)
    · exact absurd (dot ▸ backslash) (by decide)
    · exact absurd (tilde ▸ backslash) (by decide)
  · intro doubleDot
    exact absurd (doubleDot ▸ backslash) (by decide)

variable {name : List Char}

theorem plain_glued (plain : Plain name) (backslash : name.getLast? = some separatorWindows)
    {first : List Char} (undivided : separatorUnix ∉ first) : Plain (name ++ first) := by
  refine plain_of_backslash (List.mem_append_left _ (List.mem_of_getLast? backslash)) ?_
  rw [List.mem_append, not_or]
  exact ⟨plain.undivided, undivided⟩

/-- What is left of two stacks that differ at the top. -/
theorem glued_iff {first : List Char} {below rest : List (List Char)}
    (below_plain : ∀ other ∈ below, Plain other) (plain : Plain name)
    (backslash : name.getLast? = some separatorWindows) (first_ne : first ≠ [])
    (first_undivided : separatorUnix ∉ first)
    (rest_undivided : ∀ segment ∈ rest, separatorUnix ∉ segment) :
    rest.foldl (advance true) ((name ++ first) :: below) =
        rest.foldl (advance true) (advance true (name :: below) first) ↔
      if Skipped first then 1 ≤ climbs rest
      else if first = pathDoubleDot then below.length + 1 ≤ climbs rest
      else below.length + 1 < climbs rest := by
  obtain ⟨own, effect⟩ := exists_foldl_above rest_undivided
  have glued_plain := plain_glued plain backslash first_undivided
  have cons_plain {top : List Char} {names : List (List Char)} (top_plain : Plain top)
      (names_plain : ∀ other ∈ names, Plain other) : ∀ other ∈ top :: names, Plain other := by
    intro other member
    cases List.mem_cons.mp member with
    | inl same => exact same ▸ top_plain
    | inr later => exact names_plain other later
  rw [effect _ (cons_plain glued_plain below_plain)]
  by_cases skipped : Skipped first
  · have stays : advance true (name :: below) first = name :: below := if_pos skipped
    rw [stays, effect _ (cons_plain plain below_plain), List.append_cancel_left_eq, if_pos skipped]
    cases climbs rest with
    | zero => simp [first_ne]
    | succ more => simp
  rw [if_neg skipped]
  by_cases doubleDot : first = pathDoubleDot
  · subst doubleDot
    rw [advance_doubleDot (cons_plain plain below_plain), List.tail_cons, effect _ below_plain,
      List.append_cancel_left_eq, if_pos rfl]
    constructor
    · intro same
      have length_eq := congrArg List.length same
      rw [List.length_drop, List.length_drop, List.length_cons] at length_eq
      omega
    · intro high
      rw [List.drop_eq_nil_of_le (by simpa using high), List.drop_eq_nil_of_le (by omega)]
  · have first_plain : Plain first := ⟨skipped, doubleDot, first_undivided⟩
    rw [advance_plain first_plain, effect _ (cons_plain first_plain (cons_plain plain below_plain)),
      List.append_cancel_left_eq, if_neg doubleDot]
    constructor
    · intro same
      have length_eq := congrArg List.length same
      simp only [List.length_drop, List.length_cons] at length_eq
      omega
    · intro high
      rw [List.drop_eq_nil_of_le (by rw [List.length_cons]; omega),
        List.drop_eq_nil_of_le (by rw [List.length_cons, List.length_cons]; omega)]

/-! ## One segment -/

variable {text : List Char}

theorem isAbsolute_append (absolute : isAbsolute text = true) (rest : List Char) :
    isAbsolute (text ++ rest) = true := by
  cases text with
  | nil => cases absolute
  | cons first text => exact absolute

theorem reduced_append (absolute : isAbsolute text = true) (segment : List Char) :
    reduced (text ++ separatorUnix :: segment) =
      ((segment.splitOn separatorUnix).foldl (advance true) (reduced text).reverse).reverse := by
  rw [reduced, reduced, isAbsolute_append absolute, absolute, List.splitOn_append_cons_self,
    List.foldl_append, List.reverse_reverse]

theorem reference_eq_iff {left right : List Char} (left_absolute : isAbsolute left = true)
    (right_absolute : isAbsolute right = true) :
    reference left = reference right ↔ reduced left = reduced right := by
  rw [reference_of_absolute left_absolute, reference_of_absolute right_absolute]
  constructor
  · intro same
    have names_eq := congrArg reduced same
    rwa [reduced_spell fun _ member => plain_of_mem_reduced left_absolute member,
      reduced_spell fun _ member => plain_of_mem_reduced right_absolute member] at names_eq
  · exact congrArg (spell true)

theorem exists_splitOn_cons (relative : isAbsolute segment = false) (segment_ne : segment ≠ []) :
    ∃ first rest, segment.splitOn separatorUnix = first :: rest ∧ first ≠ [] := by
  cases segment with
  | nil => exact absurd rfl segment_ne
  | cons letter segment =>
    have letter_ne : letter ≠ separatorUnix := fun same => by
      subst same
      cases relative
    have absent : separatorUnix ∉ [letter] := fun member =>
      letter_ne (List.mem_singleton.mp member).symm
    have split_eq := Strings.splitOn_append_of_notMem absent segment
    cases parts : segment.splitOn separatorUnix with
    | nil => exact absurd parts (List.splitOn_ne_nil _ _)
    | cons first rest =>
      rw [parts] at split_eq
      exact ⟨letter :: first, rest, split_eq, List.cons_ne_nil _ _⟩

theorem foldl_glued_iff {below : List (List Char)} (below_plain : ∀ other ∈ below, Plain other)
    (plain : Plain name) (backslash : name.getLast? = some separatorWindows)
    (relative : isAbsolute segment = false) (segment_ne : segment ≠ []) :
    ((name ++ segment).splitOn separatorUnix).foldl (advance true) below =
        (segment.splitOn separatorUnix).foldl (advance true) (name :: below) ↔
      Erased (below.reverse ++ [name]) segment := by
  obtain ⟨first, rest, split_eq, first_ne⟩ := exists_splitOn_cons relative segment_ne
  have undivided (part : List Char) (member : part ∈ first :: rest) : separatorUnix ∉ part :=
    (Strings.of_mem_splitOn (split_eq ▸ member)).1
  have glued_plain := plain_glued plain backslash (undivided first List.mem_cons_self)
  have glued := glued_iff below_plain plain backslash first_ne
    (undivided first List.mem_cons_self)
    fun part member => undivided part (List.mem_cons_of_mem first member)
  rw [Erased, Strings.splitOn_append_of_notMem plain.undivided, split_eq, List.modifyHead_cons,
    List.foldl_cons, List.foldl_cons, advance_plain glued_plain, glued, List.length_append,
    List.length_reverse, List.length_singleton]

theorem exists_last_segment (absolute : isAbsolute text = true) :
    ∃ front last, text = front ++ separatorUnix :: last ∧ separatorUnix ∉ last := by
  have present : separatorUnix ∈ text.reverse :=
    List.mem_reverse.mpr (List.mem_of_head? (eq_of_beq absolute))
  obtain ⟨last, front, reverse_eq, undivided⟩ := List.eq_append_cons_of_mem present
  refine ⟨front.reverse, last.reverse, ?_, fun member => undivided (List.mem_reverse.mp member)⟩
  have text_eq := congrArg List.reverse reverse_eq
  rw [List.reverse_reverse, List.reverse_append, List.reverse_cons, List.append_assoc,
    List.singleton_append] at text_eq
  exact text_eq

variable {last : List Char}

theorem getLast?_last_segment (front : List Char) (last_ne : last ≠ []) :
    (front ++ separatorUnix :: last).getLast? = last.getLast? := by
  rw [List.getLast?_append_of_ne_nil _ (List.cons_ne_nil _ _), List.getLast?_cons_of_ne_nil last_ne]

theorem reduced_glued {front : List Char}
    (absolute : isAbsolute (front ++ separatorUnix :: last) = true) (segment : List Char) :
    reduced (front ++ separatorUnix :: last ++ segment) =
      (((last ++ segment).splitOn separatorUnix).foldl (advance true)
        ((front.splitOn separatorUnix).foldl (advance true) [])).reverse := by
  rw [reduced, isAbsolute_append absolute, List.append_assoc, List.cons_append,
    List.splitOn_append_cons_self, List.foldl_append]

theorem reverse_reduced {front : List Char}
    (absolute : isAbsolute (front ++ separatorUnix :: last) = true)
    (undivided : separatorUnix ∉ last) :
    (reduced (front ++ separatorUnix :: last)).reverse =
      advance true ((front.splitOn separatorUnix).foldl (advance true) []) last := by
  have whole := reduced_glued absolute []
  rw [List.append_nil, List.append_nil, List.splitOn_eq_singleton undivided] at whole
  rw [whole, List.reverse_reverse, List.foldl_cons, List.foldl_nil]

section

variable (absolute : isAbsolute text = true) (relative : isAbsolute segment = false)
include absolute relative

theorem joined_of_relative (segment_ne : segment ≠ []) :
    joined text segment =
      if text.getLast? ≠ some separatorUnix ∧ text.getLast? ≠ some separatorWindows then
        text ++ separatorUnix :: segment
      else text ++ segment := by
  have text_ne : text ≠ [] := by
    rintro rfl
    cases absolute
  rw [joined, if_neg (by simp [relative, text_ne]), if_pos segment_ne]

theorem reduced_joined (segment_ne : segment ≠ [])
    (unescaped : text.getLast? ≠ some separatorWindows) :
    reduced (joined text segment) = reduced (text ++ separatorUnix :: segment) := by
  rw [joined_of_relative absolute relative segment_ne]
  split
  · rfl
  · rename_i closed
    obtain ⟨front, last, rfl, undivided⟩ := exists_last_segment absolute
    -- the text ends in a separator, so its last segment is empty
    have last_eq : last = [] := by
      by_contra last_ne
      refine closed ⟨fun same => undivided ?_, unescaped⟩
      exact List.mem_of_getLast? (getLast?_last_segment front last_ne ▸ same)
    subst last_eq
    rw [reduced_glued absolute, reduced_append absolute, reverse_reduced absolute undivided]
    rfl

theorem reduced_joined_iff (segment_ne : segment ≠ [])
    (backslash : text.getLast? = some separatorWindows) :
    reduced (joined text segment) = reduced (text ++ separatorUnix :: segment) ↔
      Erased (reduced text) segment := by
  rw [joined_of_relative absolute relative segment_ne, if_neg fun separate => separate.2 backslash]
  obtain ⟨front, last, rfl, undivided⟩ := exists_last_segment absolute
  have last_backslash : last.getLast? = some separatorWindows := by
    rw [← getLast?_last_segment front, backslash]
    rintro rfl
    rw [List.getLast?_concat] at backslash
    exact absurd backslash (by decide)
  have last_plain := plain_of_backslash (List.mem_of_getLast? last_backslash) undivided
  have stack_eq := reverse_reduced absolute undivided
  rw [advance_plain last_plain] at stack_eq
  have below_plain (other : List Char)
      (member : other ∈ (front.splitOn separatorUnix).foldl (advance true) []) : Plain other := by
    refine plain_of_mem_reduced absolute (List.mem_reverse.mp ?_)
    exact stack_eq ▸ List.mem_cons_of_mem last member
  have glued := foldl_glued_iff below_plain last_plain last_backslash relative segment_ne
  rw [reduced_glued absolute, reduced_append absolute, stack_eq, List.reverse_inj, glued,
    List.reverse_eq_iff.mp stack_eq, List.reverse_cons]

/-- Joining a relative segment to a text is normalising the text with a separator between, exactly
if the segment is not glued or leaves no trace of it. -/
theorem reference_joined_raw_iff :
    reference (joined text segment) = reference (extend text segment) ↔
      segment = [] ∨ text.getLast? ≠ some separatorWindows ∨ Erased (reduced text) segment := by
  have extend_eq : extend text segment = text ++ separatorUnix :: segment := by
    rw [extend, relative, if_neg (by decide)]
  rw [extend_eq, reference_eq_iff (isAbsolute_joined absolute segment)
    (isAbsolute_append absolute (separatorUnix :: segment))]
  by_cases segment_ne : segment = []
  · subst segment_ne
    refine iff_of_true ?_ (.inl rfl)
    have joined_eq : joined text [] = text := by
      have text_ne : text ≠ [] := by
        rintro rfl
        cases absolute
      simp [joined, isAbsolute, text_ne]
    rw [joined_eq, reduced_append absolute]
    exact (List.reverse_reverse _).symm
  by_cases backslash : text.getLast? = some separatorWindows
  · rw [reduced_joined_iff absolute relative segment_ne backslash]
    simp [segment_ne, backslash]
  · exact iff_of_true (reduced_joined absolute relative segment_ne backslash)
      (.inr (.inl backslash))

end

theorem getLast?_spell_iff {names : List (List Char)} (plain : ∀ name ∈ names, Plain name) :
    (spell true names).getLast? = some separatorWindows ↔ Escaped names := by
  by_cases empty : names = []
  · subst empty
    decide
  · obtain ⟨name, name_eq, final, -, last_eq, final_eq⟩ := getLast?_rooted plain empty
    rw [spell_eq_rooted empty, last_eq, Escaped, name_eq, Option.bind_some, final_eq]

theorem reference_joined_iff (absolute : isAbsolute text = true)
    (relative : isAbsolute segment = false) :
    reference (joined (reference text) segment) = reference (extend text segment) ↔
      Separates (reduced text) segment := by
  have plain (name : List Char) (member : name ∈ reduced text) : Plain name :=
    plain_of_mem_reduced absolute member
  have normal_absolute := isAbsolute_reference absolute
  have reduced_eq : reduced (reference text) = reduced text := by
    rw [reference_of_absolute absolute, reduced_spell plain]
  have extend_eq : reference (extend (reference text) segment) =
      reference (extend text segment) := by
    rw [extend, extend, relative, if_neg (by decide), if_neg (by decide),
      reference_eq_iff (isAbsolute_append normal_absolute _) (isAbsolute_append absolute _),
      reduced_append normal_absolute, reduced_append absolute, reduced_eq]
  rw [← extend_eq, reference_joined_raw_iff normal_absolute relative, reduced_eq, Separates,
    reference_of_absolute absolute, ne_eq, getLast?_spell_iff plain]

/-! ## All segments -/

variable (directories : Directories)

theorem joinAll_append (steps : Nat) (path : List Char) (front back : List (List Char)) :
    joinAll directories steps path (front ++ back) =
      (joinAll directories steps path front).bind fun middle =>
        joinAll directories steps middle back := by
  induction front generalizing path with
  | nil => rfl
  | cons segment front ih =>
    rw [List.cons_append, joinAll, joinAll, Option.bind_assoc]
    exact congrArg _ (funext ih)

theorem joined_of_absolute (absolute : isAbsolute segment = true) (existing : List Char) :
    joined existing segment = segment :=
  if_pos (.inl absolute)

theorem yields_join {directories : Directories} {existing result : List Char}
    (yields : Yields (normalize directories · (joined existing segment)) result) :
    Yields (join directories · existing segment) result :=
  yields.of_succ fun _ => rfl

variable {a : List Char}

theorem isAbsolute_foldl_extend (absolute : isAbsolute a = true) (segments : List (List Char)) :
    isAbsolute (segments.foldl extend a) = true := by
  induction segments generalizing a with
  | nil => exact absolute
  | cons segment segments ih =>
    refine ih ?_
    rw [extend]
    split
    · assumption
    · exact isAbsolute_append absolute _

theorem yields_concat {directories : Directories} {path : List Char} {front : List (List Char)}
    (absolute : isAbsolute path = true)
    (yields : Yields (joinVariadic directories · a front) path) (segment : List Char) :
    Yields (joinVariadic directories · a (front ++ [segment]))
      (reference (joined path segment)) := by
  have joined_absolute := isAbsolute_joined absolute segment
  have last := yields_join (yields_normalize directories (start_of_absolute joined_absolute))
  have whole : ∀ steps, joinVariadic directories steps a (front ++ [segment]) =
      (joinVariadic directories steps a front).bind fun middle =>
        join directories steps middle segment := by
    intro steps
    rw [joinVariadic, ← List.cons_append, joinAll_append]
    refine congrArg _ (funext fun middle => ?_)
    exact Option.bind_fun_some _
  exact (Yields.congr 0 fun steps _ => whole steps).mpr
    ((yields.bind_iff fun middle steps => join directories steps middle segment).mpr last)

theorem yields_join_absolute (absolute : isAbsolute segment = true) (existing : List Char) :
    Yields (join directories · existing segment) (reference segment) := by
  refine yields_join ?_
  rw [joined_of_absolute absolute]
  exact yields_normalize directories (start_of_absolute absolute)

section

variable (absolute : isAbsolute a = true)
include absolute

theorem yields_first : Yields (joinVariadic directories · a []) (reference a) :=
  ((yields_join_absolute directories absolute []).bind_iff fun next steps =>
    joinAll directories steps next []).mpr ⟨0, fun _ _ => rfl⟩

theorem exists_joined (segments : List (List Char)) :
    ∃ path, Yields (joinVariadic directories · a segments) path ∧ isAbsolute path = true := by
  induction segments using List.reverseRecOn with
  | nil => exact ⟨_, yields_first directories absolute, isAbsolute_reference absolute⟩
  | append_singleton front segment ih =>
    obtain ⟨path, yields, path_absolute⟩ := ih
    exact ⟨_, yields_concat path_absolute yields segment,
      isAbsolute_reference (isAbsolute_joined path_absolute segment)⟩

/-- The paths after each of the segments are the normal forms of the texts so far, exactly if no
segment is glued to a name before it so that it can be seen. -/
theorem joinVariadic_iff (segments : List (List Char)) :
    (∀ front, front <+: segments →
        Yields (joinVariadic directories · a front) (reference (front.foldl extend a))) ↔
      ∀ front segment, front ++ [segment] <+: segments → isAbsolute segment = false →
        Separates (reduced (front.foldl extend a)) segment := by
  have step (front : List (List Char)) (segment : List Char)
      (before : Yields (joinVariadic directories · a front) (reference (front.foldl extend a))) :
      Yields (joinVariadic directories · a (front ++ [segment]))
          (reference ((front ++ [segment]).foldl extend a)) ↔
        (isAbsolute segment = false → Separates (reduced (front.foldl extend a)) segment) := by
    have text_absolute := isAbsolute_foldl_extend absolute front
    have after := yields_concat (isAbsolute_reference text_absolute) before segment
    have text_eq : (front ++ [segment]).foldl extend a = extend (front.foldl extend a) segment := by
      rw [List.foldl_append]
      rfl
    rw [text_eq]
    cases segment_absolute : isAbsolute segment with
    | true =>
      refine iff_of_true ?_ nofun
      rw [joined_of_absolute segment_absolute] at after
      rwa [extend, if_pos segment_absolute]
    | false =>
      have exact_step := reference_joined_iff text_absolute segment_absolute
      constructor
      · exact fun extended _ => exact_step.mp (after.unique extended)
      · exact fun separates => exact_step.mpr (separates rfl) ▸ after
  constructor
  · intro every front segment within relative
    have before := every front ((List.prefix_append front [segment]).trans within)
    exact (step front segment before).mp (every _ within) relative
  · intro separates front within
    induction front using List.reverseRecOn with
    | nil => exact yields_first directories absolute
    | append_singleton front segment ih =>
      have before := ih ((List.prefix_append front [segment]).trans within)
      exact (step front segment before).mpr (separates front segment within)

theorem joinVariadic_restart (segment_absolute : isAbsolute segment = true)
    (front back : List (List Char)) (result : List Char) :
    Yields (joinVariadic directories · a (front ++ segment :: back)) result ↔
      Yields (joinVariadic directories · segment back) result := by
  obtain ⟨path, yields, path_absolute⟩ := exists_joined directories absolute front
  have whole (steps : Nat) : joinVariadic directories steps a (front ++ segment :: back) =
      (joinVariadic directories steps a front).bind fun middle =>
        joinAll directories steps middle (segment :: back) := by
    rw [joinVariadic, ← List.cons_append, joinAll_append]
    rfl
  calc Yields (joinVariadic directories · a (front ++ segment :: back)) result
      ↔ Yields (joinAll directories · path (segment :: back)) result :=
        (Yields.congr 0 fun steps _ => whole steps).trans
          (yields.bind_iff fun middle steps => joinAll directories steps middle (segment :: back))
    _ ↔ Yields (joinAll directories · (reference segment) back) result :=
        (yields_join_absolute directories segment_absolute path).bind_iff fun next steps =>
          joinAll directories steps next back
    _ ↔ Yields (joinVariadic directories · segment back) result :=
        ((yields_join_absolute directories segment_absolute []).bind_iff fun next steps =>
          joinAll directories steps next back).symm

end

/-- Joining is normalising the text of all segments exactly where nothing is glued to a name that
ends in a backslash so that it can be seen: for each number of segments, for `Join` with two
arguments, and with an absolute segment, which starts over. -/
theorem join_agrees_iff (directories : Directories) {a : List Char}
    (absolute : isAbsolute a = true) (segments : List (List Char)) :
    ((∀ front, front <+: segments →
        Agree (joinVariadic directories · a front)
          (normalize directories · (front.foldl extend a))) ↔
      ∀ front segment, front ++ [segment] <+: segments → isAbsolute segment = false →
        Separates (reduced (front.foldl extend a)) segment) ∧
    (∀ segment, isAbsolute segment = false →
      (Agree (join directories · a segment) (normalize directories · (extend a segment)) ↔
        segment = [] ∨ a.getLast? ≠ some separatorWindows ∨ Erased (reduced a) segment)) ∧
    (∀ front segment back, segments = front ++ segment :: back → isAbsolute segment = true →
      Agree (joinVariadic directories · a segments)
        (joinVariadic directories · segment back)) := by
  refine ⟨?_, ?_, ?_⟩
  · have normal (front : List (List Char)) :=
      yields_normalize directories (start_of_absolute (isAbsolute_foldl_extend absolute front))
    rw [← joinVariadic_iff directories absolute segments]
    exact forall₂_congr fun front _ => Fuel.agree_iff (normal front)
  · intro segment relative
    have extended_absolute : isAbsolute (extend a segment) = true :=
      isAbsolute_foldl_extend absolute [segment]
    have joining := yields_join
      (yields_normalize directories (start_of_absolute (isAbsolute_joined absolute segment)))
    rw [Fuel.agree_iff (yields_normalize directories (start_of_absolute extended_absolute)),
      ← reference_joined_raw_iff absolute relative]
    exact ⟨fun extended => joining.unique extended, fun same => same ▸ joining⟩
  · rintro front segment back rfl segment_absolute
    obtain ⟨result, yields, -⟩ := exists_joined directories segment_absolute back
    exact ⟨result, (joinVariadic_restart directories absolute segment_absolute front back
      result).mpr yields, yields⟩

/-- A parent step and a name below an absolute path. -/
theorem join_agrees_parent :
    Agree (joinVariadic inW · "/a".toList ["../b".toList, "c".toList])
      (normalize inW · "/a/../b/c".toList) := by
  refine (join_agrees_iff inW (by decide) ["../b".toList, "c".toList]).1.mpr ?_ _
    (List.prefix_refl _)
  intro front segment within _
  refine .inr (.inl ?_)
  rcases front with _ | ⟨first, _ | ⟨second, rest⟩⟩
  · decide
  · obtain rfl : first = "../b".toList := (List.cons_prefix_cons.mp within).1
    decide
  · have length_le := within.length_le
    simp at length_le

/-- The name `y` is glued to the name before it. -/
theorem join_glues :
    Yields (joinVariadic inW · "/x\\".toList ["y".toList, "z".toList]) "/x\\y/z".toList ∧
      Yields (normalize inW · "/x\\/y/z".toList) "/x\\/y/z".toList := by
  have first := yields_first inW (show isAbsolute "/x\\".toList = true by decide)
  have second := yields_concat (by decide) first "y".toList
  have third := yields_concat (by decide) second "z".toList
  have result_eq : reference (joined (reference (joined (reference "/x\\".toList) "y".toList))
      "z".toList) = "/x\\y/z".toList := by decide
  have normal := yields_normalize inW
    (start_of_absolute (show isAbsolute "/x\\/y/z".toList = true by decide))
  have normal_eq : reference "/x\\/y/z".toList = "/x\\/y/z".toList := by decide
  exact ⟨result_eq ▸ third, normal_eq ▸ normal⟩

end Fusion.PathUtil
