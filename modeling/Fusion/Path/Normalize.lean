import Fusion.Path.PathUtil

/-!
# Normal form of a path

A path denotes a stack of segments.  The loop of `Normalize` keeps the text of such a stack in front
of its current offset: the segments that it cannot remove any more end at the prefix offset.
-/

namespace Fusion.PathUtil

open Strings

/-- A segment without meaning. -/
def Skipped (segment : List Char) : Prop :=
  segment = [] ∨ segment = pathDot ∨ segment = pathTilde

instance (segment : List Char) : Decidable (Skipped segment) :=
  inferInstanceAs (Decidable (_ ∨ _))

/-- The stack, top first, after one more segment. -/
def reduce (absolute : Bool) (stack : List (List Char)) (segment : List Char) : List (List Char) :=
  if segment = pathDoubleDot then
    match stack with
    | [] => if absolute then [] else [segment]
    | top :: below => if top = pathDoubleDot then segment :: top :: below else below
  else segment :: stack

/-- The stack after one more segment of any kind. -/
def advance (absolute : Bool) (stack : List (List Char)) (segment : List Char) : List (List Char) :=
  if Skipped segment then stack else reduce absolute stack segment

/-- The text before the first segment. -/
def root (absolute : Bool) : List Char := if absolute then [separatorUnix] else []

/-- The normal form of a path by its segments. -/
def reference (path : List Char) : List Char :=
  let absolute := isAbsolute path
  let kept := (path.splitOn separatorUnix).filter fun segment => ¬ Skipped segment
  root absolute ++ [separatorUnix].intercalate (kept.foldl (reduce absolute) []).reverse

variable {path : List Char}

theorem isNormalizedRoot_of_last (last_ne : path.getLast? ≠ some separatorUnix) :
    isNormalizedRoot path = false := by
  rw [isNormalizedRoot, beq_eq_false_iff_ne]
  rintro rfl
  exact last_ne rfl

theorem trim_eq_self (last_ne : path.getLast? ≠ some separatorUnix) : trim path = path := by
  simp [trim, last_ne, isNormalizedRoot_of_last last_ne]

theorem trim_concat_separator (nonempty : path ≠ [])
    (last_ne : path.getLast? ≠ some separatorUnix) : trim (path ++ [separatorUnix]) = path := by
  have not_root : isNormalizedRoot (path ++ [separatorUnix]) = false := by
    rw [isNormalizedRoot, beq_eq_false_iff_ne]
    intro rooted
    exact nonempty (List.append_cancel_right (rooted.trans (List.nil_append _).symm))
  simp [trim, not_root, isNormalizedRoot_of_last last_ne]

/-- A segment that names an entry of a directory. -/
structure Plain (segment : List Char) : Prop where
  unskipped : ¬ Skipped segment
  ne_doubleDot : segment ≠ pathDoubleDot
  undivided : separatorUnix ∉ segment

/-- A stack of segments in normal form: names over steps to a parent directory. -/
structure Stack (absolute : Bool) where
  /-- Names, top first. -/
  names : List (List Char)
  /-- The number of segments `..` below them. -/
  ups : Nat
  plain : ∀ name ∈ names, Plain name
  ups_eq_zero : absolute = true → ups = 0

theorem Cursor.eatSeparators_of_end {cursor : Cursor}
    (at_end : cursor.currentOffset = cursor.path.length) : cursor.eatSeparators = cursor := by
  have erase_eq : erase cursor.path cursor.currentOffset 0 = cursor.path :=
    List.take_append_drop ..
  have drop_eq : cursor.path.drop cursor.currentOffset = [] := by
    rw [at_end, List.drop_length]
  simp only [eatSeparators, drop_eq, List.takeWhile_nil, List.length_nil, erase_eq]

theorem foldl_advance_dropWhile (absolute : Bool) (stack : List (List Char)) (text : List Char) :
    ((text.dropWhile (· == separatorUnix)).splitOn separatorUnix).foldl (advance absolute) stack =
      (text.splitOn separatorUnix).foldl (advance absolute) stack := by
  induction text with
  | nil => rfl
  | cons first text ih =>
    rw [List.dropWhile_cons]
    split
    · rename_i separator
      obtain rfl := eq_of_beq separator
      have split_eq := @List.splitOn_append_cons_self _ _ _ separatorUnix [] text
      rw [List.nil_append] at split_eq
      rw [ih, split_eq]
      rfl
    · rfl

namespace Stack

/-- The segments, top first. -/
def segments {absolute : Bool} (stack : Stack absolute) : List (List Char) :=
  stack.names ++ List.replicate stack.ups pathDoubleDot

/-- The text that no `..` removes. -/
def base {absolute : Bool} (stack : Stack absolute) : List Char :=
  root absolute ++ terminated separatorUnix (List.replicate stack.ups pathDoubleDot)

/-- The text of the stack, with a separator after each segment. -/
def text {absolute : Bool} (stack : Stack absolute) : List Char :=
  stack.base ++ terminated separatorUnix stack.names.reverse

/-- The cursor between the text of the stack and what is left to read. -/
def cursor {absolute : Bool} (stack : Stack absolute) (rest : List Char) : Cursor where
  path := stack.text ++ rest
  prefixOffset := stack.base.length
  currentOffset := stack.text.length

variable {absolute : Bool}

theorem text_eq_terminated (stack : Stack absolute) :
    stack.text = root absolute ++ terminated separatorUnix stack.segments.reverse := by
  rw [text, base, segments, List.reverse_append, List.reverse_replicate,
    terminated_append, List.append_assoc]

variable {segment : List Char}

theorem undivided_of_mem (stack : Stack absolute) (member : segment ∈ stack.segments) :
    segment ≠ [] ∧ separatorUnix ∉ segment := by
  rw [segments, List.mem_append] at member
  cases member with
  | inl name =>
    have plain := stack.plain segment name
    exact ⟨fun empty => plain.unskipped (.inl empty), plain.undivided⟩
  | inr up =>
    obtain rfl := List.eq_of_mem_replicate up
    decide

theorem text_eq_concat (stack : Stack absolute) (nonempty : stack.text ≠ []) :
    ∃ front, stack.text = front ++ [separatorUnix] := by
  rw [text_eq_terminated] at nonempty ⊢
  cases segments_eq : stack.segments with
  | nil =>
    rw [segments_eq] at nonempty
    cases absolute with
    | false => exact absurd rfl nonempty
    | true => exact ⟨[], rfl⟩
  | cons top below =>
    refine ⟨root absolute ++ (terminated separatorUnix below.reverse ++ top), ?_⟩
    rw [List.reverse_cons, terminated_append, terminated_singleton]
    simp only [List.append_assoc]

/-- A cursor behind the text of a stack, where the last segment may lack its separator. -/
inductive Reaches {absolute : Bool} (stack : Stack absolute) (tail rest : List Char)
    (cursor : Cursor) : Prop
  | closed (cursor_eq : cursor = stack.cursor rest)
  | opened (front : List Char) (tail_eq : tail = []) (nonempty : stack.segments ≠ [])
      (text_eq : stack.text = front ++ [separatorUnix]) (path_eq : cursor.path = front ++ rest)
      (currentOffset_eq : cursor.currentOffset = front.length)

variable {stack : Stack absolute}

theorem reaches_of_text_eq {next : Stack absolute} {tail rest : List Char} {prefixOffset : Nat}
    (tail_eq : tail = [] ∨ tail = [separatorUnix]) (nonempty : next.segments ≠ [])
    (text_eq : next.text = stack.text ++ (segment ++ [separatorUnix]))
    (prefix_eq : tail = [separatorUnix] → prefixOffset = next.base.length) :
    next.Reaches tail rest
      { path := stack.text ++ (segment ++ (tail ++ rest))
        prefixOffset
        currentOffset := stack.text.length + (segment.length + tail.length) } := by
  cases tail_eq with
  | inl tail_eq =>
    subst tail_eq
    refine .opened (stack.text ++ segment) rfl nonempty ?_ ?_ ?_
    · rw [text_eq, List.append_assoc]
    · simp
    · simp
  | inr tail_eq =>
    refine .closed ?_
    rw [cursor, text_eq, prefix_eq tail_eq, tail_eq]
    simp

/-- A step to the parent directory on top of others. -/
def up {absolute : Bool} (stack : Stack absolute) (relative : absolute = false) :
    Stack absolute where
  names := []
  ups := stack.ups + 1
  plain := nofun
  ups_eq_zero := by
    intro rooted
    rw [relative] at rooted
    cases rooted

/-- A name on top. -/
def push {absolute : Bool} (stack : Stack absolute) (name : List Char) (plain : Plain name) :
    Stack absolute where
  names := name :: stack.names
  ups := stack.ups
  plain := by
    intro other member
    cases List.mem_cons.mp member with
    | inl same => exact same ▸ plain
    | inr below => exact stack.plain other below
  ups_eq_zero := stack.ups_eq_zero

theorem text_push (stack : Stack absolute) (name : List Char) (plain : Plain name) :
    (stack.push name plain).text = stack.text ++ (name ++ [separatorUnix]) := by
  simp only [text, push, base, List.reverse_cons, terminated_append,
    terminated_singleton, List.append_assoc]

theorem text_up (relative : absolute = false) (nameless : stack.names = []) :
    (stack.up relative).text = stack.text ++ (pathDoubleDot ++ [separatorUnix]) := by
  simp only [text, up, base, nameless, List.reverse_nil, List.replicate_succ',
    terminated_append, terminated_singleton, List.append_assoc]
  simp [terminated]

theorem isNormalizedRoot_text (stack : Stack absolute) :
    isNormalizedRoot stack.text = (absolute && stack.segments.isEmpty) := by
  rw [text_eq_terminated]
  cases segments_eq : stack.segments with
  | nil =>
    cases absolute with
    | false => rfl
    | true => rfl
  | cons top below =>
    have top_nonempty : top ≠ [] :=
      (stack.undivided_of_mem (segments_eq ▸ List.mem_cons_self)).1
    have length_pos : 0 < top.length := List.length_pos_iff.mpr top_nonempty
    rw [List.isEmpty_cons, Bool.and_false, isNormalizedRoot, beq_eq_false_iff_ne]
    intro rooted
    have length_eq := congrArg List.length rooted
    rw [List.reverse_cons, terminated_append, terminated_singleton] at length_eq
    simp only [List.length_append, List.length_singleton] at length_eq
    omega

theorem erase_cursor (stack : Stack absolute) (segment tail rest : List Char) :
    { stack.cursor (segment ++ (tail ++ rest)) with
      path := erase (stack.text ++ (segment ++ (tail ++ rest))) stack.text.length
        (segment.length + tail.length) } = stack.cursor rest := by
  have erased := erase_append stack.text (segment ++ tail) rest
  rw [List.append_assoc, List.length_append] at erased
  rw [erased]
  rfl

theorem take_cursor (stack : Stack absolute) (rest : List Char) :
    (stack.cursor rest).path.take (stack.cursor rest).currentOffset = stack.text := by
  simp [cursor]

theorem erase_name (below : Stack absolute) (top tail rest : List Char) :
    erase (below.text ++ (top ++ (separatorUnix :: (pathDoubleDot ++ (tail ++ rest)))))
      below.text.length ((top.length + 1) + (pathDoubleDot.length + tail.length)) =
        below.text ++ rest := by
  have cut := erase_append below.text
    (top ++ (separatorUnix :: (pathDoubleDot ++ tail))) rest
  simp only [List.append_assoc, List.cons_append, List.length_append, List.length_cons] at cut
  rw [← cut]
  congr 1
  omega

variable {top : List Char}

theorem rfind_name (below : Stack absolute) (plain : Plain top) (rest : List Char) :
    below.text = [] ∧
        rfind (below.text ++ (top ++ (separatorUnix :: rest))) separatorUnix
          (below.text.length + (top.length + 1) - 2) = none ∨
      ∃ front, below.text.length = front + 1 ∧
        rfind (below.text ++ (top ++ (separatorUnix :: rest))) separatorUnix
          (below.text.length + (top.length + 1) - 2) = some front := by
  have top_pos : 0 < top.length :=
    List.length_pos_iff.mpr fun empty => plain.unskipped (.inl empty)
  by_cases empty : below.text = []
  · refine .inl ⟨empty, ?_⟩
    rw [empty, List.nil_append, List.length_nil]
    exact rfind_append_of_notMem plain.undivided _ (by omega)
  · obtain ⟨front, front_eq⟩ := below.text_eq_concat empty
    have front_length : below.text.length = front.length + 1 := by
      rw [front_eq]
      simp
    refine .inr ⟨front.length, front_length, ?_⟩
    rw [front_length, show front.length + 1 + (top.length + 1) - 2 = front.length + top.length by
      omega, front_eq, List.append_assoc, List.singleton_append]
    exact rfind_append plain.undivided _

/-- `..` removes the name before it with its separator. -/
theorem consume_doubleDot_push (below : Stack absolute) (plain : Plain top)
    (tail rest : List Char) :
    ((below.push top plain).cursor (pathDoubleDot ++ (tail ++ rest))).consume pathDoubleDot
        (pathDoubleDot.length + tail.length) = below.cursor rest := by
  have segments_ne : (below.push top plain).segments ≠ [] := List.cons_ne_nil _ _
  have not_root : isNormalizedRoot (below.push top plain).text = false := by
    rw [isNormalizedRoot_text, List.isEmpty_eq_false_iff.mpr segments_ne, Bool.and_false]
  have base_eq : (below.push top plain).base = below.base := rfl
  have text_length : (below.push top plain).text.length = below.text.length + (top.length + 1) := by
    rw [text_push]
    simp
  have base_le : below.base.length ≤ below.text.length := by
    simp [text]
  have above_base : (below.push top plain).text.length ≠ below.base.length := by omega
  have path_eq : (below.push top plain).text ++ (pathDoubleDot ++ (tail ++ rest)) =
      below.text ++ (top ++ (separatorUnix :: (pathDoubleDot ++ (tail ++ rest)))) := by
    rw [text_push]
    simp
  have erased := erase_name below top tail rest
  unfold Cursor.consume
  rw [if_neg (by decide), if_pos rfl]
  dsimp only
  rw [take_cursor, if_neg (by simp [not_root]),
    if_neg (by simpa [cursor, base_eq] using above_base)]
  simp only [cursor, base_eq, path_eq, text_length]
  rcases rfind_name below plain (pathDoubleDot ++ (tail ++ rest)) with
    ⟨empty, not_found⟩ | ⟨front, front_length, found⟩
  · have base_eq_text : below.base.length = below.text.length := by
      rw [empty, List.length_nil] at base_le ⊢
      omega
    rw [not_found]
    simp only [base_eq_text, Nat.add_sub_cancel_left, erased]
  · rw [found]
    simp only [← front_length, Nat.add_sub_cancel_left, erased]

theorem advance_doubleDot_of_nameless (nameless : stack.names = []) :
    advance absolute stack.segments pathDoubleDot =
      if absolute then stack.segments else pathDoubleDot :: stack.segments := by
  have segments_eq : stack.segments = List.replicate stack.ups pathDoubleDot := by
    rw [segments, nameless, List.nil_append]
  rw [advance, if_neg (by decide), segments_eq]
  cases ups_eq : stack.ups with
  | zero => rfl
  | succ ups =>
    cases absolute with
    | false => rfl
    | true => cases ups_eq.symm.trans (stack.ups_eq_zero rfl)

theorem exists_eq_push {names : List (List Char)} (names_eq : stack.names = top :: names) :
    ∃ (below : Stack absolute) (plain : Plain top), stack = below.push top plain := by
  obtain ⟨_, ups, plain, ups_eq_zero⟩ := stack
  subst names_eq
  exact ⟨⟨names, ups, fun name member => plain name (List.mem_cons_of_mem top member),
    ups_eq_zero⟩, plain top List.mem_cons_self, rfl⟩

/-- `..` where no name is before it: the root absorbs it, and a relative path keeps it. -/
theorem consume_doubleDot_nameless (nameless : stack.names = []) {tail : List Char}
    (tail_eq : tail = [] ∨ tail = [separatorUnix]) (rest : List Char) :
    ∃ next : Stack absolute, next.segments = advance absolute stack.segments pathDoubleDot ∧
      next.Reaches tail rest
        ((stack.cursor (pathDoubleDot ++ (tail ++ rest))).consume pathDoubleDot
          (pathDoubleDot.length + tail.length)) := by
  rw [Cursor.consume, if_neg (by decide), if_pos rfl]
  dsimp only
  rw [take_cursor, advance_doubleDot_of_nameless nameless]
  cases absolute with
  | true =>
    have segments_eq : stack.segments = [] := by
      rw [segments, nameless, stack.ups_eq_zero rfl]
      rfl
    have rooted : isNormalizedRoot stack.text = true := by
      rw [isNormalizedRoot_text, segments_eq]
      rfl
    refine ⟨stack, rfl, .closed ?_⟩
    rw [if_pos rooted]
    exact stack.erase_cursor pathDoubleDot tail rest
  | false =>
    have not_root : isNormalizedRoot stack.text = false := isNormalizedRoot_text stack
    have text_eq : stack.text = stack.base := by
      rw [text, nameless]
      exact List.append_nil _
    have up_text_eq : (stack.up rfl).text = (stack.up rfl).base := List.append_nil _
    refine ⟨stack.up rfl, ?_, ?_⟩
    · rw [segments, segments, nameless]
      rfl
    · have at_prefix : stack.text.length =
          (stack.cursor (pathDoubleDot ++ (tail ++ rest))).prefixOffset :=
        congrArg List.length text_eq
      rw [if_neg (ne_true_of_eq_false not_root), if_pos at_prefix]
      refine reaches_of_text_eq tail_eq (List.cons_ne_nil _ _) (text_up rfl nameless) ?_
      intro separated
      rw [← up_text_eq, text_up rfl nameless, cursor, ← text_eq, separated]
      simp

/-- Consuming a segment advances the stack in front of the cursor by it. -/
theorem consume_reaches {absolute : Bool} (stack : Stack absolute) {segment tail : List Char}
    (undivided : separatorUnix ∉ segment) (tail_eq : tail = [] ∨ tail = [separatorUnix])
    (rest : List Char) :
    ∃ next : Stack absolute, next.segments = advance absolute stack.segments segment ∧
      next.Reaches tail rest
        ((stack.cursor (segment ++ (tail ++ rest))).consume segment
          (segment.length + tail.length)) := by
  by_cases skipped : Skipped segment
  · refine ⟨stack, (if_pos skipped).symm, .closed ?_⟩
    exact (if_pos skipped).trans (stack.erase_cursor segment tail rest)
  by_cases doubleDot : segment = pathDoubleDot
  · subst doubleDot
    cases names_eq : stack.names with
    | nil => exact consume_doubleDot_nameless names_eq tail_eq rest
    | cons top names =>
      obtain ⟨below, plain, rfl⟩ := exists_eq_push names_eq
      refine ⟨below, ?_, .closed (below.consume_doubleDot_push plain tail rest)⟩
      exact (if_neg plain.ne_doubleDot).symm
  · have plain : Plain segment := ⟨skipped, doubleDot, undivided⟩
    have consume_eq : (stack.cursor (segment ++ (tail ++ rest))).consume segment
        (segment.length + tail.length) =
          { path := stack.text ++ (segment ++ (tail ++ rest))
            prefixOffset := stack.base.length
            currentOffset := stack.text.length + (segment.length + tail.length) } :=
      (if_neg skipped).trans (if_neg doubleDot)
    refine ⟨stack.push segment plain, ?_, ?_⟩
    · exact ((if_neg skipped).trans (if_neg doubleDot)).symm
    · rw [consume_eq]
      exact reaches_of_text_eq tail_eq (List.cons_ne_nil _ _) (text_push stack segment plain)
        fun _ => rfl

theorem eatSeparators_cursor (stack : Stack absolute) (rest : List Char) :
    (stack.cursor rest).eatSeparators = stack.cursor (rest.dropWhile (· == separatorUnix)) := by
  have drop_eq : (stack.text ++ rest).drop stack.text.length = rest := List.drop_left
  have erased := erase_append stack.text (rest.takeWhile (· == separatorUnix))
    (rest.dropWhile (· == separatorUnix))
  rw [List.takeWhile_append_dropWhile] at erased
  simp only [Cursor.eatSeparators, cursor, drop_eq, erased]

/-- One round of the loop consumes the segment at the cursor. -/
theorem iterate_eq {absolute : Bool} (stack : Stack absolute) {segment tail rest : List Char}
    (undivided : separatorUnix ∉ segment)
    (tail_eq : tail = [] ∧ rest = [] ∨ tail = [separatorUnix]) {next : Cursor}
    (next_eq : ((stack.cursor (segment ++ (tail ++ rest))).consume segment
      (segment.length + tail.length)).eatSeparators = next) :
    (stack.cursor (segment ++ (tail ++ rest))).iterate =
      (next, tail.isEmpty || next.currentOffset == next.path.length) := by
  have drop_eq : (stack.text ++ (segment ++ (tail ++ rest))).drop stack.text.length =
      segment ++ (tail ++ rest) := List.drop_left
  have take_eq : (segment ++ (tail ++ rest)).take segment.length = segment := List.take_left
  cases tail_eq with
  | inl tail_eq =>
    obtain ⟨rfl, rfl⟩ := tail_eq
    have find_eq : find (stack.text ++ segment) separatorUnix stack.text.length = none :=
      find_append_of_notMem undivided
    have index_eq : (stack.text ++ segment)[stack.text.length + segment.length]? = none :=
      List.getElem?_eq_none (Nat.le_of_eq List.length_append)
    simp only [List.append_nil, List.length_nil, Nat.add_zero] at next_eq drop_eq take_eq ⊢
    simp only [cursor] at next_eq
    simp only [Cursor.iterate, cursor, find_eq, drop_eq, List.length_append,
      Nat.add_sub_cancel_left, List.take_length, index_eq, reduceCtorEq, if_false, Nat.add_zero,
      next_eq]
    rfl
  | inr tail_eq =>
    subst tail_eq
    have find_eq : find (stack.text ++ (segment ++ ([separatorUnix] ++ rest)))
        separatorUnix stack.text.length = some (stack.text.length + segment.length) :=
      find_append_cons undivided rest
    have index_eq : (stack.text ++ (segment ++ ([separatorUnix] ++ rest)))[
        stack.text.length + segment.length]? = some separatorUnix := by
      simp
    have length_eq : min segment.length ((stack.text ++ (segment ++ ([separatorUnix] ++
        rest))).length - stack.text.length) = segment.length := by
      rw [List.length_append, Nat.add_sub_cancel_left, List.length_append]
      exact Nat.min_eq_left (Nat.le_add_right ..)
    simp only [cursor, List.length_singleton] at next_eq
    simp only [Cursor.iterate, cursor, find_eq, drop_eq, Nat.add_sub_cancel_left, length_eq,
      index_eq, take_eq, if_true, next_eq]
    rfl

theorem iterate_separated (stack : Stack absolute) (undivided : separatorUnix ∉ segment)
    (rest : List Char) :
    ∃ next : Stack absolute, next.segments = advance absolute stack.segments segment ∧
      (stack.cursor (segment ++ separatorUnix :: rest)).iterate =
        (next.cursor (rest.dropWhile (· == separatorUnix)),
          (rest.dropWhile (· == separatorUnix)).isEmpty) := by
  obtain ⟨next, segments_eq, reaches⟩ :=
    @consume_reaches _ stack _ [separatorUnix] undivided (.inr rfl) rest
  cases reaches with
  | closed cursor_eq =>
    refine ⟨next, segments_eq, ?_⟩
    have round := stack.iterate_eq undivided (.inr rfl)
      ((congrArg Cursor.eatSeparators cursor_eq).trans (next.eatSeparators_cursor rest))
    refine round.trans (congrArg _ ?_)
    cases rest.dropWhile (· == separatorUnix) with
    | nil => simp [cursor]
    | cons first rest => simp [cursor]
  | opened front tail_eq => cases tail_eq

/-- A path that shows the stack, perhaps with a separator after its last segment. -/
def Shows {absolute : Bool} (stack : Stack absolute) (path : List Char) : Prop :=
  path = stack.text ∨ stack.segments ≠ [] ∧ stack.text = path ++ [separatorUnix]

theorem iterate_last (stack : Stack absolute) (undivided : separatorUnix ∉ segment) :
    ∃ next : Stack absolute, next.segments = advance absolute stack.segments segment ∧
      ∃ cursor, (stack.cursor segment).iterate = (cursor, true) ∧ next.Shows cursor.path := by
  obtain ⟨next, segments_eq, reaches⟩ := stack.consume_reaches undivided (.inl rfl) []
  refine ⟨next, segments_eq, ?_⟩
  have round := stack.iterate_eq undivided (.inl ⟨rfl, rfl⟩) rfl
  rw [List.append_nil, List.append_nil] at round reaches
  refine ⟨_, round, ?_⟩
  cases reaches with
  | closed cursor_eq =>
    rw [cursor_eq, eatSeparators_cursor]
    exact .inl (List.append_nil _)
  | opened front _ nonempty text_eq path_eq currentOffset_eq =>
    rw [List.append_nil] at path_eq
    have at_end := currentOffset_eq.trans (congrArg List.length path_eq).symm
    rw [Cursor.eatSeparators_of_end at_end, path_eq]
    exact .inr ⟨nonempty, text_eq⟩

/-- The loop ends, with a path that shows the stack advanced by every segment. -/
theorem loop_shows (steps : Nat) (stack : Stack absolute) (rest : List Char)
    (enough : rest.length < steps) :
    ∃ final : Stack absolute,
      final.segments = (rest.splitOn separatorUnix).foldl (advance absolute) stack.segments ∧
      ∃ path, (stack.cursor rest).loop steps = some path ∧ final.Shows path := by
  induction steps generalizing stack rest with
  | zero => exact absurd enough (Nat.not_lt_zero _)
  | succ steps ih =>
    by_cases separated : separatorUnix ∈ rest
    case neg =>
      obtain ⟨next, segments_eq, cursor, round, shows_path⟩ := stack.iterate_last separated
      refine ⟨next, ?_, cursor.path, ?_, shows_path⟩
      · rw [List.splitOn_eq_singleton separated]
        exact segments_eq
      · rw [Cursor.loop, round]
    case pos =>
      obtain ⟨segment, back, rfl, undivided⟩ := List.eq_append_cons_of_mem separated
      obtain ⟨next, segments_eq, round⟩ := stack.iterate_separated undivided back
      have fold_eq : ((segment ++ separatorUnix :: back).splitOn separatorUnix).foldl
          (advance absolute) stack.segments =
            ((back.dropWhile (· == separatorUnix)).splitOn separatorUnix).foldl
              (advance absolute) next.segments := by
        rw [List.splitOn_append_cons_self_of_not_mem undivided, segments_eq,
          foldl_advance_dropWhile]
        rfl
      have length_le : (back.dropWhile (· == separatorUnix)).length ≤ back.length :=
        (List.dropWhile_suffix _).length_le
      rw [List.length_append, List.length_cons] at enough
      rw [fold_eq, Cursor.loop, round]
      cases left_eq : back.dropWhile (· == separatorUnix) with
      | nil => exact ⟨next, rfl, next.text, by simp [cursor], .inl rfl⟩
      | cons first left =>
        rw [left_eq] at length_le
        exact ih next (first :: left) (by omega)

/-- Trimming a path that shows a stack leaves its segments with separators between them. -/
theorem trim_of_shows (shows_path : stack.Shows path) :
    trim path = root absolute ++ [separatorUnix].intercalate stack.segments.reverse := by
  cases segments_eq : stack.segments with
  | nil =>
    cases shows_path with
    | inl closed =>
      rw [closed, text_eq_terminated, segments_eq]
      cases absolute with
      | false => rfl
      | true => rfl
    | inr opened => exact absurd segments_eq opened.1
  | cons top below =>
    have reverse_ne : (top :: below).reverse ≠ [] := by simp
    have top_undivided := stack.undivided_of_mem (segments_eq ▸ List.mem_cons_self)
    generalize joined_eq : root absolute ++ [separatorUnix].intercalate (top :: below).reverse =
      joined
    have text_eq : stack.text = joined ++ [separatorUnix] := by
      rw [← joined_eq, text_eq_terminated, segments_eq,
        terminated_eq_intercalate separatorUnix reverse_ne, List.append_assoc]
    have joined_end : joined =
        (root absolute ++ terminated separatorUnix below.reverse) ++ top := by
      have both := text_eq.symm.trans stack.text_eq_terminated
      rw [segments_eq, List.reverse_cons, terminated_append,
        terminated_singleton, ← List.append_assoc, ← List.append_assoc] at both
      exact List.append_cancel_right both
    have last_ne : joined.getLast? ≠ some separatorUnix := by
      intro last
      rw [joined_end, List.getLast?_append_of_ne_nil _ top_undivided.1] at last
      exact top_undivided.2 (List.mem_of_getLast? last)
    have nonempty : joined ≠ [] := by
      rw [joined_end]
      exact List.append_ne_nil_of_right_ne_nil _ top_undivided.1
    cases shows_path with
    | inl closed =>
      rw [closed, text_eq]
      exact trim_concat_separator nonempty last_ne
    | inr opened =>
      rw [List.append_cancel_right (opened.2.symm.trans text_eq)]
      exact trim_eq_self last_ne

end Stack

theorem reference_eq_foldl_advance (path : List Char) :
    reference path = root (isAbsolute path) ++ [separatorUnix].intercalate
      ((path.splitOn separatorUnix).foldl (advance (isAbsolute path)) []).reverse := by
  have step_eq : (fun (stack : List (List Char)) (segment : List Char) =>
      if decide (¬ Skipped segment) = true then reduce (isAbsolute path) stack segment else stack) =
        advance (isAbsolute path) := by
    funext stack segment
    by_cases skipped : Skipped segment
    · simp [advance, skipped]
    · simp [advance, skipped]
  simp only [reference, List.foldl_filter, step_eq]

/-- The empty stack. -/
def emptyStack (absolute : Bool) : Stack absolute where
  names := []
  ups := 0
  plain := nofun
  ups_eq_zero _ := rfl

/-- Without a special first segment, enough steps give the reference. -/
theorem normalizeSegments_eq {steps : Nat} (enough : path.length < steps) :
    normalizeSegments steps path = some (reference path) := by
  rw [reference_eq_foldl_advance]
  cases absolute_eq : isAbsolute path with
  | false =>
    have head_ne : path.head? ≠ some separatorUnix := by simpa [isAbsolute] using absolute_eq
    obtain ⟨final, segments_eq, shown, loop_eq, shows_path⟩ :=
      (emptyStack false).loop_shows steps path enough
    have cursor_eq : (emptyStack false).cursor path =
        { path, prefixOffset := 0, currentOffset := 0 } := rfl
    simp only [normalizeSegments, head_ne, if_false, ← cursor_eq, loop_eq, Option.map_some,
      Stack.trim_of_shows shows_path, segments_eq]
    rfl
  | true =>
    cases path with
    | nil => cases absolute_eq
    | cons first rest =>
      have first_eq : first = separatorUnix := by simpa [isAbsolute] using absolute_eq
      subst first_eq
      obtain ⟨final, segments_eq, shown, loop_eq, shows_path⟩ :=
        (emptyStack true).loop_shows steps rest (Nat.lt_of_succ_lt enough)
      have cursor_eq : (emptyStack true).cursor rest =
          { path := separatorUnix :: rest, prefixOffset := 1, currentOffset := 1 } := rfl
      have split_eq := @List.splitOn_append_cons_self _ _ _ separatorUnix [] rest
      rw [List.nil_append] at split_eq
      simp only [normalizeSegments, List.head?_cons, if_true, ← cursor_eq, loop_eq,
        Option.map_some, Stack.trim_of_shows shows_path, segments_eq, split_eq]
      rfl

theorem reference_purgeTrailing (path : List Char) :
    reference (purgeTrailing path) = reference path ∧
      (purgeTrailing path).head? = path.head? ∧ (purgeTrailing path).length ≤ path.length := by
  fun_induction purgeTrailing path with
  | case1 path trailing ih =>
    obtain ⟨front, rfl⟩ : ∃ front, path = front ++ [separatorUnix] :=
      List.getLast?_eq_some_iff.mp trailing.2
    rw [List.dropLast_concat] at ih ⊢
    have front_ne : front ≠ [] := by
      rintro rfl
      exact absurd trailing.1 (by decide)
    have head_eq : (front ++ [separatorUnix]).head? = front.head? :=
      List.head?_append_of_ne_nil _ front_ne
    have absolute_eq : isAbsolute (front ++ [separatorUnix]) = isAbsolute front :=
      congrArg (· == some separatorUnix) head_eq
    refine ⟨ih.1.trans ?_, ih.2.1.trans head_eq.symm, Nat.le_trans ih.2.2 (by simp)⟩
    rw [reference_eq_foldl_advance, reference_eq_foldl_advance, absolute_eq,
      List.splitOn_append_cons_self, List.foldl_append]
    rfl
  | case2 path _ => exact ⟨rfl, rfl, Nat.le_refl _⟩

/-- What `Normalize` finds at the start of a path. -/
inductive Start
  | empty
  /-- A single dot. -/
  | cwd
  /-- A dot and then another one or a separator. -/
  | fromCwd
  /-- A single tilde. -/
  | home
  | fromHome
  | segments
deriving DecidableEq

/-- The start of a path without trailing separators. -/
def Start.of : List Char → Start
  | [] => .empty
  | ['.'] => .cwd
  | '.' :: second :: _ => if second = separatorUnix ∨ second = '.' then .fromCwd else .segments
  | ['~'] => .home
  | '~' :: _ => .fromHome
  | _ => .segments

def start (path : List Char) : Start := .of (purgeTrailing path)

theorem purgeTrailing_ne_nil (nonempty : path ≠ []) : purgeTrailing path ≠ [] := by
  intro purged
  have head_eq := (reference_purgeTrailing path).2.1
  rw [purged] at head_eq
  exact nonempty (List.head?_eq_none_iff.mp head_eq.symm)

/-- `Normalize` by the start of its path. -/
theorem normalize_succ (directories : Directories) (steps : Nat) (path : List Char) :
    normalize directories (steps + 1) path =
      match start path with
      | .empty => some []
      | .cwd => getCwdPath directories steps
      | .fromCwd =>
        (getCwdPath directories steps).bind fun cwd =>
          join directories steps cwd (purgeTrailing path)
      | .home => getHomePath directories steps
      | .fromHome =>
        (getHomePath directories steps).bind fun home =>
          join directories steps home (purgeTrailing path)
      | .segments => normalizeSegments steps (purgeTrailing path) := by
  rw [normalize, start]
  by_cases empty : path = []
  · subst empty
    rw [if_pos rfl, purgeTrailing, if_neg (by decide)]
    rfl
  have purged_ne := purgeTrailing_ne_nil empty
  rw [if_neg empty]
  generalize purgeTrailing path = purged at purged_ne
  split
  · rfl
  · split
    · rename_i special
      simp only [Start.of, if_pos special]
    · rename_i ordinary
      simp only [Start.of, if_neg ordinary]
  · rfl
  · rename_i rest rest_ne
    cases rest with
    | nil => exact absurd rfl rest_ne
    | cons second rest => rfl
  · rename_i ne_dot not_dotted ne_tilde not_tilded
    have start_eq : Start.of purged = .segments := by
      rw [Start.of.eq_def]
      split
      · exact absurd rfl purged_ne
      · exact absurd rfl ne_dot
      · exact absurd rfl (not_dotted _ _)
      · exact absurd rfl ne_tilde
      · exact absurd rfl (not_tilded _)
      · rfl
    rw [start_eq]

theorem normalize_of_segments (directories : Directories) (start_eq : start path = .segments)
    {steps : Nat} (enough : path.length + 1 < steps) :
    normalize directories steps path = some (reference path) := by
  obtain ⟨purged_eq, -, purged_le⟩ := reference_purgeTrailing path
  obtain ⟨steps, rfl⟩ : ∃ fewer, steps = fewer + 1 := ⟨steps - 1, by omega⟩
  rw [normalize_succ, start_eq, ← purged_eq]
  exact normalizeSegments_eq (by omega)

theorem Start.of_head {first : Char} (head_eq : path.head? = some first)
    (first_ne_dot : first ≠ '.') (first_ne_tilde : first ≠ '~') : Start.of path = .segments := by
  rw [Start.of.eq_def]
  split
  · cases head_eq
  · cases head_eq
    exact absurd rfl first_ne_dot
  · cases head_eq
    exact absurd rfl first_ne_dot
  · cases head_eq
    exact absurd rfl first_ne_tilde
  · cases head_eq
    exact absurd rfl first_ne_tilde
  · rfl

theorem start_of_head {first : Char} (head_eq : path.head? = some first)
    (first_ne_dot : first ≠ '.') (first_ne_tilde : first ≠ '~') : start path = .segments :=
  Start.of_head ((reference_purgeTrailing path).2.1.trans head_eq) first_ne_dot first_ne_tilde

/-- `Normalize` is the reference on every path whose first character is not special. -/
theorem normalize_eq_reference (directories : Directories) {path : List Char} {first : Char}
    (head_eq : path.head? = some first) (first_ne_dot : first ≠ '.') (first_ne_tilde : first ≠ '~')
    {steps : Nat} (enough : path.length + 1 < steps) :
    normalize directories steps path = some (reference path) :=
  normalize_of_segments directories (start_of_head head_eq first_ne_dot first_ne_tilde) enough

/-- Parent steps over two names of a relative path, and out of its start. -/
theorem normalize_eq_reference_relative :
    normalize ⟨[], none, [], [], none, none⟩ 20 "a/./b/../../..//c/".toList = some "../c".toList :=
  normalize_eq_reference ⟨[], none, [], [], none, none⟩ (show _ = some 'a' from rfl) (by decide)
    (by decide) (by decide)

end Fusion.PathUtil
