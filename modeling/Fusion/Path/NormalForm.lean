import Fusion.Library.Fuel
import Fusion.Path.Normalize

/-!
# Fixed points of the normal form

The normal form of an absolute path is the root followed by plain names.  Such a text splits into
its names again, so its own normal form is the text itself.
-/

namespace Fusion.PathUtil

open Fuel (Yields)

/-- The segments of the normal form of a path. -/
def reduced (path : List Char) : List (List Char) :=
  ((path.splitOn separatorUnix).foldl (advance (isAbsolute path)) []).reverse

/-- The text of segments below the root or below an unknown directory. -/
def spell (absolute : Bool) (segments : List (List Char)) : List Char :=
  root absolute ++ [separatorUnix].intercalate segments

theorem reference_eq_spell (path : List Char) :
    reference path = spell (isAbsolute path) (reduced path) :=
  reference_eq_foldl_advance path

/-! ## The segments that are left -/

variable {absolute : Bool}

theorem Stack.exists_foldl (stack : Stack absolute) {segments : List (List Char)}
    (undivided : ∀ segment ∈ segments, separatorUnix ∉ segment) :
    ∃ final : Stack absolute,
      final.segments = segments.foldl (advance absolute) stack.segments := by
  induction segments generalizing stack with
  | nil => exact ⟨stack, rfl⟩
  | cons segment segments ih =>
    obtain ⟨next, next_eq, -⟩ :=
      stack.consume_reaches (undivided segment List.mem_cons_self) (.inl rfl) []
    obtain ⟨final, final_eq⟩ := ih next fun other member =>
      undivided other (List.mem_cons_of_mem segment member)
    exact ⟨final, by rw [final_eq, next_eq, List.foldl_cons]⟩

theorem exists_stack (path : List Char) :
    ∃ stack : Stack (isAbsolute path), stack.segments = (reduced path).reverse := by
  obtain ⟨stack, stack_eq⟩ := (emptyStack (isAbsolute path)).exists_foldl
    fun segment (member : segment ∈ path.splitOn separatorUnix) =>
      (Strings.of_mem_splitOn member).1
  exact ⟨stack, stack_eq.trans (List.reverse_reverse _).symm⟩

variable {name path : List Char}

theorem plain_of_mem_reduced (absolute : isAbsolute path = true) (member : name ∈ reduced path) :
    Plain name := by
  obtain ⟨stack, stack_eq⟩ := exists_stack path
  rw [← List.mem_reverse, ← stack_eq, Stack.segments, stack.ups_eq_zero absolute,
    List.replicate_zero, List.append_nil] at member
  exact stack.plain name member

variable {segment : List Char}

theorem mem_of_mem_advance {stack : List (List Char)} {other : List Char}
    (member : other ∈ advance absolute stack segment) : other ∈ stack ∨ other = segment := by
  rw [advance, reduce.eq_def] at member
  split at member
  · exact .inl member
  split at member
  · cases stack with
    | nil =>
      cases absolute with
      | false => exact .inr (List.mem_singleton.mp member)
      | true => cases member
    | cons top below =>
      dsimp only at member
      split at member
      · exact (List.mem_cons.mp member).symm
      · exact .inl (List.mem_cons_of_mem top member)
  · exact (List.mem_cons.mp member).symm

theorem mem_splitOn_of_mem_reduced (member : segment ∈ reduced path) :
    segment ∈ path.splitOn separatorUnix := by
  have source (segments stack : List (List Char))
      (found : segment ∈ segments.foldl (advance (isAbsolute path)) stack) :
      segment ∈ stack ∨ segment ∈ segments := by
    induction segments generalizing stack with
    | nil => exact .inl found
    | cons first segments ih =>
      cases ih (advance (isAbsolute path) stack first) found with
      | inl advanced =>
        refine (mem_of_mem_advance advanced).imp_right ?_
        exact fun same => same ▸ List.mem_cons_self
      | inr later => exact .inr (List.mem_cons_of_mem first later)
  rw [reduced, List.mem_reverse] at member
  exact (source _ [] member).resolve_left List.not_mem_nil

theorem subset_of_mem_reduced (member : segment ∈ reduced path) : segment ⊆ path :=
  (Strings.of_mem_splitOn (mem_splitOn_of_mem_reduced member)).2

/-! ## Texts of plain names -/

theorem Plain.ne_nil (plain : Plain name) : name ≠ [] :=
  fun empty => plain.unskipped (.inl empty)

theorem advance_plain {stack : List (List Char)} (plain : Plain name) :
    advance absolute stack name = name :: stack := by
  rw [advance, if_neg plain.unskipped, reduce.eq_def, if_neg plain.ne_doubleDot]

variable {names : List (List Char)}

section

variable (plain : ∀ name ∈ names, Plain name)
include plain

theorem foldl_advance_plain (stack : List (List Char)) :
    names.foldl (advance absolute) stack = names.reverse ++ stack := by
  induction names generalizing stack with
  | nil => rfl
  | cons name names ih =>
    rw [List.foldl_cons, advance_plain (plain name List.mem_cons_self),
      ih fun other member => plain other (List.mem_cons_of_mem name member),
      List.reverse_cons, List.append_assoc, List.singleton_append]

theorem isAbsolute_spell : isAbsolute (spell absolute names) = absolute := by
  cases absolute with
  | true => rfl
  | false =>
    cases names with
    | nil => rfl
    | cons name names =>
      have name_plain := plain name List.mem_cons_self
      cases name with
      | nil => exact absurd rfl name_plain.ne_nil
      | cons first rest =>
        have first_ne : first ≠ separatorUnix := by
          rintro rfl
          exact name_plain.undivided List.mem_cons_self
        have head_eq : (spell false ((first :: rest) :: names)).head? = some first := by
          cases names with
          | nil => simp [spell, root]
          | cons next names => simp [spell, root, List.intercalate_cons_cons]
        rw [isAbsolute, head_eq]
        exact beq_false_of_ne fun same => first_ne (Option.some.inj same)

/-- Names below a separator or at the start of a text are found again by splitting it. -/
theorem foldl_advance_spell :
    ((spell absolute names).splitOn separatorUnix).foldl (advance absolute) [] = names.reverse := by
  have split_eq : ([separatorUnix].intercalate names).splitOn separatorUnix = names ∨
      names = [] := by
    cases names with
    | nil => exact .inr rfl
    | cons name names =>
      exact .inl (List.splitOn_intercalate separatorUnix
        (fun other member => (plain other member).undivided) (List.cons_ne_nil name names))
  cases absolute with
  | false =>
    cases split_eq with
    | inl split_eq =>
      rw [spell, root, if_neg (by decide), List.nil_append, split_eq,
        foldl_advance_plain plain, List.append_nil]
    | inr empty =>
      subst empty
      rfl
  | true =>
    have rooted := @List.splitOn_append_cons_self _ _ _ separatorUnix []
      ([separatorUnix].intercalate names)
    rw [List.nil_append] at rooted
    rw [spell, root, if_pos rfl, List.singleton_append, rooted, List.foldl_append]
    cases split_eq with
    | inl split_eq =>
      rw [split_eq, foldl_advance_plain plain]
      exact List.append_nil _
    | inr empty =>
      subst empty
      rfl

theorem reduced_spell : reduced (spell absolute names) = names := by
  rw [reduced, isAbsolute_spell plain, foldl_advance_spell plain, List.reverse_reverse]

theorem reference_spell : reference (spell absolute names) = spell absolute names := by
  rw [reference_eq_spell, isAbsolute_spell plain, reduced_spell plain]

end

theorem yields_normalize (directories : Directories) (start_eq : start path = .segments) :
    Yields (normalize directories · path) (reference path) :=
  ⟨path.length + 2, fun _ enough => normalize_of_segments directories start_eq enough⟩

/-! ## Absolute paths -/

theorem start_of_absolute (absolute : isAbsolute path = true) : start path = .segments :=
  start_of_head (eq_of_beq absolute) (by decide) (by decide)

theorem reference_of_absolute (absolute : isAbsolute path = true) :
    reference path = spell true (reduced path) := by
  rw [reference_eq_spell, absolute]

theorem isAbsolute_reference (absolute : isAbsolute path = true) :
    isAbsolute (reference path) = true := by
  rw [reference_of_absolute absolute]
  exact isAbsolute_spell fun _ member => plain_of_mem_reduced absolute member

theorem reference_reference (absolute : isAbsolute path = true) :
    reference (reference path) = reference path := by
  rw [reference_of_absolute absolute]
  exact reference_spell fun _ member => plain_of_mem_reduced absolute member

end Fusion.PathUtil
