import Mathlib.Data.List.Basic

/-!
# Streams of words

A source draws words of a fixed width from a state.  The words that it draws one after the other
form a stream of elements.  Elements are taken from the stream in whole words, of which the last one
may be used in part.
-/

namespace WordStream

/-- A source of words. -/
structure Source (σ α : Type) where
  width : Nat
  positive : 0 < width
  draw : σ → List α × σ
  length_draw : ∀ state, (draw state).1.length = width

namespace Source

variable {σ α : Type} (source : Source σ α)

/-- The state behind so many words. -/
def after : Nat → σ → σ
  | 0, state => state
  | count + 1, state => after count (source.draw state).2

/-- The elements of so many words. -/
def drawn : Nat → σ → List α
  | 0, _ => []
  | count + 1, state => (source.draw state).1 ++ drawn count (source.draw state).2

/-- How many words have so many elements. -/
def words (size : Nat) : Nat := (size + source.width - 1) / source.width

/-- The first elements of the stream. -/
def leading (size : Nat) (state : σ) : List α := (source.drawn (source.words size) state).take size

theorem after_add (first second : Nat) (state : σ) :
    source.after (first + second) state = source.after second (source.after first state) := by
  induction first generalizing state with
  | zero => rw [Nat.zero_add, after]
  | succ first ih => rw [Nat.succ_add, after, ih, after]

theorem drawn_add (first second : Nat) (state : σ) :
    source.drawn (first + second) state =
      source.drawn first state ++ source.drawn second (source.after first state) := by
  induction first generalizing state with
  | zero => rw [Nat.zero_add, drawn, List.nil_append, after]
  | succ first ih => rw [Nat.succ_add, drawn, ih, drawn, after, List.append_assoc]

variable (size count : Nat) (state : σ)

theorem length_drawn : (source.drawn count state).length = count * source.width := by
  induction count generalizing state with
  | zero => rw [drawn, List.length_nil, Nat.zero_mul]
  | succ count ih =>
    rw [drawn, List.length_append, source.length_draw, ih, Nat.succ_mul, Nat.add_comm]

/-! ## Words for so many elements -/

theorem words_zero : source.words 0 = 0 :=
  Nat.div_eq_of_lt (by have := source.positive; omega)

/-- One word is enough for as many elements as it has. -/
theorem words_of_le {size : Nat} (positive : 0 < size) (fits : size ≤ source.width) :
    source.words size = 1 := by
  apply Nat.div_eq_of_lt_le
  · omega
  · omega

theorem words_add_width : source.words (size + source.width) = source.words size + 1 := by
  have sum_eq : size + source.width + source.width - 1 =
      size + source.width - 1 + source.width := by
    have := source.positive
    omega
  rw [words, sum_eq, Nat.add_div_right _ source.positive, words]

theorem words_mul_width_add (size : Nat) :
    source.words (count * source.width + size) = count + source.words size := by
  induction count with
  | zero => rw [Nat.zero_mul, Nat.zero_add, Nat.zero_add]
  | succ count ih =>
    rw [Nat.succ_mul, Nat.add_right_comm, words_add_width, ih, Nat.add_right_comm]

theorem words_mul_width : source.words (count * source.width) = count := by
  have whole := source.words_mul_width_add count 0
  rwa [Nat.add_zero, words_zero, Nat.add_zero] at whole

theorem words_mono {small large : Nat} (smaller : small ≤ large) :
    source.words small ≤ source.words large :=
  Nat.div_le_div_right (by omega)

theorem le_words_mul_width : size ≤ source.words size * source.width := by
  have positive := source.positive
  have quotient := Nat.lt_div_mul_add (a := size + source.width - 1) positive
  rw [← words] at quotient
  omega

/-! ## The first elements -/

theorem length_leading : (source.leading size state).length = size := by
  rw [leading, List.length_take, length_drawn]
  exact Nat.min_eq_left (source.le_words_mul_width size)

theorem leading_zero : source.leading 0 state = [] := by
  rw [leading, List.take_zero]

/-- A whole word comes first if more than that is wanted. -/
theorem leading_add_width :
    source.leading (size + source.width) state =
      (source.draw state).1 ++ source.leading size (source.draw state).2 := by
  rw [leading, words_add_width, drawn, Nat.add_comm size, ← source.length_draw state,
    List.take_length_add_append, leading]

theorem leading_of_le {size : Nat} (positive : 0 < size) (fits : size ≤ source.width) (state : σ) :
    source.leading size state = (source.draw state).1.take size := by
  rw [leading, source.words_of_le positive fits, drawn, drawn, List.append_nil]

/-- Fewer elements are the beginning of more. -/
theorem take_leading {small large : Nat} (smaller : small ≤ large) (state : σ) :
    (source.leading large state).take small = source.leading small state := by
  obtain ⟨more, words_eq⟩ := Nat.exists_eq_add_of_le (source.words_mono smaller)
  rw [leading, List.take_take, Nat.min_eq_left smaller, words_eq, drawn_add,
    List.take_append_of_le_length, leading]
  rw [length_drawn]
  exact source.le_words_mul_width small

/-- The elements behind whole words are those of the state behind the words. -/
theorem leading_mul_width_add (size : Nat) (state : σ) :
    source.leading (count * source.width + size) state =
      source.leading (count * source.width) state ++
        source.leading size (source.after count state) := by
  rw [leading, words_mul_width_add, drawn_add, ← source.length_drawn count state,
    List.take_length_add_append, leading, source.length_drawn, words_mul_width, leading,
    List.take_of_length_le (Nat.le_of_eq (source.length_drawn count state))]

/-! ## Counting -/

/-- The source that also counts how often it is asked. -/
def counted : Source (σ × Nat) α where
  width := source.width
  positive := source.positive
  draw := fun (state, count) => ((source.draw state).1, (source.draw state).2, count + 1)
  length_draw := fun (state, _) => source.length_draw state

theorem after_counted (more : Nat) (state : σ) (count : Nat) :
    source.counted.after more (state, count) = (source.after more state, count + more) := by
  induction more generalizing state count with
  | zero => rfl
  | succ more ih =>
    rw [after]
    refine (ih (source.draw state).2 (count + 1)).trans ?_
    rw [Nat.add_right_comm, Nat.add_assoc]
    rfl

theorem drawn_counted (more : Nat) (state : σ) (count : Nat) :
    source.counted.drawn more (state, count) = source.drawn more state := by
  induction more generalizing state count with
  | zero => rfl
  | succ more ih =>
    rw [drawn, drawn]
    exact congrArg ((source.draw state).1 ++ ·) (ih (source.draw state).2 (count + 1))

theorem leading_counted (count : Nat) :
    source.counted.leading size (state, count) = source.leading size state :=
  congrArg (List.take size) (source.drawn_counted _ state count)

end Source

end WordStream
