import Fusion.ConsoleLogger
import Mathlib.Data.List.TakeWhile

/-!
# Log files

The standard formatter writes a record as one line: some groups in brackets, a blank and the
message.  The groups are read back without doubt, although the name of the logger and the location
may both be missing.
-/

namespace Fusion.Logging

open ConsoleLogger

/-! ## Formatting -/

namespace LogFormatter

structure Params where
  json : Bool := false
  colors : Bool := false
  location : Bool := true
  timestamps : Bool := true

end LogFormatter

/-- `LogLocation::Basename`: each slash starts the name anew. -/
def basenameFrom : List Char → List Char → List Char
  | filename, [] => filename
  | filename, char :: path =>
    if char = '/' then basenameFrom path path else basenameFrom filename path

def basename (path : List Char) : List Char := basenameFrom path path

/-- The constructor of `LogLocation`. -/
def locationOf (filename : List Char) (lineno : Nat) : LogLocation :=
  { filename, shortFilename := basename filename, lineno }

/-- `Internal::StandardLogFormatter::FormatTo`; `strftime` is the platform's. -/
def formatTo (params : LogFormatter.Params) (strftime : Int → List Char) (record : LogRecord) :
    List Char :=
  (if params.timestamps then '[' :: strftime record.time ++ [']'] else []) ++
    (if record.logger ≠ [] then '[' :: record.logger ++ [']'] else []) ++
    '[' :: record.level.toText ++ [']'] ++
    (if record.location.filename ≠ [] ∧ params.location then
      '[' :: record.location.shortFilename ++ [':'] ++
        (toString record.location.lineno).toList ++ [']']
    else []) ++
    [' '] ++ record.message ++ ['\n']

theorem recordText_eq_formatTo {params : ConsoleLogger.Params} {formats : ConsoleLogger.Formats}
    (plain : params.colors = false) (record : LogRecord) :
    recordText params formats record =
      formatTo { timestamps := params.timestamps } formats.strftime record := by
  simp [recordText, bracketed, formatTo, plain]

/-! ## Reading -/

/-- What a line says. -/
structure Line where
  time : Option (List Char)
  logger : List Char
  level : LogLevel
  location : Option (List Char)
  message : List Char

def levels : List LogLevel := [.ignored, .trace, .debug, .info, .warning, .error, .fatal]

def readLevel (text : List Char) : Option LogLevel := levels.find? fun level => level.toText = text

/-- The groups in brackets at the beginning of a text, and what follows them. -/
def readGroups : Nat → List Char → List (List Char) × List Char
  | fuel + 1, '[' :: text =>
    let (groups, rest) := readGroups fuel (text.dropWhile (· ≠ ']')).tail
    (text.takeWhile (· ≠ ']') :: groups, rest)
  | _, text => ([], text)

/-- The logger, the level and the location.  Only a location may stand where the level is not. -/
def readNames : List (List Char) → Option (List Char × LogLevel × Option (List Char))
  | [level] => (readLevel level).map fun level => ([], level, none)
  | [first, second] =>
    match readLevel second with
    | some level => some (first, level, none)
    | none => (readLevel first).map fun level => ([], level, some second)
  | [logger, level, location] => (readLevel level).map fun level => (logger, level, some location)
  | _ => none

def readLine (params : LogFormatter.Params) (line : List Char) : Option Line :=
  let (groups, rest) := readGroups line.length line
  let (time, names) :=
    if params.timestamps then (groups.head?, groups.tail) else (none, groups)
  (readNames names).map fun (logger, level, location) =>
    { time, logger, level, location, message := rest.tail }

def readLog (params : LogFormatter.Params) (text : List Char) : Option (List Line) :=
  (text.splitOn '\n').dropLast.mapM (readLine params)

/-! ## What is read back -/

section Records

variable (params : LogFormatter.Params) (strftime : Int → List Char) (record : LogRecord)

/-- The location as it is written. -/
def locationText : List Char :=
  record.location.shortFilename ++ ':' :: (toString record.location.lineno).toList

/-- The groups behind the time. -/
def names : List (List Char) :=
  (if record.logger ≠ [] then [record.logger] else []) ++ [record.level.toText] ++
    (if record.location.filename ≠ [] ∧ params.location then [locationText record] else [])

def groups : List (List Char) :=
  (if params.timestamps then [strftime record.time] else []) ++ names params record

/-- What the line of a record says. -/
def lineOf : Line where
  time := if params.timestamps then some (strftime record.time) else none
  logger := record.logger
  level := record.level
  location :=
    if record.location.filename ≠ [] ∧ params.location then some (locationText record) else none
  message := record.message

theorem formatTo_eq :
    formatTo params strftime record =
      (groups params strftime record).flatMap bracketed ++ ' ' :: record.message ++ ['\n'] := by
  rw [formatTo, groups, names, locationText]
  split_ifs <;> simp [bracketed]

end Records

theorem basenameFrom_suffix {filename path whole : List Char} (filename_suffix : filename <:+ whole)
    (path_suffix : path <:+ whole) : basenameFrom filename path <:+ whole := by
  induction path generalizing filename with
  | nil => exact filename_suffix
  | cons char path ih =>
    have rest_suffix := (List.suffix_cons char path).trans path_suffix
    rw [basenameFrom]
    split
    · exact ih rest_suffix rest_suffix
    · exact ih filename_suffix rest_suffix

/-- The text has no character that ends a group or a line. -/
def Tame (text : List Char) : Prop := ']' ∉ text ∧ '\n' ∉ text

theorem Tame.basename {path : List Char} (tame : Tame path) : Tame (basename path) := by
  have inside := (basenameFrom_suffix (List.suffix_refl path) (List.suffix_refl path)).subset
  exact ⟨fun member => tame.1 (inside member), fun member => tame.2 (inside member)⟩

theorem tame_toText (level : LogLevel) : Tame level.toText := by
  cases level <;> exact ⟨by decide, by decide⟩

theorem tame_toString (number : Nat) : Tame (toString number).toList := by
  have digits : ∀ char ∈ (toString number).toList, char.isDigit = true := by
    intro char member
    rw [Nat.toString_eq_repr, Nat.toList_repr] at member
    exact Nat.isDigit_of_mem_toDigits (by decide) (by decide) member
  exact ⟨fun member => absurd (digits _ member) (by decide),
    fun member => absurd (digits _ member) (by decide)⟩

theorem Tame.append {left right : List Char} (left_tame : Tame left) (right_tame : Tame right) :
    Tame (left ++ right) :=
  ⟨by simp [left_tame.1, right_tame.1], by simp [left_tame.2, right_tame.2]⟩

/-- The texts that come from outside do not break the line. -/
structure Clean (record : LogRecord) : Prop where
  logger : Tame record.logger
  location : ∃ filename lineno, Tame filename ∧ record.location = locationOf filename lineno
  message : '\n' ∉ record.message

section Reading

variable {params : LogFormatter.Params} {strftime : Int → List Char} {record : LogRecord}

theorem tame_locationText (clean : Clean record) : Tame (locationText record) := by
  obtain ⟨filename, lineno, tame, location_eq⟩ := clean.location
  rw [locationText, location_eq]
  have colon : Tame [':'] := ⟨by decide, by decide⟩
  exact tame.basename.append (colon.append (tame_toString lineno))

theorem tame_groups (times : ∀ time, Tame (strftime time)) (clean : Clean record) :
    ∀ group ∈ groups params strftime record, Tame group := by
  intro group member
  rw [groups, names, List.mem_append, List.mem_append, List.mem_append] at member
  rcases member with time | (logger | level) | location
  · split at time
    · rw [List.mem_singleton.mp time]
      exact times _
    · cases time
  · split at logger
    · rw [List.mem_singleton.mp logger]
      exact clean.logger
    · cases logger
  · rw [List.mem_singleton.mp level]
    exact tame_toText _
  · split at location
    · rw [List.mem_singleton.mp location]
      exact tame_locationText clean
    · cases location

theorem readGroups_flatMap {texts : List (List Char)} (closed : ∀ text ∈ texts, ']' ∉ text)
    {rest : List Char} (ends : rest.head? ≠ some '[') {fuel : Nat} (enough : texts.length ≤ fuel) :
    readGroups fuel (texts.flatMap bracketed ++ rest) = (texts, rest) := by
  induction texts generalizing fuel with
  | nil =>
    cases fuel with
    | zero => rfl
    | succ fuel =>
      rw [List.flatMap_nil, List.nil_append]
      unfold readGroups
      split
      · simp at ends
      · rfl
  | cons text texts ih =>
    obtain ⟨fuel, rfl⟩ : ∃ left, fuel = left + 1 := ⟨fuel - 1, by simp at enough; omega⟩
    have open_text : ∀ char ∈ text, decide (char ≠ ']') = true := by
      intro char member
      exact decide_eq_true fun same => closed text List.mem_cons_self (same ▸ member)
    have later := ih (fun other member => closed other (List.mem_cons_of_mem _ member))
      (Nat.le_of_succ_le_succ enough)
    have text_eq : (text :: texts).flatMap bracketed ++ rest =
        '[' :: (text ++ ']' :: (texts.flatMap bracketed ++ rest)) := by
      simp [bracketed]
    rw [text_eq, readGroups, List.takeWhile_append_of_pos open_text,
      List.dropWhile_append_of_pos open_text, List.takeWhile_cons_of_neg (by decide),
      List.dropWhile_cons_of_neg (by decide), List.tail_cons, later, List.append_nil]

theorem readLevel_toText (level : LogLevel) : readLevel level.toText = some level := by
  cases level <;> rfl

theorem readLevel_locationText : readLevel (locationText record) = none := by
  apply List.find?_eq_none.mpr
  intro level member
  have no_colon : ':' ∉ level.toText := by cases level <;> decide
  simp only [decide_eq_true_eq]
  rintro same
  rw [same, locationText] at no_colon
  simp at no_colon

theorem readNames_names :
    readNames (names params record) =
      some (record.logger, record.level,
        if record.location.filename ≠ [] ∧ params.location then some (locationText record)
        else none) := by
  rw [names]
  by_cases named : record.logger = [] <;>
    by_cases located : record.location.filename ≠ [] ∧ params.location
  · simp [named, located, readNames, readLevel_locationText, readLevel_toText]
  · simp [named, located, readNames, readLevel_toText]
  · simp [named, located, readNames, readLevel_toText]
  · simp [named, located, readNames, readLevel_toText]

theorem length_le_length_flatMap (texts : List (List Char)) :
    texts.length ≤ (texts.flatMap bracketed).length := by
  induction texts with
  | nil => rfl
  | cons text texts ih =>
    rw [List.flatMap_cons, List.length_append, List.length_cons, bracketed,
      List.length_append, List.length_cons]
    omega

theorem readLine_groups (times : ∀ time, Tame (strftime time)) (clean : Clean record) :
    readLine params ((groups params strftime record).flatMap bracketed ++
      ' ' :: record.message) = some (lineOf params strftime record) := by
  have closed : ∀ text ∈ groups params strftime record, ']' ∉ text :=
    fun text member => (tame_groups times clean text member).1
  have enough : (groups params strftime record).length ≤
      ((groups params strftime record).flatMap bracketed ++ ' ' :: record.message).length := by
    rw [List.length_append]
    exact (length_le_length_flatMap _).trans (Nat.le_add_right _ _)
  rw [readLine, readGroups_flatMap closed (by simp) enough, lineOf]
  cases stamped : params.timestamps with
  | true => simp [groups, stamped, readNames_names]
  | false => simp [groups, stamped, readNames_names]

theorem splitOn_formatTo (times : ∀ time, Tame (strftime time)) (clean : Clean record)
    (rest : List Char) :
    (formatTo params strftime record ++ rest).splitOn '\n' =
      ((groups params strftime record).flatMap bracketed ++ ' ' :: record.message) ::
        rest.splitOn '\n' := by
  have one_line : ∀ char ∈ (groups params strftime record).flatMap bracketed ++
      ' ' :: record.message, (char == '\n') = false := by
    intro char member
    rw [beq_eq_false_iff_ne]
    rintro rfl
    rcases List.mem_append.mp member with inside | behind
    · obtain ⟨group, group_mem, char_mem⟩ := List.mem_flatMap.mp inside
      have tame := (tame_groups times clean group group_mem).2
      simp [bracketed, tame] at char_mem
    · simp [clean.message] at behind
  rw [formatTo_eq, List.append_assoc, List.singleton_append, List.splitOn_eq_splitOnP,
    List.splitOnP_append_cons_of_forall_mem one_line _ (beq_self_eq_true _),
    List.splitOn_eq_splitOnP]

end Reading

/-- A log file is read back as the records that were written to it. -/
theorem readLog_formatTo (params : LogFormatter.Params) {strftime : Int → List Char}
    (times : ∀ time, Tame (strftime time)) {records : List LogRecord}
    (clean : ∀ record ∈ records, Clean record) :
    readLog params (records.flatMap (formatTo params strftime)) =
      some (records.map (lineOf params strftime)) := by
  have lines : (records.flatMap (formatTo params strftime)).splitOn '\n' =
      records.map (fun record => (groups params strftime record).flatMap bracketed ++
        ' ' :: record.message) ++ [[]] := by
    induction records with
    | nil => rfl
    | cons record records ih =>
      rw [List.flatMap_cons, splitOn_formatTo times (clean record List.mem_cons_self),
        ih fun other member => clean other (List.mem_cons_of_mem _ member)]
      rfl
  rw [readLog, lines, List.dropLast_concat]
  clear lines
  induction records with
  | nil => rfl
  | cons record records ih =>
    rw [List.map_cons, List.mapM_cons, readLine_groups times (clean record List.mem_cons_self),
      ih fun other member => clean other (List.mem_cons_of_mem _ member)]
    rfl

def sampleRecords : List LogRecord := [
  { logger := "net".toList, level := .warning, location := locationOf "src/Net.cpp".toList 12,
    message := "late".toList },
  { level := .info, message := "[up]".toList }]

theorem readLog_sampleRecords :
    readLog {} (sampleRecords.flatMap (formatTo {} fun _ => "noon".toList)) =
      some (sampleRecords.map (lineOf {} fun _ => "noon".toList)) := by
  apply readLog_formatTo {} fun _ => ⟨by decide, by decide⟩
  intro record member
  rcases List.mem_cons.mp member with rfl | member
  · exact ⟨⟨by decide, by decide⟩, ⟨_, _, ⟨by decide, by decide⟩, rfl⟩, by decide⟩
  · obtain rfl := List.mem_singleton.mp member
    exact ⟨⟨by decide, by decide⟩, ⟨[], 0, ⟨by decide, by decide⟩, rfl⟩, by decide⟩

end Fusion.Logging
