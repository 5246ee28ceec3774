import Fusion.Library.Strings

/-!
# Path functions on POSIX

A path is a list of characters.  `Normalize` rewrites its string in place, between an offset below
which nothing can be removed and an offset up to which the string is in normal form.  The functions
call each other through the working directory and the home directory, so each takes a bound on
the number of steps and has no result where the bound is too small.
-/

namespace Fusion.PathUtil

def separatorUnix : Char := '/'

def separatorWindows : Char := '\\'

def pathDot : List Char := ['.']
def pathDoubleDot : List Char := ['.', '.']
def pathTilde : List Char := ['~']

/-- What the operating system answers about the directories of the process. -/
structure Directories where
  /-- `FUSION_CWD`, empty where it is not set. -/
  fusionCwd : List Char
  cwd : Option (List Char)
  fusionHome : List Char
  home : List Char
  /-- Directory in the `passwd` entry of the user. -/
  userHome : Option (List Char)
  effectiveHome : Option (List Char)

def isAbsolute (path : List Char) : Bool := path.head? == some separatorUnix

def isNormalizedRoot (path : List Char) : Bool := path == [separatorUnix]

/-- Pop trailing separators, but never the first character. -/
def purgeTrailing (path : List Char) : List Char :=
  if 1 < path.length ∧ path.getLast? = some separatorUnix then purgeTrailing path.dropLast
  else path
termination_by path.length
decreasing_by
  rename_i trailing
  rw [List.length_dropLast]
  omega

/-- The string that `Normalize` rewrites and its two offsets. -/
structure Cursor where
  path : List Char
  /-- Nothing before this offset is removed any more. -/
  prefixOffset : Nat
  /-- The string is in normal form up to here. -/
  currentOffset : Nat
deriving DecidableEq

/-- What the loop does with a segment of which `count` characters, its separator included, are at
the current offset. -/
def Cursor.consume (cursor : Cursor) (segment : List Char) (count : Nat) : Cursor :=
  if segment = [] ∨ segment = pathDot ∨ segment = pathTilde then
    { cursor with path := Strings.erase cursor.path cursor.currentOffset count }
  else if segment = pathDoubleDot then
    let root := cursor.path.take cursor.currentOffset
    if isNormalizedRoot root then
      { cursor with path := Strings.erase cursor.path cursor.currentOffset count }
    else if root.length = cursor.prefixOffset then
      { cursor with
        prefixOffset := cursor.prefixOffset + count
        currentOffset := cursor.currentOffset + count }
    else
      match Strings.rfind cursor.path separatorUnix (cursor.currentOffset - 2) with
      | some prevSeparator =>
        let index := prevSeparator + 1
        { cursor with
          path := Strings.erase cursor.path index (cursor.currentOffset - index + count)
          currentOffset := index }
      | none =>
        { cursor with
          path := Strings.erase cursor.path cursor.prefixOffset
            (cursor.currentOffset - cursor.prefixOffset + count)
          currentOffset := cursor.prefixOffset }
  else { cursor with currentOffset := cursor.currentOffset + count }

def Cursor.eatSeparators (cursor : Cursor) : Cursor :=
  let count := ((cursor.path.drop cursor.currentOffset).takeWhile (· == separatorUnix)).length
  { cursor with path := Strings.erase cursor.path cursor.currentOffset count }

/-- One round of the loop of `Normalize` and whether it is the last one. -/
def Cursor.iterate (cursor : Cursor) : Cursor × Bool :=
  let separator := Strings.find cursor.path separatorUnix cursor.currentOffset
  let left := cursor.path.length - cursor.currentOffset
  let segmentLength :=
    match separator with
    | some position => min (position - cursor.currentOffset) left
    | none => left
  let segmentOffset :=
    if cursor.path[cursor.currentOffset + segmentLength]? = some separatorUnix then 1 else 0
  let segment := (cursor.path.drop cursor.currentOffset).take segmentLength
  let next := (cursor.consume segment (segment.length + segmentOffset)).eatSeparators
  (next, separator.isNone || next.currentOffset == next.path.length)

/-- The loop over the segments. -/
def Cursor.loop : Nat → Cursor → Option (List Char)
  | 0, _ => none
  | steps + 1, cursor =>
    match cursor.iterate with
    | (next, true) => some next.path
    | (next, false) => next.loop steps

/-- What `Normalize` does after its loop. -/
def trim (path : List Char) : List Char :=
  let path :=
    if path ≠ [] ∧ ¬ isNormalizedRoot path ∧ path.getLast? = some separatorUnix then
      path.dropLast
    else path
  if isNormalizedRoot path ∧ path.getLast? ≠ some separatorUnix then path ++ [separatorUnix]
  else path

/-- `Normalize` on a path without a special first segment. -/
def normalizeSegments (steps : Nat) (path : List Char) : Option (List Char) :=
  let prefixOffset := if path.head? = some separatorUnix then 1 else 0
  (Cursor.loop steps { path, prefixOffset, currentOffset := prefixOffset }).map trim

/-- The string that `Join` hands to `Normalize`. -/
def joined (existing segment : List Char) : List Char :=
  if isAbsolute segment ∨ existing = [] then segment
  else if segment ≠ [] then
    if existing.getLast? ≠ some separatorUnix ∧ existing.getLast? ≠ some separatorWindows then
      existing ++ separatorUnix :: segment
    else existing ++ segment
  else existing

mutual

def normalize (directories : Directories) : Nat → List Char → Option (List Char)
  | 0, _ => none
  | steps + 1, path =>
    if path = [] then some []
    else
      match purgeTrailing path with
      | ['.'] => getCwdPath directories steps
      | '.' :: second :: rest =>
        if second = separatorUnix ∨ second = '.' then
          (getCwdPath directories steps).bind fun cwd =>
            join directories steps cwd ('.' :: second :: rest)
        else normalizeSegments steps ('.' :: second :: rest)
      | ['~'] => getHomePath directories steps
      | '~' :: rest =>
        (getHomePath directories steps).bind fun home =>
          join directories steps home ('~' :: rest)
      | path => normalizeSegments steps path

def join (directories : Directories) : Nat → List Char → List Char → Option (List Char)
  | 0, _, _ => none
  | steps + 1, existing, segment => normalize directories steps (joined existing segment)

def getCwdPath (directories : Directories) : Nat → Option (List Char)
  | 0 => none
  | steps + 1 =>
    if directories.fusionCwd ≠ [] then some directories.fusionCwd
    else
      match directories.cwd with
      | none => some []
      | some path => normalize directories steps path

def getHomePath (directories : Directories) : Nat → Option (List Char)
  | 0 => none
  | steps + 1 =>
    if directories.fusionHome ≠ [] then normalize directories steps directories.fusionHome
    else if directories.home ≠ [] then normalize directories steps directories.home
    else
      match directories.userHome with
      | some path => normalize directories steps path
      | none =>
        match directories.effectiveHome with
        | some path => normalize directories steps path
        | none => some []

end

end Fusion.PathUtil
