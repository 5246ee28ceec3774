import Mathlib.Data.List.Basic
import Fusion.Result

/-!
# Sockets, operation sets and the notification pipe

An operation set is a mask of eight bits; union, intersection and complement are the bitwise
operators of `FUSION_ENUM_OPS`.
-/

namespace Fusion

/-- A descriptor. -/
abbrev Socket := Int

def invalidSocket : Socket := -1

/-- A set of socket operations as an 8-bit mask. -/
abbrev SocketOperation := BitVec 8

namespace SocketOperation

def none : SocketOperation := 0
def read : SocketOperation := 1 <<< 1
def write : SocketOperation := 1 <<< 2
def error : SocketOperation := 1 <<< 3
def accept : SocketOperation := read ||| error
def readWrite : SocketOperation := read ||| write

/-- Whether the two sets share an operation, `+(left & right)`. -/
def meets (left right : SocketOperation) : Bool := left &&& right != none

/-- The operations that `Add` leaves on an entry that has `old`, when asked for `events`. -/
def merge (old events : SocketOperation) : SocketOperation :=
  if old ||| events ≠ events then old ||| events else old

/-- `ToString(SocketOperation)`. -/
def toString (operations : SocketOperation) : String :=
  if operations = error then "Error"
  else if operations = read then "Read"
  else if operations = write then "Write"
  else "None"

/-- `FlagsToString(SocketOperation)`. -/
def flagsToString (operations : SocketOperation) : String :=
  if operations = none then "None"
  else
    ", ".intercalate
      ((if operations.meets read then [read.toString] else []) ++
        (if operations.meets write then [write.toString] else []) ++
        (if operations.meets error then [error.toString] else []))

variable (old events : SocketOperation)

theorem merge_none : old.merge .none = old := by
  simp [merge, none]

theorem merge_ne_none {old : SocketOperation} (nonempty : old ≠ none) :
    old.merge events ≠ none := by
  unfold merge
  split
  · intro empty
    exact nonempty (BitVec.or_eq_zero_iff.mp empty).1
  · exact nonempty

theorem merge_eq_old_iff :
    old.merge events = old ↔ old ||| events = events ∨ old ||| events = old := by
  unfold merge
  by_cases contained : old ||| events = events
  · simp [contained]
  · simp [contained]

theorem merge_eq_or_iff :
    old.merge events = old ||| events ↔ (old ||| events = events → old = events) := by
  unfold merge
  by_cases contained : old ||| events = events
  · simp [contained]
  · simp [contained]

theorem and_not_of_disjoint {old events : SocketOperation} (disjoint : old &&& events = none) :
    old &&& ~~~events = old := by
  apply BitVec.eq_of_getLsbD_eq
  intro bit bit_lt
  have bit_clear : (old &&& events).getLsbD bit = false := by
    rw [disjoint]
    exact BitVec.getLsbD_zero
  rw [BitVec.getLsbD_and] at bit_clear
  rw [BitVec.getLsbD_and, BitVec.getLsbD_not, decide_eq_true bit_lt, Bool.true_and]
  cases set : old.getLsbD bit with
  | false => rfl
  | true =>
    rw [set, Bool.true_and] at bit_clear
    rw [bit_clear]
    rfl

theorem and_not_ne_of_meets {old events : SocketOperation} (meets : old &&& events ≠ none) :
    old &&& ~~~events ≠ old := by
  intro unchanged
  apply meets
  rw [← unchanged, BitVec.and_assoc, BitVec.and_comm (~~~events)]
  simp [none]

end SocketOperation

/-- A socket with an operation set. -/
structure SocketEvent where
  sock : Socket
  events : SocketOperation
deriving DecidableEq, Repr

/-- The connected pair through which a service wakes its polling thread. -/
structure SocketPair where
  reader : Socket := invalidSocket
  writer : Socket := invalidSocket
  /-- Bytes sent to the write end and not yet read. -/
  unread : Nat := 0
deriving DecidableEq, Repr

namespace SocketPair

/-- `SocketPair::Start`; `created` is what the operating system supplies for a new pair. -/
def start (pair : SocketPair) (created : Result (Socket × Socket)) : SocketPair × Result Unit :=
  if pair.reader ≠ invalidSocket then (pair, .ok ())
  else
    match created with
    | .ok (reader, writer) => ({ pair with reader, writer }, .ok ())
    | .error failure => (pair, .error failure)

def stop (pair : SocketPair) : SocketPair :=
  { pair with reader := invalidSocket, writer := invalidSocket }

/-- `Network::Send` of `count` bytes on the write end. -/
def send (pair : SocketPair) (count : Nat) : SocketPair :=
  { pair with unread := pair.unread + count }

/-- `SocketPair::Drain`: read until the pipe would block, or until `Recv` fails with an error
after some bytes. -/
def drain (pair : SocketPair) (fault : Option (Nat × Failure)) : SocketPair × Result Unit :=
  if pair.reader = invalidSocket then (pair, .error { error := .notInitialized })
  else
    match fault with
    | none => ({ pair with unread := 0 }, .ok ())
    | some (taken, failure) => ({ pair with unread := pair.unread - taken }, .error failure)

end SocketPair
end Fusion
