/-!
# Results and failures

`Result<T>` is a value or a `Failure`; a default-constructed result holds a default failure.
-/

namespace Fusion

/-- The error constants that the modelled functions return. -/
inductive Error
  | failure
  | invalidArgument
  | notFound
  | notInitialized
  | notSupported
  | cancelled
  /-- An error taken from the platform's `errno`. -/
  | platform (code : Int)
deriving DecidableEq, Repr

/-- An error with its context message. -/
structure Failure where
  error : Error := .failure
  /-- Text attached by `WithContext` or by the constructor. -/
  message : String := ""
deriving DecidableEq, Repr

/-- `WithContext`, which puts its text before the one that is there. -/
def Failure.withContext (failure : Failure) (message : String) : Failure :=
  { failure with
    message := if failure.message = "" then message else message ++ ": " ++ failure.message }

abbrev Result (α : Type) := Except Failure α

/-- The result is a failure. -/
def Failed {α : Type} : Result α → Prop
  | .ok _ => False
  | .error _ => True

end Fusion
