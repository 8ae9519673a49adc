import Mathlib.Tactic.Common

/-!
# Shared value objects of the contracts

`Failure` is what a call can raise: a `CyranoError` with its stable code and readable
message, or an exception of Python or of the SQLite driver with its type and text.
-/

namespace CyranoAgent

/-- An exception. `cyrano` is `CyranoError(code, message)`. -/
inductive Failure
  | cyrano (code message : String)
  | python (type text : String)
  deriving DecidableEq, Repr

/-- The text of an exception, `str(error)`. -/
def Failure.text : Failure → String
  | .cyrano code message => code ++ ": " ++ message
  | .python _ text => text

/-- A violated uniqueness constraint. -/
def Failure.unique (columns : String) : Failure :=
  .python "IntegrityError" ("UNIQUE constraint failed: " ++ columns)

/-- The driver's refusal to bind an integer of more than 64 bits. -/
def Failure.overflow : Failure :=
  .python "OverflowError" "Python int too large to convert to SQLite INTEGER"

end CyranoAgent
