import QuasiNewton.LineSearch
import QuasiNewton.Decimal.Reading

/-!
# Options of the method

How many resets of the inverse Jacobian are allowed, when a change counts as negligible, and how
long steps are. `Options.make` checks the numbers as they were written and keeps them so.
-/

namespace QuasiNewton

/-- Options of the method. -/
structure Options (A : Arithmetic) where
  /-- How many resets of the inverse Jacobian are allowed. -/
  resetBudget : Quantity A.Real
  /-- The tolerance of the reset check, if the caller chose one. -/
  resetTolerance : Setting A.Real
  /-- The rule for step lengths that the caller chose. -/
  lineSearch : LineSearch.Choice A

namespace Options

variable {A : Arithmetic}

/-- Three resets, the default tolerance and full steps. -/
def standard : Options A where
  resetBudget := .whole 3
  resetTolerance := .absent
  lineSearch := .setting .absent

/-- The budget of resets has to be a natural number, however it was written. -/
def checkBudget (given : Setting A.Real) : Attempt A (Quantity A.Real) :=
  match given with
  | .number q =>
    let natural :=
      if q.isBelow (M := A.toMagnitudes) 0 then .error (.badResetBudget given) else .ok q
    match q with
    | .flag _ | .whole _ => natural
    | .real x =>
      match A.nature x with
      | .undefined => .error .unsuitableValue
      | .infinite => .error .outOfRange
      | .fractional => .error (.badResetBudget given)
      | .whole => natural
  | .text s => .error (if Decimal.isInteger s then .badResetBudget given else .unsuitableValue)
  | .absent | .list _ | .record _ => .error .unsuitableType

/-- A tolerance that the caller chose has to be positive. -/
def checkTolerance (given : Setting A.Real) : Attempt A (Setting A.Real) :=
  match given with
  | .absent => .ok .absent
  | _ => do
    let q ← given.quantity
    if q.isAbove (M := A.toMagnitudes) 0 then return given else throw (.badResetTolerance given)

/-- Options from what the caller wrote. -/
def make (resetBudget resetTolerance : Setting A.Real) (lineSearch : LineSearch.Choice A) :
    Attempt A (Options A) := do
  return {
    resetBudget := ← checkBudget resetBudget
    resetTolerance := ← checkTolerance resetTolerance
    lineSearch }

end Options

end QuasiNewton
