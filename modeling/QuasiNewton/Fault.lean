import QuasiNewton.Setting
import QuasiNewton.Shape

/-!
# Why an operation failed

A fault names the cause with the values that matter. `Fault.category` sorts the causes,
`Fault.message` words those that this library explains itself; the others carry no text.
-/

namespace QuasiNewton

/-- Why an operation failed. -/
inductive Fault (ρ : Type) where
  /-- The residual cannot be called. -/
  | uncallableResidual (type : String)
  /-- The reset budget is not a natural number. -/
  | badResetBudget (given : Setting ρ)
  /-- The reset tolerance among the algorithm's options is not positive. -/
  | badResetTolerance (given : Setting ρ)
  /-- The tolerance of a reset check is not positive. -/
  | badCheckTolerance (given : Setting ρ)
  /-- A fixed step length is not positive. -/
  | badStepLength (given : ρ)
  /-- The line search is neither a length nor a function. -/
  | unusableLineSearch (type : String)
  /-- The starting point has no components. -/
  | emptyStart
  /-- The residual has another shape than the iterate. -/
  | residualShape (returned expected : Shape)
  /-- The iteration budget is below one. -/
  | badIterationBudget (given : Quantity ρ)
  /-- A secant update in place lacks its buffers. -/
  | missingBuffers
  /-- No convergence mode has this name. -/
  | unknownMode (given : Setting ρ)
  /-- The stall budget is below one. -/
  | badStallBudget (given : Quantity ρ)
  /-- The termination condition is neither a mode name nor a condition. -/
  | unusableCondition (type : String)
  /-- A tolerance is negative. -/
  | negativeTolerances (absolute relative : ρ)
  /-- A function of the caller failed with a text of its own. -/
  | raised (text : String)
  /-- A value of an unsuitable sort. -/
  | unsuitableType
  /-- A value, a shape or a text that does not fit. -/
  | unsuitableValue
  /-- A number out of range. -/
  | outOfRange
  /-- A field that does not exist or cannot be set. -/
  | noSuchField
  /-- A name that stands for nothing. -/
  | unknownName

namespace Fault

/-- The sorts of causes. -/
inductive Category where
  /-- A value of the right sort that does not fit. -/
  | value
  /-- A value of a wrong sort. -/
  | type
  /-- A number out of range. -/
  | range
  /-- A missing or unchangeable field. -/
  | field
  /-- A name that stands for nothing. -/
  | name
  /-- A failure of the caller's own function. -/
  | caller
  deriving DecidableEq, Repr

variable {ρ : Type}

/-- The sort of a cause. -/
def category : Fault ρ → Category
  | .uncallableResidual _ | .unusableLineSearch _ | .unusableCondition _ | .unsuitableType => .type
  | .badResetBudget _ | .badResetTolerance _ | .badCheckTolerance _ | .badStepLength _
  | .emptyStart | .residualShape .. | .badIterationBudget _ | .missingBuffers | .unknownMode _
  | .badStallBudget _ | .negativeTolerances .. | .unsuitableValue => .value
  | .outOfRange => .range
  | .noSuchField => .field
  | .unknownName => .name
  | .raised _ => .caller

/-- The wording of a cause, given the written form of a real. -/
def message (real : ρ → String) : Fault ρ → Option String
  | .uncallableResidual type => some ("f must be callable, got " ++ type)
  | .badResetBudget given =>
    some ("max_resets must be a non-negative integer, got " ++ given.display real)
  | .badResetTolerance given =>
    some ("reset_tolerance must be positive, got " ++ given.display real)
  | .badCheckTolerance given =>
    some ("reset tolerance must be positive, got " ++ given.display real)
  | .badStepLength given => some ("step length must be positive, got " ++ real given)
  | .unusableLineSearch type =>
    some ("linesearch must be None, a step length, or a callable search(u, du) -> alpha, got " ++
      type)
  | .emptyStart => some "u0 must be non-empty"
  | .residualShape returned expected =>
    some ("residual function returned shape " ++ returned.text ++ ", expected " ++ expected.text ++
      " to match u0")
  | .badIterationBudget given => some ("maxiters must be >= 1, got " ++ given.text real)
  | .missingBuffers => some "in-place secant update needs J_inv_df and J_inv_row buffers"
  | .unknownMode given =>
    some ("unknown termination mode " ++ given.display real ++ ", expected one of " ++
      "('abs', 'rel', 'abs_norm', 'rel_norm', 'abs_safe_best', 'rel_safe_best')")
  | .badStallBudget given => some ("max_stalled_steps must be >= 1, got " ++ given.text real)
  | .unusableCondition type =>
    some ("termination_condition must be a mode name or TerminationCondition, got " ++ type)
  | .negativeTolerances absolute relative =>
    some ("tolerances must be non-negative, got abstol=" ++ real absolute ++ ", reltol=" ++
      real relative)
  | .raised text => some text
  | .unsuitableType | .unsuitableValue | .outOfRange | .noSuchField | .unknownName => none

end Fault

/-- A number is required here. -/
def Setting.quantity {ρ : Type} (s : Setting ρ) : Except (Fault ρ) (Quantity ρ) :=
  match s with
  | .number q => .ok q
  | _ => .error .unsuitableType

/-- A quantity as a magnitude. -/
def Quantity.magnitude {M : Magnitudes} (q : Quantity M.Real) : Except (Fault M.Real) M.Real :=
  match q.magnitude? with
  | some x => .ok x
  | none => .error .outOfRange

/-- An option value converted to a magnitude; a text has to be the written form of one. -/
def Setting.magnitude {M : Magnitudes} (s : Setting M.Real) : Except (Fault M.Real) M.Real :=
  match s with
  | .number q => q.magnitude
  | .text t =>
    match M.read? t with
    | some x => .ok x
    | none => .error .unsuitableValue
  | .absent | .list _ | .record _ => .error .unsuitableType

end QuasiNewton
