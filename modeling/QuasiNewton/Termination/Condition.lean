import QuasiNewton.Fault

/-!
# Termination conditions

A mode names a convergence criterion. Two modes also watch the best residual norm, give up after a
number of checks without a new best one, and give up once the norm exceeds a multiple of the first.
-/

namespace QuasiNewton

/-- A convergence criterion. -/
inductive Mode where
  /-- Every component of the residual is at most the absolute tolerance. -/
  | absolute
  /-- Every component is at most the relative tolerance times that of residual plus iterate. -/
  | relative
  /-- The norm of the residual is at most the absolute tolerance. -/
  | absoluteNorm
  /-- The norm is at most the relative tolerance times that of residual plus iterate. -/
  | relativeNorm
  /-- As `absoluteNorm`, and watches the best norm. -/
  | absoluteBest
  /-- As `relativeNorm`, and watches the best norm. -/
  | relativeBest
  deriving DecidableEq, Repr

namespace Mode

/-- All criteria in order. -/
def all : List Mode :=
  [.absolute, .relative, .absoluteNorm, .relativeNorm, .absoluteBest, .relativeBest]

/-- The name of a criterion. -/
def name : Mode → String
  | .absolute => "abs"
  | .relative => "rel"
  | .absoluteNorm => "abs_norm"
  | .relativeNorm => "rel_norm"
  | .absoluteBest => "abs_safe_best"
  | .relativeBest => "rel_safe_best"

/-- The criterion of a name. -/
def ofName? (s : String) : Option Mode := all.find? (·.name == s)

/-- Does the mode watch the best norm? -/
def watchesBest (m : Mode) : Bool := m = .absoluteBest ∨ m = .relativeBest

/-- Every criterion is found by its name. -/
theorem ofName?_name (m : Mode) : ofName? m.name = some m := by cases m <;> decide

end Mode

/-- A termination condition. -/
structure Condition (A : Magnitudes) where
  /-- The convergence criterion. -/
  mode : Mode
  /-- How many checks in a row may pass without a new best norm. -/
  stallBudget : Quantity A.Real
  /-- Which multiple of the first norm counts as divergence; used as it was written. -/
  threshold : Setting A.Real

namespace Condition

variable {A : Magnitudes}

/-- By default the norm is compared with the absolute tolerance and watched. -/
def standardMode : Mode := .absoluteBest

/-- By default thirty-two checks in a row may pass without a new best norm. -/
def standardStallBudget : Quantity A.Real := .whole 32

/-- A thousandfold growth of the norm counts as divergence by default. -/
def standardThreshold : Setting A.Real :=
  .number (((A.ofInt? 1000).map Quantity.real).getD (.whole 1000))

/-- A mode with the standard limits. -/
def ofMode (mode : Mode) : Condition A where
  mode := mode
  stallBudget := standardStallBudget
  threshold := standardThreshold

/-- A condition from what the caller wrote: the mode has to be a known name and the stall budget
at least one. -/
def make (mode stallBudget threshold : Setting A.Real) : Except (Fault A.Real) (Condition A) := do
  let known ←
    match mode with
    | .text s =>
      match Mode.ofName? s with
      | some m => pure m
      | none => throw (.unknownMode mode)
    | _ => throw (.unknownMode mode)
  let budget ← stallBudget.quantity
  if budget.isBelow (M := A) 1 then throw (.badStallBudget budget)
  else return { mode := known, stallBudget := budget, threshold }

/-- What a caller may give as a condition. -/
inductive Choice (A : Magnitudes) where
  /-- An option value. -/
  | setting (value : Setting A.Real)
  /-- A condition. -/
  | condition (c : Condition A)

/-- The condition a caller chose: nothing stands for the standard mode, a text for the mode of that
name. -/
def ofChoice : Choice A → Except (Fault A.Real) (Condition A)
  | .condition c => .ok c
  | .setting .absent => .ok (ofMode standardMode)
  | .setting (.text s) =>
    match Mode.ofName? s with
    | some m => .ok (ofMode m)
    | none => .error (.unknownMode (.text s))
  | .setting s => .error (.unusableCondition s.typeName)

end Condition

end QuasiNewton
