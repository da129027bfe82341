import QuasiNewton.Status
import QuasiNewton.Fault
import QuasiNewton.Decimal.Scientific

/-!
# The transcript

What a solve reports as it goes, line by line and as data. `Line.text` is the written form. Events
within a step need verbosity two, progress lines and the opening line need one, the closing summary
needs zero.
-/

namespace QuasiNewton

/-- What may be worth a line within a step. -/
inductive Event (ρ : Type) where
  /-- The best iterate was restored. -/
  | restored (status : Status) (best : ρ)
  /-- The budget of resets is used up. -/
  | exhausted (budget : Quantity ρ)
  /-- The inverse Jacobian was reset. -/
  | reset (count : Int) (budget : Quantity ρ)
  /-- A denominator of zero was replaced. -/
  | guarded

/-- A line of the transcript. -/
inductive Line (ρ : Type) where
  /-- The opening line of a solve. -/
  | opening (size : Nat) (resetBudget iterationBudget absolute relative : Quantity ρ)
  /-- An event of a step. -/
  | event (step : Int) (what : Event ρ)
  /-- The residual norm every tenth step. -/
  | progress (step : Int) (norm : ρ) (resets : Int)
  /-- How the solve ended. -/
  | verdict (status : Status)
  /-- The residual norm at the end. -/
  | residualNorm (norm : ρ)
  /-- The counts at the end. -/
  | counts (evaluations steps resets : Int)

/-- How reals are written in reports. -/
structure Numerals (ρ : Type) where
  /-- As short as possible. -/
  shortest : ρ → String
  /-- In scientific notation with a number of digits after the point. -/
  scientific : Nat → ρ → String
  /-- A whole number as a real. -/
  ofInt : Int → ρ

namespace Numerals

variable {ρ : Type} (w : Numerals ρ)

/-- A quantity in scientific notation. -/
def quantity (places : Nat) : Quantity ρ → String
  | .flag b => w.scientific places (w.ofInt (if b then 1 else 0))
  | .whole n => w.scientific places (w.ofInt n)
  | .real x => w.scientific places x

/-- A whole number padded with blanks on the left to four characters. -/
def column (n : Int) : String :=
  let s := toString n
  String.ofList (List.replicate (4 - s.length) ' ') ++ s

end Numerals

namespace Event

variable {ρ : Type}

/-- The written form of an event. -/
def text (w : Numerals ρ) : Event ρ → String
  | .restored status best =>
    status.word ++ ", restored best iterate (|f|=" ++ w.scientific 4 best ++ ")"
  | .exhausted budget => "reset budget of " ++ budget.text w.shortest ++ " exhausted"
  | .reset count budget =>
    "inverse Jacobian reset (" ++ toString count ++ "/" ++ budget.text w.shortest ++ ")"
  | .guarded => "zero secant denominator replaced by 1e-5"

end Event

namespace Line

variable {ρ : Type}

/-- The written form of a line. -/
def text (w : Numerals ρ) : Line ρ → String
  | .opening size resetBudget iterationBudget absolute relative =>
    "[Broyden] Solving n=" ++ toString size ++ " system (max_resets=" ++
      resetBudget.text w.shortest ++ ", maxiters=" ++ iterationBudget.text w.shortest ++
      ", abstol=" ++ w.quantity 1 absolute ++ ", reltol=" ++ w.quantity 1 relative ++ ")"
  | .event step what => "    [Broyden] Step " ++ Numerals.column step ++ ": " ++ what.text w
  | .progress step norm resets =>
    "    [Broyden] Iteration " ++ Numerals.column step ++ ": |f|=" ++ w.scientific 4 norm ++
      ", resets=" ++ toString resets
  | .verdict status =>
    "[Broyden] " ++ (if status = .success then "CONVERGED" else "NOT CONVERGED") ++ " (" ++
      status.word ++ ")"
  | .residualNorm norm => "    Residual norm: " ++ w.scientific 4 norm
  | .counts evaluations steps resets =>
    "    Evaluations: " ++ toString evaluations ++ " function, " ++ toString steps ++ " steps, " ++
      toString resets ++ " resets"

end Line

end QuasiNewton
