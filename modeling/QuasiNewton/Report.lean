import QuasiNewton.Transcript
import QuasiNewton.Statistics
import QuasiNewton.Tensor.Basic

/-!
# The report of a solve

A report holds the final iterate, its residual, the outcome with a message and the counts. Its
fields can be read by name in a fixed order; they cannot be set.
-/

namespace QuasiNewton

/-- The message of a report. -/
inductive Message (ρ : Type) where
  /-- The criterion held after some steps. -/
  | converged (norm : ρ) (steps : Int)
  /-- The solve ended for another cause. -/
  | notConverged (status : Status)
  /-- A text given by the caller. -/
  | verbatim (text : String)

/-- The written form of a message. -/
def Message.text {ρ : Type} (w : Numerals ρ) : Message ρ → String
  | .converged norm steps =>
    "Converged: residual norm " ++ w.scientific 2 norm ++ " after " ++ toString steps ++ " steps"
  | .notConverged status => "Not converged: " ++ status.explanation
  | .verbatim text => text

/-- The report of a solve. -/
structure Report (A : Arithmetic) where
  /-- The final iterate. -/
  iterate : Tensor A
  /-- The residual there. -/
  residual : Tensor A
  /-- The outcome. -/
  status : Status
  /-- Is the outcome success? -/
  success : Bool
  /-- The outcome in words. -/
  message : Message A.Real
  /-- Evaluations of the residual. -/
  evaluations : Int
  /-- Steps. -/
  steps : Int
  /-- Resets of the inverse Jacobian. -/
  resets : Int := 0
  /-- The norm of the residual. -/
  residualNorm : Quantity A.Real
  /-- All counters, if they are known. -/
  statistics : Option Statistics := none

namespace Report

variable {A : Arithmetic}

/-- The fields of a report. -/
inductive Field where
  /-- The final iterate. -/
  | iterate
  /-- The residual there. -/
  | residual
  /-- The outcome. -/
  | status
  /-- Is the outcome success? -/
  | success
  /-- The outcome in words. -/
  | message
  /-- Evaluations of the residual. -/
  | evaluations
  /-- Steps. -/
  | steps
  /-- Resets. -/
  | resets
  /-- The norm of the residual. -/
  | residualNorm
  /-- All counters. -/
  | statistics
  deriving DecidableEq, Repr

namespace Field

/-- All fields in order. -/
def all : List Field :=
  [.iterate, .residual, .status, .success, .message, .evaluations, .steps, .resets, .residualNorm,
    .statistics]

/-- The name of a field. -/
def name : Field → String
  | .iterate => "u"
  | .residual => "fu"
  | .status => "retcode"
  | .success => "success"
  | .message => "message"
  | .evaluations => "nf"
  | .steps => "nsteps"
  | .resets => "resets"
  | .residualNorm => "residual_norm"
  | .statistics => "stats"

/-- The field of a name. -/
def ofName? (s : String) : Option Field := all.find? (·.name == s)

/-- Every field is found by its name. -/
theorem ofName?_name (f : Field) : ofName? f.name = some f := by cases f <;> decide

end Field

/-- The value of a field. -/
inductive Value (A : Arithmetic) where
  /-- An array. -/
  | tensor (t : Tensor A)
  /-- An outcome. -/
  | status (s : Status)
  /-- A truth value. -/
  | flag (b : Bool)
  /-- A message. -/
  | message (m : Message A.Real)
  /-- A count. -/
  | count (n : Int)
  /-- A number. -/
  | quantity (q : Quantity A.Real)
  /-- Counters, if they are known. -/
  | statistics (s : Option Statistics)

/-- The value of a field. -/
def get (r : Report A) : Field → Value A
  | .iterate => .tensor r.iterate
  | .residual => .tensor r.residual
  | .status => .status r.status
  | .success => .flag r.success
  | .message => .message r.message
  | .evaluations => .count r.evaluations
  | .steps => .count r.steps
  | .resets => .count r.resets
  | .residualNorm => .quantity r.residualNorm
  | .statistics => .statistics r.statistics

/-- The names of the fields in order. -/
def names : List String := Field.all.map Field.name

/-- Is there a field of a name? -/
def hasField (name : String) : Bool := names.contains name

/-- The value of the field of a name. -/
def lookup (r : Report A) (name : String) : Attempt A (Value A) :=
  match Field.ofName? name with
  | some f => .ok (r.get f)
  | none => .error .noSuchField

/-- The fields of a report cannot be set. -/
def assign (_ : Report A) (_ : String) : Attempt A (Report A) := .error .noSuchField

end Report

end QuasiNewton
