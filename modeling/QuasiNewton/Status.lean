/-!
# The outcome of a solve

A solve is running until one of five causes ends it.
-/

namespace QuasiNewton

/-- The outcome of a solve. -/
inductive Status where
  /-- Still running. -/
  | running
  /-- The convergence criterion holds. -/
  | success
  /-- The budget of resets is used up. -/
  | resetsExhausted
  /-- The budget of iterations is used up. -/
  | iterationsExhausted
  /-- The residual stopped improving. -/
  | stalled
  /-- The residual grew out of bounds. -/
  | unstable
  deriving DecidableEq, Repr

namespace Status

/-- All outcomes. -/
def all : List Status :=
  [.running, .success, .resetsExhausted, .iterationsExhausted, .stalled, .unstable]

/-- The name of an outcome in upper case. -/
def name : Status → String
  | .running => "DEFAULT"
  | .success => "SUCCESS"
  | .resetsExhausted => "CONVERGENCE_FAILURE"
  | .iterationsExhausted => "MAX_ITERS"
  | .stalled => "STALLED"
  | .unstable => "UNSTABLE"

/-- The word for an outcome in reports. -/
def word : Status → String
  | .running => "Default"
  | .success => "Success"
  | .resetsExhausted => "ConvergenceFailure"
  | .iterationsExhausted => "MaxIters"
  | .stalled => "Stalled"
  | .unstable => "Unstable"

/-- What an outcome means. -/
def explanation : Status → String
  | .running => "Solve in progress"
  | .success => "Converged"
  | .resetsExhausted => "Inverse Jacobian reset budget exhausted"
  | .iterationsExhausted => "Maximum number of iterations reached"
  | .stalled => "Residual norm stopped improving"
  | .unstable => "Residual norm grew beyond the protective threshold"

/-- The outcome of a name. -/
def ofName? (s : String) : Option Status := all.find? (·.name == s)

/-- The outcome of a word. -/
def ofWord? (s : String) : Option Status := all.find? (·.word == s)

/-- Has the solve ended? -/
def isTerminal (s : Status) : Bool := s ≠ .running

/-- Does the outcome make the solve fall back on the best iterate? -/
def fallsBack (s : Status) : Bool := s = .stalled ∨ s = .unstable

/-- Every outcome is found by its name. -/
theorem ofName?_name (s : Status) : ofName? s.name = some s := by cases s <;> decide

/-- Every outcome is found by its word. -/
theorem ofWord?_word (s : Status) : ofWord? s.word = some s := by cases s <;> decide

end Status

end QuasiNewton
