/-!
# Counters

What a solve counts. The counters of direct Jacobian work exist for comparison with methods that do
such work; this method leaves them at zero.
-/

namespace QuasiNewton

/-- Counters of one solve. -/
structure Statistics where
  /-- Evaluations of the residual. -/
  evaluations : Int := 1
  /-- Steps. -/
  steps : Int := 0
  /-- Evaluations of a Jacobian. -/
  jacobians : Int := 0
  /-- Factorizations. -/
  factorizations : Int := 0
  /-- Linear solves. -/
  linearSolves : Int := 0
  /-- Secant updates whose denominator was replaced. -/
  guards : Int := 0
  deriving DecidableEq, Repr

namespace Statistics

/-- The counts at the start of a solve, which has evaluated the residual once. -/
def fresh : Statistics := {}

/-- The counters by name, in order. -/
inductive Field where
  /-- Evaluations of the residual. -/
  | evaluations
  /-- Steps. -/
  | steps
  /-- Evaluations of a Jacobian. -/
  | jacobians
  /-- Factorizations. -/
  | factorizations
  /-- Linear solves. -/
  | linearSolves
  /-- Replaced denominators. -/
  | guards
  deriving DecidableEq, Repr

namespace Field

/-- All counters in order. -/
def all : List Field := [.evaluations, .steps, .jacobians, .factorizations, .linearSolves, .guards]

/-- The name of a counter. -/
def name : Field → String
  | .evaluations => "nf"
  | .steps => "nsteps"
  | .jacobians => "njacs"
  | .factorizations => "nfactors"
  | .linearSolves => "nsolve"
  | .guards => "ndenom_guards"

/-- The counter of a name. -/
def ofName? (s : String) : Option Field := all.find? (·.name == s)

end Field

/-- Read a counter. -/
def get (s : Statistics) : Field → Int
  | .evaluations => s.evaluations
  | .steps => s.steps
  | .jacobians => s.jacobians
  | .factorizations => s.factorizations
  | .linearSolves => s.linearSolves
  | .guards => s.guards

/-- Set a counter. -/
def set (s : Statistics) (f : Field) (n : Int) : Statistics :=
  match f with
  | .evaluations => { s with evaluations := n }
  | .steps => { s with steps := n }
  | .jacobians => { s with jacobians := n }
  | .factorizations => { s with factorizations := n }
  | .linearSolves => { s with linearSolves := n }
  | .guards => { s with guards := n }

/-- Raise a counter. -/
def bump (s : Statistics) (f : Field) (n : Int) : Statistics := s.set f (s.get f + n)

/-- Counters with the named ones set, the others as at the start; an unknown name stands for
nothing. -/
def ofNames? (counts : List (String × Int)) : Option Statistics :=
  counts.foldlM (fun s (name, n) => (Field.ofName? name).map (s.set · n)) fresh

/-- A counter reads what was last set. -/
theorem get_set (s : Statistics) (f g : Field) (n : Int) :
    (s.set f n).get g = if f = g then n else s.get g := by
  cases f <;> cases g <;> rfl

end Statistics

end QuasiNewton
