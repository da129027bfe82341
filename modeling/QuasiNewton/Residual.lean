import QuasiNewton.Tensor.Elementwise

/-!
# Residual functions

A residual function either returns its value in a new array or writes it into one it is handed.
It is told the number of its call, so that a function that changes between calls is covered.
`Residual.evaluate` counts the call, a failing one included. How many parameters a function takes
by position decides which form it has when the caller does not say.
-/

namespace QuasiNewton

/-- A residual function of the caller with parameters of a type. -/
inductive Residual (A : Arithmetic) (P : Type) where
  /-- Returns the residual at an iterate. -/
  | returning (f : Nat → Tensor A → P → Attempt A (Tensor A))
  /-- Is handed an array and an iterate, and answers what it writes into the array. -/
  | writing (f : Nat → Tensor A → Tensor A → P → Attempt A (Tensor A))

namespace Residual

variable {A : Arithmetic} {P : Type}

/-- Does the function write its value into an array? -/
def writes : Residual A P → Bool
  | .returning _ => false
  | .writing _ => true

/-- The residual at an iterate and the number of calls made by then. The array is used by a
function that writes; its kind and shape stay. -/
def evaluate (F : Residual A P) (calls : Nat) (array iterate : Tensor A) (parameter : P) :
    Attempt A (Tensor A) × Nat :=
  match F with
  | .returning f => (f (calls + 1) iterate parameter, calls + 1)
  | .writing f =>
    ((f (calls + 1) array iterate parameter).map array.overwrite, calls + 1)

/-- How a parameter of a function may be given. -/
inductive ParameterKind where
  /-- By position only. -/
  | positionOnly
  /-- By position or by name. -/
  | positionOrName
  /-- All further positions. -/
  | positions
  /-- By name only. -/
  | nameOnly
  /-- All further names. -/
  | names
  deriving DecidableEq, Repr

/-- Does a parameter stand for one position? -/
def ParameterKind.isPositional : ParameterKind → Bool
  | .positionOnly | .positionOrName => true
  | .positions | .nameOnly | .names => false

/-- What is known of a value that should be a residual function. -/
inductive Callee (ρ : Type) where
  /-- A function with these parameters. -/
  | signature (parameters : List ParameterKind)
  /-- A function whose parameters cannot be told. -/
  | unknown
  /-- No function at all. -/
  | value (s : Setting ρ)

/-- A function with exactly three positions writes; one whose parameters cannot be told returns. -/
def Callee.writes {ρ : Type} : Callee ρ → Except (Fault ρ) Bool
  | .signature parameters => .ok ((parameters.filter (·.isPositional)).length == 3)
  | .unknown => .ok false
  | .value s => .error (.uncallableResidual s.typeName)

/-- Does a function write, as the caller says or else as its parameters tell? A value that is no
function is refused either way. -/
def Callee.form {ρ : Type} (c : Callee ρ) (said : Option Bool) : Except (Fault ρ) Bool :=
  c.writes.map said.getD

end Residual

end QuasiNewton
