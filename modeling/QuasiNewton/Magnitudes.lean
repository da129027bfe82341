/-!
# Magnitudes

Norms, tolerances and step lengths are real numbers of some kind: doubles in a program that runs,
real numbers in a theorem about it. `Magnitudes` lists what the solver asks of them. Orders are
truth-valued functions, so that a value that compares with nothing is covered.
-/

namespace QuasiNewton

/-- What sort of value a magnitude is. -/
inductive Nature where
  /-- Not a number. -/
  | undefined
  /-- Beyond every number. -/
  | infinite
  /-- A whole number. -/
  | whole
  /-- A number that is not whole. -/
  | fractional
  deriving DecidableEq, Repr

/-- A system of norms, tolerances and step lengths. -/
structure Magnitudes where
  /-- The values. -/
  Real : Type
  /-- Zero. -/
  zero : Real
  /-- One, the length of a full step. -/
  one : Real
  /-- The order. -/
  le : Real → Real → Bool
  /-- The strict order. -/
  lt : Real → Real → Bool
  /-- The product. -/
  mul : Real → Real → Real
  /-- A value divided by the square root of a positive count. -/
  perRoot : Real → Nat → Real
  /-- The square root, unless the value is negative. -/
  root? : Real → Option Real
  /-- The length of a vector with two components. -/
  length : Real → Real → Real
  /-- What sort of value it is. -/
  nature : Real → Nature
  /-- The value nearest to a whole number, unless that is out of range. -/
  ofInt? : Int → Option Real
  /-- The exact order of a value and a whole number. -/
  compareInt : Real → Int → Option Ordering
  /-- A count that bounds all whole numbers below the value. -/
  ceiling : Real → Nat
  /-- The value that a text writes. -/
  read? : String → Option Real

namespace Magnitudes

variable (M : Magnitudes)

/-- Is the value a number, neither infinite nor undefined? -/
def isFinite (x : M.Real) : Bool :=
  match M.nature x with
  | .whole | .fractional => true
  | .undefined | .infinite => false

end Magnitudes

end QuasiNewton
