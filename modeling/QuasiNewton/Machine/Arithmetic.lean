import QuasiNewton.Arithmetic
import QuasiNewton.Decimal.Reading
import QuasiNewton.Machine.Number

/-!
# Machine arithmetic

The arithmetic in which the solver runs: magnitudes are doubles and the elements of arrays are
machine numbers of seven kinds. Default tolerances follow from the spacing of a precision at one:
its power 4/5 for convergence and its root for the reset check.
-/

namespace QuasiNewton.Machine

open Decimal

/-- What sort of value a double is. -/
def nature (x : Float) : Nature :=
  match Binary.ofFloat x with
  | .undefined => .undefined
  | .infinite _ => .infinite
  | b@(.finite ..) => if b.isWhole then .whole else .fractional

/-- The double nearest to a whole number, unless that is infinite. -/
def ofInt? (n : Int) : Option Float :=
  let x := floatOfInt n
  if x.isInf then none else some x

/-- Doubles as magnitudes. -/
def magnitudes : Magnitudes where
  Real := Float
  zero := 0
  one := 1
  le x y := decide (x ≤ y)
  lt x y := decide (x < y)
  mul x y := x * y
  perRoot x n := x / (Float.ofNat n).sqrt
  root? x := if x < 0 then none else some x.sqrt
  length := hypotenuse
  nature := nature
  ofInt? := ofInt?
  compareInt x n := (Binary.ofFloat x).compareInt n
  ceiling x := (Binary.ofFloat x).ceiling
  read? := readFloat?

/-- The kind of an array that holds a number as it was written; a whole number that does not fit 64
bits counts as a double. -/
def Kind.written : Quantity Float → Kind
  | .flag _ => .truth
  | .whole n => if fits n then .integer else .real .double
  | .real _ => .real .double

/-- Can a whole number be compared with magnitudes of a kind? Beside whole numbers every one can,
beside truth values those of 64 bits, elsewhere those that a double can stand for. -/
def Kind.comparable (k : Kind) (n : Int) : Bool :=
  match k with
  | .truth => fits n
  | .integer => true
  | .real _ | .complex _ => (ofInt? n).isSome

/-- Can an array of a kind be multiplied by a whole number? -/
def Kind.multipliable (k : Kind) (n : Int) : Bool :=
  match k with
  | .truth | .integer => fits n
  | .real _ | .complex _ => (ofInt? n).isSome

/-- The spacing at one to the power 4/5. -/
def Precision.tolerance : Precision → Float
  | .half => 3.910064697265625e-3
  | .single => 2.8909994398418348e-6
  | .double => 3.000213634488528e-13

/-- The square root of the spacing at one. -/
def Precision.resetTolerance : Precision → Float
  | .half => 0.03125
  | .single => 3.452669770922512e-4
  | .double => 1.4901161193847656e-8

/-- The reset tolerance of a precision is above zero. -/
theorem Precision.resetTolerance_pos (p : Precision) :
    magnitudes.compareInt p.resetTolerance 0 = some .gt := by
  cases p <;> rfl

/-- Machine arithmetic. -/
def arithmetic : Arithmetic where
  toMagnitudes := magnitudes
  Kind := Kind
  kindDecidableEq := inferInstance
  Elem := Number
  join := Kind.join
  working := Kind.inexact
  absolute := Kind.absolute
  written := Kind.written
  withReal := Kind.inexact
  withWhole := Kind.withWhole
  quotient := Kind.inexact
  update := Kind.update
  storable := Kind.storable
  comparable := Kind.comparable
  multipliable := Kind.multipliable
  signed k := k ≠ .truth
  convert := Number.convert
  ofReal k x := Number.convert k (.real x)
  ofWhole := Number.ofWhole
  add := Number.add
  sub := Number.sub
  times := Number.mul
  div := Number.div
  neg := Number.neg
  conj := Number.conj
  rankOne := Number.rankOne
  abs := Number.abs
  modulus := Number.modulus
  absSquared := Number.absSquared
  root := Number.root
  toReal _ z := z.re
  elemLe := Number.le
  isZero _ z := z.isZero
  guard k := Number.convert k (.real 1e-5)
  tolerance? k := k.precision?.map Precision.tolerance
  resetTolerance? k := k.precision?.map Precision.resetTolerance
  join_self := Kind.join_self
  storable_self := Kind.storable_self
  working_working := Kind.inexact_inexact
  withReal_working := Kind.inexact_inexact
  quotient_working := Kind.inexact_inexact
  signed_working := Kind.inexact_ne_truth
  resetTolerance_working k := by
    have hprecision : ∃ p, k.inexact.precision? = some p := by cases k <;> exact ⟨_, rfl⟩
    obtain ⟨p, hp⟩ := hprecision
    exact ⟨p.resetTolerance, congrArg (Option.map Precision.resetTolerance) hp,
      p.resetTolerance_pos⟩

end QuasiNewton.Machine
