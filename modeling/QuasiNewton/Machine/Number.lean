import QuasiNewton.Machine.Hypotenuse
import QuasiNewton.Machine.Kind

/-!
# Machine numbers

A machine number is a whole number, a double, or a pair of doubles. Every operation is told the
kind it works in: whole numbers wrap at 64 bits, and real and complex results are rounded part by
part to the precision of the kind. Complex products are formed from the four partial products;
complex quotients divide by the larger part of the divisor first, so that no square overflows.
-/

namespace QuasiNewton.Machine

open Decimal

/-- A machine number. -/
inductive Number where
  /-- A whole number, or zero and one for a truth value. -/
  | whole (n : Int)
  /-- A real number. -/
  | real (x : Float)
  /-- A complex number. -/
  | complex (re im : Float)

/-- Does a whole number fit 64 bits? -/
def fits (n : Int) : Bool := -Int.pow 2 63 ≤ n && n < Int.pow 2 63

/-- A whole number brought into 64 bits. -/
def wrap (n : Int) : Int := n.bmod (Nat.pow 2 64)

namespace Number

/-- The real part. -/
def re : Number → Float
  | .whole n => floatOfInt n
  | .real x => x
  | .complex x _ => x

/-- The imaginary part. -/
def im : Number → Float
  | .whole _ | .real _ => 0
  | .complex _ y => y

/-- The part of a double before the point; the least whole number stands for what does not fit. -/
def truncate (x : Float) : Int :=
  match (Binary.ofFloat x).truncated? with
  | some n => if fits n then n else -Int.pow 2 63
  | none => -Int.pow 2 63

/-- The whole number. -/
def integer : Number → Int
  | .whole n => n
  | .real x => truncate x
  | .complex x _ => truncate x

/-- Is the number zero? -/
def isZero : Number → Bool
  | .whole n => n == 0
  | .real x => x == 0
  | .complex x y => x == 0 && y == 0

/-- The real part rounded to a precision; a whole number is rounded only once. -/
def roundedRe (p : Precision) : Number → Float
  | .whole n => p.ofInt n
  | .real x => p.round x
  | .complex x _ => p.round x

/-- The number converted to a kind. -/
def convert (k : Kind) (z : Number) : Number :=
  match k with
  | .truth => .whole (if z.isZero then 0 else 1)
  | .integer => .whole z.integer
  | .real p => .real (z.roundedRe p)
  | .complex p => .complex (z.roundedRe p) (p.round z.im)

/-- A whole number beside an array of a kind. In a kind with a precision it is a double first. -/
def ofWhole (k : Kind) (n : Int) : Number :=
  if k.isInexact then convert k (.real (floatOfInt n)) else convert k (.whole n)

/-- The sum. -/
def add (k : Kind) (a b : Number) : Number :=
  match k with
  | .truth => .whole (if a.isZero && b.isZero then 0 else 1)
  | .integer => .whole (wrap (a.integer + b.integer))
  | .real p => .real (p.round (a.re + b.re))
  | .complex p => .complex (p.round (a.re + b.re)) (p.round (a.im + b.im))

/-- The difference. -/
def sub (k : Kind) (a b : Number) : Number :=
  match k with
  | .truth | .integer => .whole (wrap (a.integer - b.integer))
  | .real p => .real (p.round (a.re - b.re))
  | .complex p => .complex (p.round (a.re - b.re)) (p.round (a.im - b.im))

/-- The product. -/
def mul (k : Kind) (a b : Number) : Number :=
  match k with
  | .truth => .whole (if a.isZero || b.isZero then 0 else 1)
  | .integer => .whole (wrap (a.integer * b.integer))
  | .real p => .real (p.round (a.re * b.re))
  | .complex p =>
    .complex (p.round (p.round (a.re * b.re) - p.round (a.im * b.im)))
      (p.round (p.round (a.re * b.im) + p.round (a.im * b.re)))

/-- A complex quotient by a divisor whose real part is the larger: the parts of `(a + b i) / (c + d
i)` from `d / c` and `1 / (c + d (d / c))`. -/
def quotientParts (p : Precision) (a b c d : Float) : Float × Float :=
  let ratio := p.round (d / c)
  let factor := p.round (1 / p.round (c + p.round (d * ratio)))
  (p.round (p.round (a + p.round (b * ratio)) * factor),
    p.round (p.round (b - p.round (a * ratio)) * factor))

/-- The quotient. -/
def div (k : Kind) (a b : Number) : Number :=
  match k with
  | .truth | .integer => .real (a.re / b.re)
  | .real p => .real (p.round (a.re / b.re))
  | .complex p =>
    if b.isZero then .complex (p.round (a.re / b.re.abs)) (p.round (a.im / b.re.abs))
    else if b.re.abs ≥ b.im.abs then
      let (x, y) := quotientParts p a.re a.im b.re b.im
      .complex x y
    else
      -- turn both numbers by a right angle, which leaves the quotient as it is
      let (x, y) := quotientParts p a.im (-a.re) b.im (-b.re)
      .complex x y

/-- The negative. -/
def neg (k : Kind) (a : Number) : Number :=
  match k with
  | .truth | .integer => .whole (wrap (-a.integer))
  | .real _ => .real (-a.re)
  | .complex _ => .complex (-a.re) (-a.im)

/-- The complex conjugate. -/
def conj (k : Kind) (a : Number) : Number :=
  match k with
  | .complex _ => .complex a.re (-a.im)
  | _ => a

/-- The entry at a flat position of a matrix after a column times a row was added to it: the product
is rounded first, and then the sum. -/
def rankOne (k : Kind) (_rows columns : Nat) (matrix column row : Nat → Number) (i : Nat) :
    Number :=
  add k (matrix i) (mul k (column (i / columns)) (row (i % columns)))

/-- The magnitude of an element of an array. -/
def abs (k : Kind) (a : Number) : Number :=
  match k with
  | .truth => a
  | .integer => .whole (wrap a.integer.natAbs)
  | .real _ => .real a.re.abs
  | .complex p => .real (scaledHypotenuse p a.re a.im)

/-- The magnitude of a single number. Squares of numbers of a short precision are exact in doubles,
so that the root needs no correction there. -/
def modulus (k : Kind) (a : Number) : Float :=
  match k with
  | .truth | .integer | .real _ => (abs k a).re
  | .complex .double => hypotenuse a.re a.im
  | .complex p => lengthBy (fun x y => p.round (x * x + y * y).sqrt) a.re a.im

/-- The square of the magnitude. -/
def absSquared (k : Kind) (a : Number) : Number :=
  match k with
  | .truth | .integer => mul k a a
  | .real p => .real (p.round (a.re * a.re))
  | .complex p => .real (p.round (p.round (a.re * a.re) + p.round (a.im * a.im)))

/-- The square root of a magnitude. -/
def root (k : Kind) (a : Number) : Number :=
  .real (((k.precision?).getD .double).round a.re.sqrt)

/-- The order of magnitudes. -/
def le (k : Kind) (a b : Number) : Bool :=
  match k with
  | .truth | .integer => decide (a.integer ≤ b.integer)
  | .real _ | .complex _ => decide (a.re ≤ b.re)

end Number

end QuasiNewton.Machine
