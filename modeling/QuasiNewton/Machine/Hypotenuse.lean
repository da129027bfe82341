import QuasiNewton.Machine.Double

/-!
# The hypotenuse

The length of a pair of sides is computed in two ways. `hypotenuse` is for a single pair: the root
of the sum of squares is corrected by the error of its own square, so that sides 20 and 99 give
exactly 101. `scaledHypotenuse` is for the elements of arrays: the longer side times the root of one
plus the squared ratio of the sides. In both an infinite side makes the result infinite, even beside
NaN.
-/

namespace QuasiNewton.Machine

open Decimal

/-- The longer of two finite sides and the shorter. -/
def sortedSides (x y : Float) : Float × Float :=
  if x.abs ≤ y.abs then (y.abs, x.abs) else (x.abs, y.abs)

/-- The length of a pair of sides, given how to compute it for finite ones, the longer first. -/
def lengthBy (ofFinite : Float → Float → Float) (x y : Float) : Float :=
  if x.isInf || y.isInf then infinity
  else if x.isNaN || y.isNaN then undefined
  else
    let (long, short) := sortedSides x y
    ofFinite long short

/-- The root of a sum of squares, corrected by the difference of its own square from the sum. -/
def correctedRoot (long short : Float) : Float :=
  let h := (long * long + short * short).sqrt
  let excess :=
    if h ≤ 2 * short then
      let d := h - short
      long * (2 * d - long) + (d - 2 * (long - short)) * d
    else
      let d := h - long
      2 * d * (long - 2 * short) + ((4 * d - short) * short + d * d)
  h - excess / (2 * h)

/-- The corrected root of sides that are scaled so that no square leaves the range; a side too short
to matter is only added. -/
def scaledCorrectedRoot (long short : Float) : Float :=
  let scale := powerOfTwo (-600)
  let least := powerOfTwo (-54)
  if powerOfTwo 511 < long then
    if short ≤ long * least then long + short
    else correctedRoot (long * scale) (short * scale) / scale
  else if short < powerOfTwo (-459) then
    if short / least ≤ long then long + short
    else correctedRoot (long / scale) (short / scale) * scale
  else if short ≤ long * least then long + short
  else correctedRoot long short

/-- The hypotenuse of a single pair of sides. -/
def hypotenuse (x y : Float) : Float := lengthBy scaledCorrectedRoot x y

/-- One plus a square, rounded once. -/
def Precision.onePlusSquare (p : Precision) (x : Float) : Float :=
  match Binary.ofFloat x with
  | .finite _ m e =>
    let k := (-e).toNat
    p.nearest false (m * m * Nat.pow 4 e.toNat + Nat.pow 4 k) (-(2 * k : Nat))
  | .undefined | .infinite _ => x * x

/-- The hypotenuse as it is computed for the elements of an array. -/
def scaledHypotenuse (p : Precision) (x y : Float) : Float :=
  lengthBy (fun long short =>
    if long == 0 then 0
    else
      let ratio := p.round (short / long)
      p.round (long * p.round (p.onePlusSquare ratio).sqrt)) x y

end QuasiNewton.Machine
