import QuasiNewton.Machine.Hypotenuse

/-!
# The complex square root

`complexRoot` is the root in the right half plane. The root of a number on an axis is that of a
magnitude. Off the axes the larger part of the root comes from the hypotenuse, and the smaller from
the larger, because twice their product is the imaginary part of the number. Numbers near the ends
of the range are scaled by a power of four first.
-/

namespace QuasiNewton.Machine

/-- The larger part of a root, and twice the smaller part, of a number with sides in range. -/
def rootParts (a b : Float) : Float × Float :=
  let larger := (0.5 * (hypotenuse a b + a)).sqrt
  (larger, b / larger)

/-- The parts of the root of a number off the axes with nonnegative parts. -/
def rootOffAxes (a b : Float) : Float × Float :=
  if largest / 4 < a || largest / 4 < b then
    let (larger, quotient) := rootParts (a / 4) (b / 4)
    (2 * larger, quotient)
  else if a < 2 * leastNormal && b < 2 * leastNormal then
    let (larger, quotient) := rootParts (powerOfTwo 54 * a) (powerOfTwo 54 * b)
    (powerOfTwo (-27) * larger, powerOfTwo (-27) * (0.5 * quotient))
  else
    let (larger, quotient) := rootParts a b
    (larger, 0.5 * quotient)

/-- Both parts of the root of a number on the imaginary axis, from its magnitude. -/
def rootOnImaginaryAxis (b : Float) : Float :=
  if 2 * leastNormal ≤ b then (0.5 * b).sqrt else 0.5 * (2 * b).sqrt

/-- The root of a finite number. -/
def finiteRoot (x y : Float) : Float × Float :=
  if y == 0 then
    if x < 0 then (0, withSignOf (-x).sqrt y) else (x.sqrt.abs, withSignOf 0 y)
  else if x == 0 then
    let part := rootOnImaginaryAxis y.abs
    (part, withSignOf part y)
  else
    -- beside a huge imaginary part a tiny real part does not count
    let x := if largest / 4 < y.abs && x.abs < 4 * leastNormal then 0 else x
    let (larger, smaller) := rootOffAxes x.abs y.abs
    if 0 < x then (larger, withSignOf smaller y) else (smaller, withSignOf larger y)

/-- The complex root. -/
def complexRoot (x y : Float) : Float × Float :=
  if y.isInf then (infinity, y)
  else if x.isInf then
    let small := if y.isNaN then undefined else 0
    if x < 0 then (small, withSignOf infinity y) else (x, withSignOf small y)
  else if x.isNaN || y.isNaN then (undefined, undefined)
  else finiteRoot x y

end QuasiNewton.Machine
