import QuasiNewton.Machine.Arithmetic

/-!
# Elements as they are written

An array of a kind is made from numbers as they were written. Every kind takes the numbers it can
stand for: truth values tell zero from the others, whole numbers drop a fraction, and real numbers
are rounded. A number that a kind cannot stand for is refused, with the cause that fits.
-/

namespace QuasiNewton.Machine

open Decimal

/-- A whole number as an element of 64 bits. -/
def wholeElement (n : Int) : Attempt arithmetic Number :=
  if fits n then .ok (.whole n) else .error .outOfRange

/-- The whole part of a double as an element of 64 bits. -/
def truncatedElement (x : Float) : Attempt arithmetic Number :=
  match (Binary.ofFloat x).truncated? with
  | some n => wholeElement n
  | none => .error (if x.isNaN then .unsuitableValue else .outOfRange)

/-- A number as it was written as an element of a kind. -/
def elementOfQuantity (k : Kind) (q : Quantity Float) : Attempt arithmetic Number :=
  match k with
  | .truth => .ok (.whole (if q.compareInt (M := magnitudes) 0 == some .eq then 0 else 1))
  | .integer =>
    match q with
    | .real x => truncatedElement x
    | .whole n => wholeElement n
    | .flag b => wholeElement (if b then 1 else 0)
  | .real _ | .complex _ => do
    let x ← q.magnitude (M := magnitudes)
    return Number.convert k (.real x)

/-- A component as it was written as an element of a kind. -/
def elementOf (k : Kind) : Component Float → Attempt arithmetic Number
  | .number q => elementOfQuantity k q
  | .complex x y =>
    match k with
    | .truth | .complex _ => .ok (Number.convert k (.complex x y))
    | .integer | .real _ => .error .unsuitableType

end QuasiNewton.Machine
