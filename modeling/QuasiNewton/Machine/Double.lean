import QuasiNewton.Machine.Precision

/-!
# Signs and bounds of doubles

The sign of a double shows on zero too, and its range ends at `leastNormal`, below which precision
is lost, and at `largest`.
-/

namespace QuasiNewton.Machine

/-- A power of two. -/
def powerOfTwo (e : Int) : Float := Precision.double.nearest false 1 e

/-- The largest finite double. -/
def largest : Float := Precision.double.nearest false (Nat.pow 2 53 - 1) 971

/-- The least double of full precision. -/
def leastNormal : Float := powerOfTwo (-1022)

/-- Beyond every number. -/
def infinity : Float := 1.0 / 0.0

/-- Not a number. -/
def undefined : Float := 0.0 / 0.0

/-- Is the sign of a double negative, also on zero? -/
def signedNegative (x : Float) : Bool := decide (Nat.pow 2 63 ≤ x.toBits.toNat)

/-- A double with the sign of another. -/
def withSignOf (x y : Float) : Float :=
  if signedNegative x == signedNegative y then x else -x

end QuasiNewton.Machine
