import QuasiNewton.Machine.ComplexExponential
import QuasiNewton.Machine.ComplexRoot
import QuasiNewton.Machine.Number

/-!
# Elementary functions

The root, the sine, the cosine and the exponential in a kind of real or complex numbers, rounded to
the precision of the kind.
-/

namespace QuasiNewton.Machine

/-- An elementary function. -/
inductive Elementary where
  /-- The square root. -/
  | sqrt
  /-- The sine. -/
  | sin
  /-- The cosine. -/
  | cos
  /-- The exponential. -/
  | exp
  deriving DecidableEq, Repr

namespace Elementary

/-- The function at a double. -/
def onReal : Elementary → Float → Float
  | .sqrt, x => x.sqrt
  | .sin, x => x.sin
  | .cos, x => x.cos
  | .exp, x => x.exp

/-- The function at a complex number. -/
def onComplex : Elementary → Float → Float → Float × Float
  | .sqrt => complexRoot
  | .sin => complexSine
  | .cos => complexCosine
  | .exp => complexExponential

/-- The function in a kind. -/
def apply (f : Elementary) (k : Kind) (z : Number) : Number :=
  match k with
  | .complex p =>
    let (x, y) := f.onComplex z.re z.im
    .complex (p.round x) (p.round y)
  | .real p => .real (p.round (f.onReal z.re))
  | .truth | .integer => .real (f.onReal z.re)

end Elementary

end QuasiNewton.Machine
