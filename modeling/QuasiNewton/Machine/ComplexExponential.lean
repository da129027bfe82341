import QuasiNewton.Machine.Double

/-!
# The complex exponential, sine and cosine

All three are products of a sine and a cosine with functions that grow exponentially. Such a product
may be in range where the exponential is not; it is then formed in portions. Infinite and undefined
parts follow the limits of the functions, and a part that is zero on an axis stays zero.
-/

namespace QuasiNewton.Machine

/-- The sine and the cosine; the least magnitudes are their own sines. -/
def sineCosine (x : Float) : Float × Float :=
  if leastNormal < x.abs then (x.sin, x.cos) else (x, 1)

/-- Two multiples of an exponential that is not formed yet. -/
structure Growing where
  /-- The exponent. -/
  exponent : Float
  /-- The first multiple. -/
  first : Float
  /-- The second multiple. -/
  second : Float

namespace Growing

/-- The largest exponent that is formed at once. -/
def portion : Float := 709

/-- Take a portion out of an exponent that exceeds it, given the factor that stands for it. -/
def advance (factor : Float) (g : Growing) : Growing :=
  if portion < g.exponent then ⟨g.exponent - portion, factor * g.first, factor * g.second⟩ else g

/-- The products with the exponential. -/
def products (g : Growing) : Float × Float :=
  let factor := if portion < g.exponent then largest else g.exponent.exp
  (factor * g.first, factor * g.second)

end Growing

/-- The products `(a * exp x, b * exp x)`. -/
def exponentialTimes (x a b : Float) : Float × Float :=
  let factor := Growing.portion.exp
  (((⟨x, a, b⟩ : Growing).advance factor).advance factor).products

/-- The products `(a * cosh x, b * sinh x)`. -/
def hyperbolicTimes (x a b : Float) : Float × Float :=
  if Growing.portion < x.abs then
    -- here both functions are half an exponential
    let factor := Growing.portion.exp
    let signed := if signedNegative x then -b else b
    (((⟨x.abs, a, signed⟩ : Growing).advance (factor / 2)).advance factor).products
  else (x.cosh * a, x.sinh * b)

/-- The complex exponential. -/
def complexExponential (x y : Float) : Float × Float :=
  let (sine, cosine) := sineCosine y
  if x.isNaN then (x, if y == 0 then y else undefined)
  else if y.isFinite then
    if x.isFinite then exponentialTimes x cosine sine
    else
      let limit := if x < 0 then 0 else infinity
      if y == 0 then (limit, y) else (withSignOf limit cosine, withSignOf limit sine)
  else if x.isFinite then (undefined, undefined)
  else if x < 0 then (0, withSignOf 0 y)
  else (x, undefined)

/-- The complex sine. -/
def complexSine (x y : Float) : Float × Float :=
  let (sine, cosine) := sineCosine x
  if y.isNaN then (if x == 0 then x else undefined, y)
  else if x.isFinite then
    if y.isFinite then hyperbolicTimes y sine cosine
    else if x == 0 then (x, y)
    else (withSignOf infinity sine, if y < 0 then -withSignOf infinity cosine
      else withSignOf infinity cosine)
  else if y.isInf then (undefined, infinity)
  else (undefined, if y == 0 then y else undefined)

/-- The complex cosine, which is the hyperbolic cosine of `-y + x i`. -/
def complexCosine (x y : Float) : Float × Float :=
  let (sine, cosine) := sineCosine x
  if y.isNaN then (y, if x == 0 then x else undefined)
  else if x.isFinite then
    if y.isFinite then hyperbolicTimes (-y) cosine sine
    else
      let side := withSignOf 1 (-y)
      if x == 0 then (infinity, x * side)
      else (withSignOf infinity cosine, withSignOf infinity sine * side)
  else if y.isInf then (infinity, undefined)
  else (undefined, if y == 0 then 0 else undefined)

end QuasiNewton.Machine
