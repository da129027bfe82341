/-!
# The exact value of a double

A finite double is a whole number times a power of two. `Binary.ofFloat` reads both off the bit
pattern, so that every decimal text and every conversion below is computed in exact whole-number
arithmetic. `roundDiv` is the one rounding rule of the library: to nearest, ties to even.
-/

namespace QuasiNewton.Decimal

/-- A double, taken apart. -/
inductive Binary where
  /-- Not a number. -/
  | undefined
  /-- An infinity with its sign. -/
  | infinite (negative : Bool)
  /-- The value `mantissa * 2 ^ exponent` with its sign; zero has mantissa zero. -/
  | finite (negative : Bool) (mantissa : Nat) (exponent : Int)
  deriving DecidableEq, Repr

namespace Binary

/-- Take a double apart into sign, 53-bit whole mantissa and exponent of two. -/
def ofFloat (x : Float) : Binary :=
  let bits : Nat := x.toBits.toNat
  let negative := decide (Nat.pow 2 63 ≤ bits)
  let biased : Nat := bits / Nat.pow 2 52 % Nat.pow 2 11
  let fraction : Nat := bits % Nat.pow 2 52
  if biased = 2047 then
    if fraction = 0 then .infinite negative else .undefined
  else if biased = 0 then .finite negative fraction (-1074)
  else .finite negative (Nat.pow 2 52 + fraction) ((biased : Int) - 1075)

/-- The sign and the magnitude as a fraction; infinities and NaN have none. -/
def fraction? : Binary → Option (Bool × Nat × Nat)
  | .finite negative m (.ofNat e) => some (negative, m * Nat.pow 2 e, 1)
  | .finite negative m (.negSucc e) => some (negative, m, Nat.pow 2 (e + 1))
  | _ => none

/-- The part before the point, rounded toward zero. -/
def truncated? (b : Binary) : Option Int :=
  b.fraction?.map fun (negative, num, den) =>
    if negative then -((num / den : Nat) : Int) else ((num / den : Nat) : Int)

/-- Is the value a whole number? Infinities and NaN are not. -/
def isWhole (b : Binary) : Bool :=
  match b.fraction? with
  | some (_, num, den) => num % den == 0
  | none => false

/-- Compare with a whole number exactly; NaN compares with nothing. -/
def compareInt (b : Binary) (n : Int) : Option Ordering :=
  match b with
  | .undefined => none
  | .infinite negative => some (if negative then .lt else .gt)
  | .finite .. =>
    b.fraction?.map fun (negative, num, den) =>
      compare (if negative then -(num : Int) else (num : Int)) (n * den)

/-- The least natural number that is not below the value; an infinite value has no such number
and gets the width of a machine counter, NaN gets zero. -/
def ceiling (b : Binary) : Nat :=
  match b with
  | .undefined => 0
  | .infinite negative => if negative then 0 else Nat.pow 2 62
  | .finite .. =>
    match b.fraction? with
    | some (false, num, den) => (num + den - 1) / den
    | _ => 0

end Binary

/-- A quotient rounded to the nearest whole number, a tie to the even one. -/
def roundDiv (num den : Nat) : Nat :=
  let quotient := num / den
  let remainder := num % den
  if 2 * remainder < den then quotient
  else if den < 2 * remainder then quotient + 1
  else quotient + quotient % 2

/-- The double nearest to `± num / den`. -/
def nearestFloat (negative : Bool) (num den : Nat) : Float :=
  if num = 0 ∨ den = 0 then (if negative then -0.0 else 0.0)
  else
    -- scale the quotient to a whole number of 53 bits, unless the result is subnormal
    let estimate : Int := (num.log2 : Int) - (den.log2 : Int)
    let scaledBy (e : Int) : Nat × Nat :=
      match e with
      | .ofNat k => (num, den * Nat.pow 2 k)
      | .negSucc k => (num * Nat.pow 2 (k + 1), den)
    let leading := (scaledBy estimate).2 ≤ (scaledBy estimate).1
    let top := if leading then estimate else estimate - 1
    let unit := max (top - 52) (-1074)
    let (n, d) := scaledBy unit
    let mantissa := roundDiv n d
    let (mantissa, unit) :=
      if mantissa = Nat.pow 2 53 then (Nat.pow 2 52, unit + 1) else (mantissa, unit)
    let magnitude :=
      if 971 < unit then 0x7FF0000000000000
      else if mantissa < Nat.pow 2 52 then mantissa
      else ((unit + 1075).toNat) * Nat.pow 2 52 + (mantissa - Nat.pow 2 52)
    Float.ofBits (UInt64.ofNat (if negative then Nat.pow 2 63 + magnitude else magnitude))

/-- The double nearest to a whole number; large magnitudes become infinite. -/
def floatOfInt (n : Int) : Float := nearestFloat (n < 0) n.natAbs 1

/-- Read a double from the text of a nonnegative decimal, `digits * 10 ^ exponent`. -/
def floatOfDecimal (negative : Bool) (digits : Nat) (exponent : Int) : Float :=
  match exponent with
  | .ofNat k => if 400 < k ∧ digits ≠ 0 then (if negative then -(1.0 / 0.0) else 1.0 / 0.0)
      else nearestFloat negative (digits * Nat.pow 10 k) 1
  | .negSucc k => nearestFloat negative digits (Nat.pow 10 (k + 1))

end QuasiNewton.Decimal
