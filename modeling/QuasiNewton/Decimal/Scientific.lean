import QuasiNewton.Decimal.Binary

/-!
# Scientific notation

A finite magnitude is written with a chosen number of digits after the point. `Scientific.round`
works on the exact value of the double and rounds to nearest, ties to even, so the digits are those
of the value itself and not of an approximation. `Scientific.text` is the usual written form with a
signed exponent of at least two digits.
-/

namespace QuasiNewton.Decimal

/-- How many decimal digits a whole number has; zero has one. -/
def digitCount (n : Nat) : Nat := (Nat.toDigits 10 n).length

/-- A magnitude `digits * 10 ^ (exponent - places)`, with `places + 1` digits unless zero. -/
structure Scientific where
  /-- All digits as one whole number. -/
  digits : Nat
  /-- The exponent of the leading digit. -/
  exponent : Int
  deriving DecidableEq, Repr

namespace Scientific

/-- Multiply a fraction by a power of ten. -/
def scale (num den : Nat) : Int → Nat × Nat
  | .ofNat k => (num * Nat.pow 10 k, den)
  | .negSucc k => (num, den * Nat.pow 10 (k + 1))

/-- The exponent of the leading decimal digit of a positive fraction. -/
def leadingExponent (num den : Nat) : Int :=
  let estimate : Int := (digitCount num : Int) - (digitCount den : Int)
  let (n, d) := scale num den (-estimate)
  if d ≤ n then estimate else estimate - 1

/-- A fraction in scientific notation with `places` digits after the point. -/
def round (places num den : Nat) : Scientific :=
  if num = 0 then ⟨0, 0⟩
  else
    let e := leadingExponent num den
    let (n, d) := scale num den (places - e)
    let digits := roundDiv n d
    if digits = Nat.pow 10 (places + 1) then ⟨Nat.pow 10 places, e + 1⟩ else ⟨digits, e⟩

/-- Digits padded with zeros on the left to a width. -/
def padded (width n : Nat) : String :=
  let ds := Nat.toDigits 10 n
  String.ofList (List.replicate (width - ds.length) '0' ++ ds)

/-- A signed exponent of at least two digits. -/
def exponentText (e : Int) : String :=
  (if e < 0 then "-" else "+") ++ padded 2 e.natAbs

/-- The digits with a point after the first. -/
def mantissaText (places digits : Nat) : String :=
  let ds := (padded (places + 1) digits).toList
  String.ofList (ds.take 1) ++ (if places = 0 then "" else "." ++ String.ofList (ds.drop 1))

/-- A double with `places` digits after the point, as in `-1.50e+00`. -/
def text (places : Nat) (x : Float) : String :=
  match Binary.ofFloat x with
  | .undefined => "nan"
  | .infinite negative => if negative then "-inf" else "inf"
  | b@(.finite ..) =>
    match b.fraction? with
    | none => ""
    | some (negative, num, den) =>
      let s := round places num den
      (if negative then "-" else "") ++ mantissaText places s.digits ++ "e" ++
        exponentText s.exponent

end Scientific

end QuasiNewton.Decimal
