import QuasiNewton.Decimal.Scientific

/-!
# The shortest decimal that reads back

`Shortest.find` gives a positive double the fewest decimal digits that lie in its rounding interval,
and among those the digits nearest to the value. On each decimal grid only the two neighbours of
the value can be nearest, so testing these two on grids of one to seventeen digits finds the answer.
`Layout` is the written form: which exponents are positional and how the others are marked.
-/

namespace QuasiNewton.Decimal

namespace Shortest

/-- Is `digits * 10 ^ grid` below (or at) `bound * 2 ^ unit`? The answer is exact. -/
def below (digits : Nat) (grid : Int) (bound : Nat) (unit : Int) : Ordering :=
  let left := digits * Nat.pow 10 grid.toNat * Nat.pow 2 (-unit).toNat
  let right := bound * Nat.pow 2 unit.toNat * Nat.pow 10 (-grid).toNat
  compare left right

/-- Does the decimal round to the double of mantissa `m` and exponent `e`? The ends of the
interval belong to it exactly when the mantissa is even. -/
def readsBack (m : Nat) (e : Int) (digits : Nat) (grid : Int) : Bool :=
  let lowerStep := if m = Nat.pow 2 52 ∧ -1074 < e then 1 else 2
  let lower := below digits grid (4 * m - lowerStep) (e - 2)
  let upper := below digits grid (4 * m + 2) (e - 2)
  let closed := m % 2 == 0
  (lower == .gt || (closed && lower == .eq)) && (upper == .lt || (closed && upper == .eq))

/-- The nearer of a value's two neighbours on a decimal grid that read back, if any does. -/
def onGrid (m : Nat) (e : Int) (num den : Nat) (grid : Int) : Option Nat :=
  let (n, d) := Scientific.scale num den (-grid)
  let floor := n / d
  let nearest := roundDiv n d
  let other := if nearest = floor then floor + 1 else floor
  if readsBack m e nearest grid then some nearest
  else if readsBack m e other grid then some other
  else none

/-- Search grids with more and more digits. -/
def search (m : Nat) (e : Int) (num den : Nat) (leading : Int) : Nat → Nat → Scientific
  | 0, _ => Scientific.round 16 num den
  | fuel + 1, places =>
    match onGrid m e num den (leading - places) with
    | some digits =>
      if digits = Nat.pow 10 (places + 1) then ⟨1, leading + 1⟩ else ⟨digits, leading⟩
    | none => search m e num den leading fuel (places + 1)

/-- The shortest digits of the positive double `m * 2 ^ e`. -/
def find (m : Nat) (e : Int) (num den : Nat) : Scientific :=
  search m e num den (Scientific.leadingExponent num den) 17 0

end Shortest

/-- How the digits of a number are laid out. -/
structure Layout where
  /-- The least exponent that is written positionally. -/
  leastPositional : Int
  /-- The first exponent above the positional ones. -/
  firstScientific : Int
  /-- Is `.0` kept on a whole number that is written positionally? -/
  keepsPoint : Bool

namespace Layout

/-- Zeros without trailing digits are dropped from a whole number. -/
private def stripZeros (digits : List Char) : List Char :=
  let kept := (digits.reverse.dropWhile (· == '0')).reverse
  if kept.isEmpty then ['0'] else kept

/-- Lay out nonzero digits whose leading digit has the given exponent. -/
def place (l : Layout) (s : Scientific) : String :=
  let ds := stripZeros (Nat.toDigits 10 s.digits)
  let point := s.exponent + 1
  if l.leastPositional ≤ s.exponent ∧ s.exponent < l.firstScientific then
    if point ≤ 0 then
      "0." ++ String.ofList (List.replicate (-point).toNat '0' ++ ds)
    else if ds.length ≤ point.toNat then
      String.ofList (ds ++ List.replicate (point.toNat - ds.length) '0') ++
        (if l.keepsPoint then ".0" else "")
    else
      String.ofList (ds.take point.toNat) ++ "." ++ String.ofList (ds.drop point.toNat)
  else
    String.ofList (ds.take 1) ++
      (if ds.length = 1 then "" else "." ++ String.ofList (ds.drop 1)) ++ "e" ++
      Scientific.exponentText s.exponent

/-- The shortest text of a double in a layout. -/
def text (l : Layout) (x : Float) : String :=
  match Binary.ofFloat x with
  | .undefined => "nan"
  | .infinite negative => if negative then "-inf" else "inf"
  | .finite negative m e =>
    let sign := if negative then "-" else ""
    if m = 0 then sign ++ (if l.keepsPoint then "0.0" else "0")
    else
      match (Binary.finite negative m e).fraction? with
      | none => ""
      | some (_, num, den) => sign ++ l.place (Shortest.find m e num den)

end Layout

end QuasiNewton.Decimal
