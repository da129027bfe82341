import QuasiNewton.Decimal.Binary
import QuasiNewton.Text.Digit

/-!
# Reading numbers from text

A written number is an optional sign, digits that may be grouped by single underscores, an optional
fraction and an optional exponent, with blanks allowed around it; infinities and NaN are written as
words in either case. Digits and blanks may be those of any script. `readFloat?` gives the nearest
double, `isInteger` says whether a text is a whole number.
-/

namespace QuasiNewton.Decimal

/-- A character beyond ASCII that is a blank or a digit, as its ASCII counterpart. -/
def asciiChar (c : Char) : Char :=
  if c.toNat < 0x7F then c
  else if Text.isBlank c then ' '
  else
    match Text.digit? c with
    | some n => Nat.digitChar n
    | none => c

/-- ASCII blanks that may surround a written number. -/
private def surrounds (c : Char) : Bool :=
  c == ' ' || c == '\t' || c == '\n' || c == '\r' || c == '\x0b' || c == '\x0c'

/-- The characters of a written number in ASCII, without blanks on either side. -/
private def writtenNumber (s : String) : List Char :=
  let cs := s.toList.map asciiChar
  ((cs.dropWhile surrounds).reverse.dropWhile surrounds).reverse

/-- Split off an optional sign; the flag says whether it was a minus. -/
private def signOf : List Char → Bool × List Char
  | '-' :: cs => (true, cs)
  | '+' :: cs => (false, cs)
  | cs => (false, cs)

/-- Digits grouped by single underscores, which may stand only between digits: their value, their
number, and what follows them. -/
private def digitRun : List Char → Nat → Nat → Nat × Nat × List Char
  | [], value, count => (value, count, [])
  | c :: cs, value, count =>
    if c.isDigit then digitRun cs (10 * value + (c.toNat - '0'.toNat)) (count + 1)
    else if c == '_' then
      match cs with
      | d :: ds =>
        if count ≠ 0 ∧ d.isDigit then digitRun ds (10 * value + (d.toNat - '0'.toNat)) (count + 1)
        else (value, count, c :: cs)
      | [] => (value, count, [c])
    else (value, count, c :: cs)

/-- A signed whole exponent, with nothing after it. -/
private def exponentOf? (cs : List Char) : Option Int :=
  let (negative, rest) := signOf cs
  match digitRun rest 0 0 with
  | (_, 0, _) => none
  | (value, _, []) => some (if negative then -(value : Int) else value)
  | _ => none

/-- An unsigned decimal as digits and a power of ten. -/
private def decimalOf? (cs : List Char) : Option (Nat × Int) :=
  let (whole, wholeCount, rest) := digitRun cs 0 0
  let (digits, count, places, rest) :=
    match rest with
    | '.' :: more =>
      if more.head? == some '_' then (whole, wholeCount, 0, rest)
      else
        let (fraction, places, rest) := digitRun more 0 0
        (whole * Nat.pow 10 places + fraction, wholeCount + places, places, rest)
    | _ => (whole, wholeCount, 0, rest)
  if count = 0 then none
  else
    match rest with
    | [] => some (digits, -(places : Int))
    | c :: more =>
      if c == 'e' || c == 'E' then (exponentOf? more).map fun e => (digits, e - places) else none

/-- The double nearest to a written number. -/
def readFloat? (s : String) : Option Float :=
  let (negative, body) := signOf (writtenNumber s)
  let word := String.ofList (body.map Char.toLower)
  if word == "nan" then some (0.0 / 0.0)
  else if word == "inf" || word == "infinity" then
    some (if negative then -(1.0 / 0.0) else 1.0 / 0.0)
  else
    (decimalOf? body).map fun (digits, e) =>
      -- beyond these exponents every double is infinite or zero
      let size : Int := (Nat.toDigits 10 digits).length + e
      if digits = 0 then floatOfDecimal negative 0 0
      else if 400 < size then (if negative then -(1.0 / 0.0) else 1.0 / 0.0)
      else if size < -400 then floatOfDecimal negative 0 0
      else floatOfDecimal negative digits e

/-- How many digits a whole number may be written with. -/
def digitLimit : Nat := 4300

/-- Is the text a whole number in decimal, with no more digits than are read? -/
def isInteger (s : String) : Bool :=
  match digitRun (signOf (writtenNumber s)).2 0 0 with
  | (_, 0, _) => false
  | (_, count, []) => count ≤ digitLimit
  | _ => false

end QuasiNewton.Decimal
