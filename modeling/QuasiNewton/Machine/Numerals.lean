import QuasiNewton.Transcript
import QuasiNewton.Decimal.Shortest

/-!
# How machine numbers are written

Messages show the shortest digits that read back, positional from a ten-thousandth up to ten
quadrillion and with a point in any case. Reports use scientific notation.
-/

namespace QuasiNewton.Machine

open Decimal

/-- Exponents from minus four to fifteen are positional, and a whole number keeps its `.0`. -/
def layout : Layout := ⟨-4, 16, true⟩

/-- The written forms of doubles. -/
def numerals : Numerals Float where
  shortest := layout.text
  scientific := Scientific.text
  ofInt := floatOfInt

end QuasiNewton.Machine
