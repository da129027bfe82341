/-!
# Ranges of characters

A class of characters is given by closed ranges of code points. `Ranges.contains` looks a code point
up, and `Ranges.contains_iff` says that this is membership in one of the ranges.
-/

namespace QuasiNewton.Text

/-- Closed ranges of code points. -/
abbrev Ranges := List (Nat × Nat)

namespace Ranges

/-- Does a code point lie in one of the ranges? -/
def contains (rs : Ranges) (n : Nat) : Bool := rs.any fun r => r.1 ≤ n && n ≤ r.2

/-- A code point is found exactly if a range spans it. -/
theorem contains_iff (rs : Ranges) (n : Nat) :
    rs.contains n = true ↔ ∃ r ∈ rs, r.1 ≤ n ∧ n ≤ r.2 := by
  simp [contains]

/-- A code point is found in two tables together if it is found in one of them. -/
theorem contains_append (rs qs : Ranges) (n : Nat) :
    (rs ++ qs).contains n = (rs.contains n || qs.contains n) := by
  simp [contains]

end Ranges

end QuasiNewton.Text
