import QuasiNewton.Machine.Precision

/-!
# Kinds of machine numbers

Truth values, whole numbers of 64 bits, and real and complex numbers of a precision. `Kind.join` is
the kind in which two kinds are combined: whole numbers go with doubles, real numbers with complex
ones, and the finer precision wins.
-/

namespace QuasiNewton.Machine

/-- A kind of machine numbers. -/
inductive Kind where
  /-- Truth values. -/
  | truth
  /-- Whole numbers of 64 bits. -/
  | integer
  /-- Real numbers. -/
  | real (p : Precision)
  /-- Complex numbers. -/
  | complex (p : Precision)
  deriving DecidableEq, Repr

namespace Kind

/-- The kinds with names. -/
def named : List (String × Kind) :=
  [("bool", .truth), ("i64", .integer), ("f16", .real .half), ("f32", .real .single),
    ("f64", .real .double), ("c64", .complex .single), ("c128", .complex .double)]

/-- The kind of a name. -/
def ofName? (s : String) : Option Kind := named.lookup s

/-- The name of a kind. -/
def name (k : Kind) : String := ((named.find? (·.2 = k)).map (·.1)).getD ""

/-- The kind in which two kinds are combined. -/
def join : Kind → Kind → Kind
  | .truth, k | k, .truth => k
  | .integer, .integer => .integer
  | .integer, .real _ | .real _, .integer => .real .double
  | .integer, .complex _ | .complex _, .integer => .complex .double
  | .real p, .real q => .real (p.join q)
  | .real p, .complex q | .complex p, .real q | .complex p, .complex q => .complex (p.join q)

/-- Does the kind have numbers between the whole numbers? -/
def isInexact : Kind → Bool
  | .truth | .integer => false
  | .real _ | .complex _ => true

/-- The kind itself, or doubles for a kind of whole numbers. -/
def inexact (k : Kind) : Kind := if k.isInexact then k else .real .double

/-- The kind of magnitudes. -/
def absolute : Kind → Kind
  | .complex p => .real p
  | k => k

/-- The kind of an array combined with a whole number. -/
def withWhole : Kind → Kind
  | .truth => .integer
  | k => k

/-- The kind in which a matrix of a kind is updated where it is: no precision is shorter than the
single one. -/
def update : Kind → Kind
  | .truth | .real .half => .real .single
  | .integer => .real .double
  | .complex .half => .complex .single
  | k => k

/-- The rank of a sort of numbers. -/
def rank : Kind → Nat
  | .truth => 0
  | .integer => 1
  | .real _ => 2
  | .complex _ => 3

/-- Results may be stored in a kind of the same or a larger sort, a precision notwithstanding. -/
def storable (source target : Kind) : Bool := decide (source.rank ≤ target.rank)

/-- The precision of the parts of a number, if the kind has one. -/
def precision? : Kind → Option Precision
  | .truth | .integer => none
  | .real p | .complex p => some p

@[simp] theorem join_self (k : Kind) : k.join k = k := by cases k <;> simp [join]

/-- The order of the kinds does not matter. -/
theorem join_comm (j k : Kind) : j.join k = k.join j := by
  rcases j with _ | _ | p | p <;> rcases k with _ | _ | q | q <;> (try rfl) <;>
    cases p <;> cases q <;> rfl

/-- The order in which three kinds are joined does not matter. -/
theorem join_assoc (i j k : Kind) : (i.join j).join k = i.join (j.join k) := by
  rcases i with _ | _ | p | p <;> rcases j with _ | _ | q | q <;> rcases k with _ | _ | r | r <;>
    simp only [join, Precision.join_assoc] <;>
    (try cases p) <;> (try cases q) <;> (try cases r) <;> rfl

/-- A kind of numbers with fractions iterates in itself. -/
theorem inexact_of_isInexact {k : Kind} (h : k.isInexact = true) : k.inexact = k := by
  simp [inexact, h]

/-- The kind that is iterated in is kept. -/
@[simp] theorem inexact_inexact (k : Kind) : k.inexact.inexact = k.inexact := by
  cases k <;> rfl

/-- Truth values are never iterated in. -/
theorem inexact_ne_truth (k : Kind) : decide (k.inexact ≠ .truth) = true := by
  cases k <;> rfl

/-- Results of a kind may be stored in that kind. -/
@[simp] theorem storable_self (k : Kind) : storable k k = true := by simp [storable]

end Kind

end QuasiNewton.Machine
