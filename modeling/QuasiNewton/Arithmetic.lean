import QuasiNewton.Fault

/-!
# Arithmetics

An arithmetic says what the elements of arrays are and how to compute with them. Elements come in
kinds (precisions, real or complex, whole numbers), arrays of two kinds are combined in the kind
that joins them, and every operation is told the kind it works in. Arrays of one kind stay in it,
and so do steps and quotients in a kind that is iterated in. Rank-one updates of a matrix where it
is are left to a routine of their own, which may round as it likes and in a kind of its own. The
solver is written once over an arithmetic: run with machine numbers it is a program, and
instantiated with the real or complex numbers it is the method of the theorems.
-/

namespace QuasiNewton

/-- Elements of arrays and the operations on them, kind by kind. -/
structure Arithmetic extends Magnitudes where
  /-- The kinds of elements. -/
  Kind : Type
  /-- Kinds can be compared. -/
  kindDecidableEq : DecidableEq Kind
  /-- The elements of all kinds. -/
  Elem : Type
  /-- The kind in which arrays of two kinds are combined. -/
  join : Kind → Kind → Kind
  /-- The kind in which iteration from a point of a kind is carried out. -/
  working : Kind → Kind
  /-- The kind of the magnitudes of elements. -/
  absolute : Kind → Kind
  /-- The kind of an array that holds a number as it was written. -/
  written : Quantity Real → Kind
  /-- The kind of an array combined with a real number. -/
  withReal : Kind → Kind
  /-- The kind of an array combined with a whole number. -/
  withWhole : Kind → Kind
  /-- The kind of a quotient of two arrays that were joined in a kind. -/
  quotient : Kind → Kind
  /-- The kind in which the routine for rank-one updates works on matrices of a kind. -/
  update : Kind → Kind
  /-- May results of the first kind be stored in an array of the second? -/
  storable : Kind → Kind → Bool
  /-- Can a whole number be compared with the elements of a kind of magnitudes? -/
  comparable : Kind → Int → Bool
  /-- Can an array of a kind be multiplied by a whole number? -/
  multipliable : Kind → Int → Bool
  /-- Do elements of the kind have negatives and differences? -/
  signed : Kind → Bool
  /-- An element converted to a kind. -/
  convert : Kind → Elem → Elem
  /-- A magnitude as an element. -/
  ofReal : Kind → Real → Elem
  /-- A whole number as an element. -/
  ofWhole : Kind → Int → Elem
  /-- The sum. -/
  add : Kind → Elem → Elem → Elem
  /-- The difference. -/
  sub : Kind → Elem → Elem → Elem
  /-- The product. -/
  times : Kind → Elem → Elem → Elem
  /-- The quotient. -/
  div : Kind → Elem → Elem → Elem
  /-- The negative. -/
  neg : Kind → Elem → Elem
  /-- The complex conjugate. -/
  conj : Kind → Elem → Elem
  /-- The entry at a flat position of a matrix, with so many rows and columns, after the routine for
  rank-one updates has added a column times a row to it. -/
  rankOne : Kind → Nat → Nat → (Nat → Elem) → (Nat → Elem) → (Nat → Elem) → Nat → Elem
  /-- The magnitude of an element of an array, in the kind of magnitudes. -/
  abs : Kind → Elem → Elem
  /-- The magnitude of a single element. -/
  modulus : Kind → Elem → Real
  /-- The square of the magnitude, in the kind of magnitudes. -/
  absSquared : Kind → Elem → Elem
  /-- The square root in a kind of magnitudes. -/
  root : Kind → Elem → Elem
  /-- An element of a kind of magnitudes as a magnitude. -/
  toReal : Kind → Elem → Real
  /-- The order of magnitudes. -/
  elemLe : Kind → Elem → Elem → Bool
  /-- Is the element zero? -/
  isZero : Kind → Elem → Bool
  /-- What replaces a secant denominator of zero. -/
  guard : Kind → Elem
  /-- The default tolerance of convergence for arrays of a kind, if the kind has a precision. -/
  tolerance? : Kind → Option Real
  /-- The default tolerance of the reset check, if the kind has a precision. -/
  resetTolerance? : Kind → Option Real
  /-- Arrays of one kind are combined in that kind. -/
  join_self : ∀ k, join k k = k
  /-- Results of a kind may be stored in that kind. -/
  storable_self : ∀ k, storable k k = true
  /-- Iteration from a point of a working kind is carried out in that kind. -/
  working_working : ∀ k, working (working k) = working k
  /-- Multiples of arrays of a working kind stay in it. -/
  withReal_working : ∀ k, withReal (working k) = working k
  /-- Quotients of arrays of a working kind stay in it. -/
  quotient_working : ∀ k, quotient (working k) = working k
  /-- Elements of a working kind have negatives and differences. -/
  signed_working : ∀ k, signed (working k) = true
  /-- Working kinds have a positive default tolerance of the reset check. -/
  resetTolerance_working : ∀ k,
    ∃ x, resetTolerance? (working k) = some x ∧ compareInt x 0 = some .gt

namespace Arithmetic

instance (A : Arithmetic) : DecidableEq A.Kind := A.kindDecidableEq

/-- The zero of a kind. -/
def zeroOf (A : Arithmetic) (k : A.Kind) : A.Elem := A.ofWhole k 0

/-- The one of a kind. -/
def oneOf (A : Arithmetic) (k : A.Kind) : A.Elem := A.ofWhole k 1

/-- A number as it was written as an element of a kind. -/
def ofQuantity (A : Arithmetic) (k : A.Kind) : Quantity A.Real → A.Elem
  | .flag b => A.ofWhole k (if b then 1 else 0)
  | .whole n => A.ofWhole k n
  | .real x => A.ofReal k x

end Arithmetic

/-- An operation over an arithmetic that may fail. -/
abbrev Attempt (A : Arithmetic) (α : Type) := Except (Fault A.Real) α

namespace Attempt

variable {A : Arithmetic} {α β : Type}

/-- A sequence of attempts succeeds if each of them does. -/
theorem bind_eq_ok {x : Attempt A α} {f : α → Attempt A β} {b : β} :
    (x >>= f) = .ok b ↔ ∃ a, x = .ok a ∧ f a = .ok b := by
  cases x <;> simp [bind, Except.bind]

/-- An answer that is known is the one that was put there. -/
theorem pure_eq_ok {a b : α} : (pure a : Attempt A α) = .ok b ↔ a = b := by
  simp [pure, Except.pure]

end Attempt

end QuasiNewton
