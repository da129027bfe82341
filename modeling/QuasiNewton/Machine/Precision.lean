import QuasiNewton.Decimal.Binary

/-!
# Precisions

A value of a shorter precision is held as a double that the precision can represent, and every
operation rounds its result back. `Precision.nearest` rounds an exact value once: to nearest, ties
to even, with gradual underflow, and to an infinity beyond the largest value.
-/

namespace QuasiNewton.Machine

open Decimal

/-- A binary format of real numbers. -/
inductive Precision where
  /-- Eleven bits. -/
  | half
  /-- Twenty-four bits. -/
  | single
  /-- Fifty-three bits. -/
  | double
  deriving DecidableEq, Repr

namespace Precision

/-- How many bits a mantissa has. -/
def bits : Precision → Nat
  | .half => 11
  | .single => 24
  | .double => 53

/-- The exponent of the least positive value. -/
def leastUnit : Precision → Int
  | .half => -24
  | .single => -149
  | .double => -1074

/-- The exponent of the last bit of the largest value. -/
def greatestUnit : Precision → Int
  | .half => 5
  | .single => 104
  | .double => 971

/-- The finer of two precisions. -/
def join (p q : Precision) : Precision := if p.bits ≤ q.bits then q else p

/-- The value `± mantissa * 2 ^ unit` as a double. -/
def assemble (negative : Bool) (mantissa : Nat) (unit : Int) : Float :=
  match unit with
  | .ofNat k => nearestFloat negative (mantissa * Nat.pow 2 k) 1
  | .negSucc k => nearestFloat negative mantissa (Nat.pow 2 (k + 1))

/-- The value of the precision that is nearest to `± mantissa * 2 ^ exponent`. -/
def nearest (p : Precision) (negative : Bool) (mantissa : Nat) (exponent : Int) : Float :=
  let top := (mantissa.log2 : Int) + exponent
  let unit := max (top + 1 - p.bits) p.leastUnit
  let rounded :=
    roundDiv (mantissa * Nat.pow 2 (exponent - unit).toNat)
      (Nat.pow 2 (unit - exponent).toNat)
  if Nat.pow 2 p.bits * Nat.pow 2 (p.greatestUnit - p.leastUnit).toNat
      ≤ rounded * Nat.pow 2 (unit - p.leastUnit).toNat then
    (if negative then -(1.0 / 0.0) else 1.0 / 0.0)
  else assemble negative rounded unit

/-- The value of the precision that is nearest to a double. -/
def round (p : Precision) (x : Float) : Float :=
  match p with
  | .double => x
  | _ =>
    match Binary.ofFloat x with
    | .undefined | .infinite _ | .finite _ 0 _ => x
    | .finite negative mantissa exponent => p.nearest negative mantissa exponent

/-- The value of the precision that is nearest to a whole number. -/
def ofInt (p : Precision) (n : Int) : Float := p.nearest (n < 0) n.natAbs 0

/-- The joined precision is one of the two. -/
theorem join_eq_or (p q : Precision) : p.join q = p ∨ p.join q = q := by
  cases p <;> cases q <;> simp [join, bits]

@[simp] theorem join_self (p : Precision) : p.join p = p := by simp [join]

/-- The order of two precisions does not matter. -/
theorem join_comm (p q : Precision) : p.join q = q.join p := by
  cases p <;> cases q <;> rfl

/-- The order in which three precisions are joined does not matter. -/
theorem join_assoc (p q r : Precision) : (p.join q).join r = p.join (q.join r) := by
  cases p <;> cases q <;> cases r <;> rfl

end Precision

end QuasiNewton.Machine
