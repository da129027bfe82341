import QuasiNewton.Machine.Arithmetic
import QuasiNewton.Options

/-!
# Quantities that stand for whole numbers

However a whole number was written, every comparison takes it for that number. The budget of resets
always stands for a natural number, also if it was written as a real.
-/

namespace QuasiNewton

namespace Quantity

variable {M : Magnitudes} {q : Quantity M.Real} {m : Int}

/-- The quantity compares with whole numbers as one of them does. -/
def StandsFor (q : Quantity M.Real) (m : Int) : Prop := ∀ n, q.compareInt n = some (compare m n)

/-- A quantity stands for the integer that is read from it. -/
theorem standsFor_of_integer? (h : q.integer? = some m) : q.StandsFor m := by
  intro n
  cases q with
  | flag b =>
    obtain rfl := Option.some.inj h
    rfl
  | whole k =>
    obtain rfl := Option.some.inj h
    rfl
  | real x => cases h

namespace StandsFor

/-- A quantity stands for one number only. -/
theorem unique (h : q.StandsFor m) {n : Int} (h' : q.StandsFor n) : m = n := by
  have hcompare : some (compare m n) = some (compare n n) := (h n).symm.trans (h' n)
  exact Int.compare_eq_eq.mp ((Option.some.inj hcompare).trans (Int.compare_eq_eq.mpr rfl))

/-- It is below an integer if what it stands for is. -/
theorem isBelow_iff (h : q.StandsFor m) {n : Int} : q.isBelow n = true ↔ m < n := by
  rw [isBelow, h n, beq_iff_eq]
  exact Option.some_inj.trans Int.compare_eq_lt

/-- It is above an integer if what it stands for is. -/
theorem isAbove_iff (h : q.StandsFor m) {n : Int} : q.isAbove n = true ↔ n < m := by
  rw [isAbove, h n, beq_iff_eq]
  exact Option.some_inj.trans Int.compare_eq_gt

/-- It reaches an integer if what it stands for is at least that. -/
theorem reaches_iff (h : q.StandsFor m) {n : Int} : q.reaches n = true ↔ n ≤ m := by
  rw [reaches, h n, Bool.or_eq_true, beq_iff_eq, beq_iff_eq, Option.some_inj, Option.some_inj,
    Int.compare_eq_gt, Int.compare_eq_eq]
  omega

/-- It is reached by an integer that is at least what it stands for. -/
theorem isReachedBy_iff (h : q.StandsFor m) {n : Int} : q.isReachedBy n = true ↔ m ≤ n := by
  rw [isReachedBy, h n, Bool.or_eq_true, beq_iff_eq, beq_iff_eq, Option.some_inj, Option.some_inj,
    Int.compare_eq_lt, Int.compare_eq_eq]
  exact Int.le_iff_lt_or_eq.symm

end StandsFor

end Quantity

/-- A magnitude that is whole stands for a whole number. -/
def Magnitudes.Integral (M : Magnitudes) : Prop :=
  ∀ x, M.nature x = .whole → ∃ m, Quantity.StandsFor (M := M) (.real x) m

namespace Options

variable {A : Arithmetic}

/-- A budget of resets that passes the check stands for a natural number. -/
theorem checkBudget_standsFor (hA : A.Integral) {given : Setting A.Real} {q : Quantity A.Real}
    (h : checkBudget given = .ok q) :
    ∃ m, 0 ≤ m ∧ Quantity.StandsFor (M := A.toMagnitudes) q m := by
  cases given with
  | number p =>
    have hnatural {r : Quantity A.Real} (hr : (if r.isBelow (M := A.toMagnitudes) 0 then
        .error (.badResetBudget (.number p)) else .ok r : Attempt A (Quantity A.Real)) = .ok q)
        {m : Int} (hm : Quantity.StandsFor (M := A.toMagnitudes) r m) :
        ∃ m, 0 ≤ m ∧ Quantity.StandsFor (M := A.toMagnitudes) q m := by
      by_cases hbelow : r.isBelow (M := A.toMagnitudes) 0 = true
      · rw [if_pos hbelow] at hr
        cases hr
      · rw [if_neg hbelow] at hr
        obtain rfl := Except.ok.inj hr
        exact ⟨m, Int.not_lt.mp fun hneg => hbelow (hm.isBelow_iff.mpr hneg), hm⟩
    cases p with
    | flag b => exact hnatural h (Quantity.standsFor_of_integer? rfl)
    | whole n => exact hnatural h (Quantity.standsFor_of_integer? rfl)
    | real x =>
      simp only [checkBudget] at h
      split at h
      · cases h
      · cases h
      · cases h
      case h_4 hwhole =>
        obtain ⟨m, hm⟩ := hA x hwhole
        exact hnatural h hm
  | text s => cases h
  | absent => cases h
  | list xs => cases h
  | record fs => cases h

/-- The budget of resets stands for a natural number. -/
theorem resetBudget_standsFor (hA : A.Integral) {budget tolerance : Setting A.Real}
    {search : LineSearch.Choice A} {o : Options A} (h : make budget tolerance search = .ok o) :
    ∃ m, 0 ≤ m ∧ Quantity.StandsFor (M := A.toMagnitudes) o.resetBudget m := by
  obtain ⟨q, hq, h⟩ := Attempt.bind_eq_ok.mp h
  obtain ⟨t, -, h⟩ := Attempt.bind_eq_ok.mp h
  obtain rfl := Attempt.pure_eq_ok.mp h
  exact checkBudget_standsFor hA hq

end Options

/-! ## Doubles -/

namespace Decimal.Binary

/-- A finite value is a fraction with a positive denominator. -/
theorem exists_fraction (negative : Bool) (mantissa : Nat) (exponent : Int) :
    ∃ num den, 0 < den ∧
      (finite negative mantissa exponent).fraction? = some (negative, num, den) := by
  cases exponent with
  | ofNat e => exact ⟨_, 1, Nat.one_pos, rfl⟩
  | negSucc e => exact ⟨mantissa, Nat.pow 2 (e + 1), Nat.pow_pos Nat.two_pos, rfl⟩

/-- A value that is whole compares with whole numbers as its quotient does. -/
theorem compareInt_of_isWhole {negative : Bool} {mantissa : Nat} {exponent : Int}
    (h : (finite negative mantissa exponent).isWhole = true) :
    ∃ m, ∀ n, (finite negative mantissa exponent).compareInt n = some (compare m n) := by
  obtain ⟨num, den, hden, hfraction⟩ := exists_fraction negative mantissa exponent
  have hdivides : num = num / den * den := by
    rw [isWhole, hfraction] at h
    exact (Nat.div_mul_cancel (Nat.dvd_of_mod_eq_zero (beq_iff_eq.mp h))).symm
  have hpos : (0 : Int) < den := Int.natCast_pos.mpr hden
  refine ⟨if negative then -((num / den : Nat) : Int) else ((num / den : Nat) : Int), fun n => ?_⟩
  have hscaled : (if negative then -(num : Int) else (num : Int)) =
      (if negative then -((num / den : Nat) : Int) else ((num / den : Nat) : Int)) * den := by
    have hnum : (num : Int) = ((num / den : Nat) : Int) * den :=
      (congrArg Int.ofNat hdivides).trans (Int.natCast_mul _ _)
    cases negative with
    | true => exact (congrArg Neg.neg hnum).trans (Int.neg_mul _ _).symm
    | false => exact hnum
  have hcompare (a b : Int) : compare (a * den) (b * den) = compare a b := by
    simp only [compare, compareOfLessAndEq, Int.mul_lt_mul_right hpos,
      Int.mul_eq_mul_right_iff (Int.ne_of_gt hpos)]
  rw [compareInt, hfraction, Option.map_some]
  exact congrArg some ((congrArg (compare · (n * (den : Int))) hscaled).trans (hcompare _ _))

end Decimal.Binary

namespace Machine

/-- Doubles that are whole stand for whole numbers. -/
theorem magnitudes_integral : magnitudes.Integral := by
  intro x hx
  change nature x = .whole at hx
  unfold nature at hx
  split at hx
  case h_1 => cases hx
  case h_2 => cases hx
  case h_3 negative mantissa exponent hfinite =>
    split at hx
    case isTrue hwhole =>
      obtain ⟨m, hm⟩ := Decimal.Binary.compareInt_of_isWhole hwhole
      refine ⟨m, fun n => ?_⟩
      change (Decimal.Binary.ofFloat x).compareInt n = _
      rw [hfinite]
      exact hm n
    case isFalse => cases hx

end Machine

end QuasiNewton
