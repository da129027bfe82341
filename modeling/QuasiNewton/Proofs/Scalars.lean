import Mathlib.Algebra.Order.Floor.Ring
import Mathlib.Analysis.RCLike.Basic
import Mathlib.Data.Matrix.Mul
import Mathlib.Data.Rat.Floor
import Mathlib.Data.Rat.Sqrt
import Mathlib.Data.Rat.Star
import QuasiNewton.Arithmetic

/-!
# Exact arithmetic

Scalars are the elements of a field with a conjugation over the ordered field of its reals. They
make an arithmetic with one kind, in which nothing is rounded: that of the real numbers, that of the
complex numbers, and that of the rational numbers, in which solves can be computed.
-/

namespace QuasiNewton

/-- What a field with a conjugation over an ordered field needs for an arithmetic. The roots, the
default tolerances and what texts write are left open, but for the sign of one tolerance. -/
structure Scalars (𝕜 ρ : Type) [Field 𝕜] [StarRing 𝕜] [Field ρ] [LinearOrder ρ] where
  /-- A real as a scalar. -/
  ofReal : ρ →+* 𝕜
  /-- The real part. -/
  re : 𝕜 → ρ
  /-- The square of the magnitude. -/
  normSq : 𝕜 → ρ
  /-- The square root. -/
  root : ρ → ρ
  /-- The real that a text writes. -/
  read? : String → Option ρ
  /-- The default tolerance of convergence. -/
  tolerance : ρ
  /-- The default tolerance of the reset check. -/
  resetTolerance : ρ
  re_ofReal : ∀ x, re (ofReal x) = x
  star_mul_self : ∀ z, star z * z = ofReal (normSq z)
  normSq_nonneg : ∀ z, 0 ≤ normSq z
  resetTolerance_pos : 0 < resetTolerance

namespace Scalars

variable {𝕜 ρ : Type} [Field 𝕜] [StarRing 𝕜] [Field ρ] [LinearOrder ρ]

section

variable [FloorRing ρ]

/-- Reals as magnitudes. -/
def magnitudes (S : Scalars 𝕜 ρ) : Magnitudes where
  Real := ρ
  zero := 0
  one := 1
  le x y := decide (x ≤ y)
  lt x y := decide (x < y)
  mul x y := x * y
  perRoot x n := x / S.root n
  root? x := if x < 0 then none else some (S.root x)
  length x y := S.root (x * x + y * y)
  nature x := if (⌊x⌋ : ρ) = x then .whole else .fractional
  ofInt? n := some n
  compareInt x n := some (compare x n)
  ceiling x := ⌈x⌉.toNat
  read? := S.read?

/-- Exact arithmetic. -/
def arithmetic [DecidableEq 𝕜] (S : Scalars 𝕜 ρ) : Arithmetic where
  toMagnitudes := S.magnitudes
  Kind := Unit
  kindDecidableEq := inferInstance
  Elem := 𝕜
  join _ _ := ()
  working _ := ()
  absolute _ := ()
  written _ := ()
  withReal _ := ()
  withWhole _ := ()
  quotient _ := ()
  update _ := ()
  storable _ _ := true
  comparable _ _ := true
  multipliable _ _ := true
  signed _ := true
  convert _ z := z
  ofReal _ := S.ofReal
  ofWhole _ n := n
  add _ z w := z + w
  sub _ z w := z - w
  times _ z w := z * w
  div _ z w := z / w
  neg _ z := -z
  conj _ z := star z
  rankOne _ _ columns m x y i := m i + x (i / columns) * y (i % columns)
  abs _ z := S.ofReal (S.root (S.normSq z))
  modulus _ z := S.root (S.normSq z)
  absSquared _ z := S.ofReal (S.normSq z)
  root _ z := S.ofReal (S.root (S.re z))
  toReal _ := S.re
  elemLe _ z w := decide (S.re z ≤ S.re w)
  isZero _ z := decide (z = 0)
  guard _ := S.ofReal (1 / 100000)
  tolerance? _ := some S.tolerance
  resetTolerance? _ := some S.resetTolerance
  join_self _ := rfl
  storable_self _ := rfl
  working_working _ := rfl
  withReal_working _ := rfl
  quotient_working _ := rfl
  signed_working _ := rfl
  resetTolerance_working _ := by
    refine ⟨S.resetTolerance, rfl, congrArg some (compare_gt_iff_gt.mpr ?_)⟩
    rw [Int.cast_zero]
    exact S.resetTolerance_pos

end

open Matrix

/-- The inner product of a vector with itself is the sum of the squared magnitudes. -/
theorem star_dotProduct_self (S : Scalars 𝕜 ρ) {n : ℕ} (v : Fin n → 𝕜) :
    star v ⬝ᵥ v = S.ofReal (∑ i, S.normSq (v i)) := by
  rw [map_sum]
  exact Finset.sum_congr rfl fun i _ => S.star_mul_self (v i)

/-- It is a real that is not negative. -/
theorem exists_star_dotProduct_self [IsStrictOrderedRing ρ] (S : Scalars 𝕜 ρ) {n : ℕ}
    (v : Fin n → 𝕜) : ∃ x, 0 ≤ x ∧ star v ⬝ᵥ v = S.ofReal x :=
  ⟨_, Finset.sum_nonneg fun i _ => S.normSq_nonneg (v i), S.star_dotProduct_self v⟩

/-- Only the zero vector has no length. -/
theorem eq_zero_of_star_dotProduct_self [IsStrictOrderedRing ρ] (S : Scalars 𝕜 ρ) {n : ℕ}
    {v : Fin n → 𝕜} (h : star v ⬝ᵥ v = 0) : v = 0 := by
  rw [S.star_dotProduct_self, map_eq_zero,
    Finset.sum_eq_zero_iff_of_nonneg fun i _ => S.normSq_nonneg _] at h
  funext i
  have hi := S.star_mul_self (v i)
  rw [h i (Finset.mem_univ i), map_zero] at hi
  exact (mul_eq_zero.mp hi).elim star_eq_zero.mp id

/-- Zero has no magnitude. -/
theorem normSq_zero (S : Scalars 𝕜 ρ) : S.normSq 0 = 0 := by
  have h := S.star_mul_self 0
  rwa [mul_zero, eq_comm, map_eq_zero] at h

/-! ## Instances -/

/-- The real numbers and the complex numbers. -/
noncomputable def ofRCLike (𝕜 : Type) [RCLike 𝕜] (read? : String → Option ℝ)
    (tolerance resetTolerance : ℝ) (h : 0 < resetTolerance) : Scalars 𝕜 ℝ where
  ofReal := algebraMap ℝ 𝕜
  re := RCLike.re
  normSq := RCLike.normSq
  root := Real.sqrt
  read? := read?
  tolerance := tolerance
  resetTolerance := resetTolerance
  re_ofReal := RCLike.ofReal_re
  star_mul_self z := by
    rw [← starRingEnd_apply, RCLike.conj_mul, RCLike.normSq_eq_def', map_pow]
  normSq_nonneg := RCLike.normSq_nonneg
  resetTolerance_pos := h

/-- The rational numbers. -/
def rational : Scalars ℚ ℚ where
  ofReal := RingHom.id ℚ
  re z := z
  normSq z := z * z
  root := Rat.sqrt
  read? _ := none
  tolerance := 1 / 10 ^ 12
  resetTolerance := 1 / 10 ^ 8
  re_ofReal _ := rfl
  star_mul_self _ := rfl
  normSq_nonneg := mul_self_nonneg
  resetTolerance_pos := by norm_num

end Scalars

end QuasiNewton
