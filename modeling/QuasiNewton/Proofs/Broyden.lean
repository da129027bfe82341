import Mathlib.LinearAlgebra.Matrix.SchurComplement
import QuasiNewton.Proofs.Frames
import QuasiNewton.Proofs.Readings
import QuasiNewton.Secant

/-!
# The secant update over exact scalars

Over exact scalars the update is Broyden's: the corrected matrix maps the change of the residual to
the step, its determinant is a multiple of the one before, which is not zero even where the
denominator had to be replaced, and its inverse is the inverse before plus a direct update.
-/

namespace QuasiNewton

open Matrix

variable {𝕜 ρ : Type} [Field 𝕜] [StarRing 𝕜] [Field ρ] [LinearOrder ρ] {n : ℕ}

/-- There is one kind of exact scalars, and it is a working kind. -/
theorem Scalars.isWorking [DecidableEq 𝕜] [FloorRing ρ] (S : Scalars 𝕜 ρ) (k : S.arithmetic.Kind) :
    S.arithmetic.IsWorking k :=
  rfl

/-- Over exact scalars a rank-one update adds the outer product. -/
theorem Scalars.addsOuter [DecidableEq 𝕜] [FloorRing ρ] (S : Scalars 𝕜 ρ) (k : S.arithmetic.Kind) :
    S.arithmetic.AddsOuter k :=
  ⟨rfl, fun _ _ _ _ _ _ _ => rfl⟩

namespace Secant

section

variable {J : Matrix (Fin n) (Fin n) 𝕜} {s y : Fin n → 𝕜} {δ : 𝕜}

/-- An inverse Jacobian corrected by a step and a change of the residual, with a denominator. -/
def corrected (J : Matrix (Fin n) (Fin n) 𝕜) (s y : Fin n → 𝕜) (δ : 𝕜) :
    Matrix (Fin n) (Fin n) 𝕜 :=
  J + vecMulVec (δ⁻¹ • (s - J *ᵥ y)) (star s ᵥ* J)

/-- The correction is a factor from the left. -/
theorem corrected_eq_mul :
    corrected J s y δ = (1 + vecMulVec (δ⁻¹ • (s - J *ᵥ y)) (star s)) * J := by
  rw [Matrix.add_mul, Matrix.one_mul, vecMulVec_mul]
  rfl

/-- With the denominator of the method the corrected matrix maps the change to the step. -/
theorem corrected_mulVec (hδ : star s ⬝ᵥ J *ᵥ y ≠ 0) :
    corrected J s y (star s ⬝ᵥ J *ᵥ y) *ᵥ y = s := by
  rw [corrected, add_mulVec, vecMulVec_mulVec, ← dotProduct_mulVec, op_smul_eq_smul, smul_smul,
    mul_inv_cancel₀ hδ, one_smul, add_sub_cancel]

/-- The determinant is multiplied by how much of the step the correction moves. -/
theorem det_corrected :
    (corrected J s y δ).det = (1 + δ⁻¹ * (star s ⬝ᵥ s - star s ⬝ᵥ J *ᵥ y)) * J.det := by
  rw [corrected_eq_mul, det_mul, vecMulVec_eq Unit, det_one_add_replicateCol_mul_replicateRow,
    dotProduct_smul, dotProduct_sub, smul_eq_mul]

/-- The inverse of the corrected matrix is Broyden's direct update of the inverse. -/
theorem inv_corrected (hJ : IsUnit J) (hδ : star s ⬝ᵥ J *ᵥ y ≠ 0) (hs : star s ⬝ᵥ s ≠ 0) :
    (corrected J s y (star s ⬝ᵥ J *ᵥ y))⁻¹ =
      J⁻¹ + (star s ⬝ᵥ s)⁻¹ • vecMulVec (y - J⁻¹ *ᵥ s) (star s) := by
  refine inv_eq_right_inv ?_
  have hy := corrected_mulVec hδ
  have hinv : corrected J s y (star s ⬝ᵥ J *ᵥ y) * J⁻¹ =
      1 + vecMulVec ((star s ⬝ᵥ J *ᵥ y)⁻¹ • (s - J *ᵥ y)) (star s) := by
    rw [corrected_eq_mul, mul_nonsing_inv_cancel_right _ _ ((isUnit_iff_isUnit_det J).mp hJ)]
  generalize corrected J s y (star s ⬝ᵥ J *ᵥ y) = K at hy hinv ⊢
  generalize (star s ⬝ᵥ J *ᵥ y)⁻¹ • (s - J *ᵥ y) = c at hinv
  have hs' : K *ᵥ (J⁻¹ *ᵥ s) = s + (star s ⬝ᵥ s) • c := by
    rw [mulVec_mulVec, hinv, add_mulVec, one_mulVec, vecMulVec_mulVec, op_smul_eq_smul]
  have hgap : K *ᵥ (y - J⁻¹ *ᵥ s) = -((star s ⬝ᵥ s) • c) := by
    rw [mulVec_sub, hy, hs', sub_add_cancel_left]
  rw [Matrix.mul_add, hinv, Matrix.mul_smul, mul_vecMulVec, hgap, neg_vecMulVec, smul_vecMulVec,
    smul_neg, smul_smul, inv_mul_cancel₀ hs, one_smul, add_neg_cancel_right]

end

/-! ## Denominators -/

/-- A step whose conjugate is not orthogonal to something is not zero, nor is its length. -/
theorem star_dotProduct_self_ne_zero [IsStrictOrderedRing ρ] (S : Scalars 𝕜 ρ) {s v : Fin n → 𝕜}
    (h : star s ⬝ᵥ v ≠ 0) : star s ⬝ᵥ s ≠ 0 := by
  refine fun hs => h ?_
  rw [S.eq_zero_of_star_dotProduct_self hs, star_zero, zero_dotProduct]

/-- The denominator of an update is that of the method, or zero and replaced. -/
structure Divides (S : Scalars 𝕜 ρ) (J : Matrix (Fin n) (Fin n) 𝕜) (s y : Fin n → 𝕜) (δ : 𝕜)
    (guarded : Bool) : Prop where
  unguarded : guarded = false → δ = star s ⬝ᵥ J *ᵥ y ∧ star s ⬝ᵥ J *ᵥ y ≠ 0
  guarded : guarded = true → δ = S.ofReal (1 / 100000) ∧ star s ⬝ᵥ J *ᵥ y = 0

/-- With either denominator an update of a regular matrix is regular. -/
theorem Divides.isUnit [IsStrictOrderedRing ρ] {S : Scalars 𝕜 ρ} {J : Matrix (Fin n) (Fin n) 𝕜}
    {s y : Fin n → 𝕜} {δ : 𝕜} {g : Bool} (h : Divides S J s y δ g) (hJ : IsUnit J) :
    IsUnit (corrected J s y δ) := by
  rw [isUnit_iff_isUnit_det] at hJ ⊢
  rw [det_corrected]
  refine .mul (isUnit_iff_ne_zero.mpr ?_) hJ
  cases g with
  | false =>
    obtain ⟨rfl, hδ⟩ := h.unguarded rfl
    rw [mul_sub, inv_mul_cancel₀ hδ, add_sub_cancel]
    exact mul_ne_zero (inv_ne_zero hδ) (star_dotProduct_self_ne_zero S hδ)
  | true =>
    obtain ⟨rfl, hδ⟩ := h.guarded rfl
    obtain ⟨x, hx, hs⟩ := S.exists_star_dotProduct_self s
    have hpos : (0 : ρ) < 1 + (1 / 100000)⁻¹ * x := by positivity
    rw [hδ, sub_zero, hs, ← map_inv₀, ← map_mul, ← map_one S.ofReal, ← map_add]
    exact (map_ne_zero S.ofReal).mpr hpos.ne'

/-! ## Updates -/

section

variable [DecidableEq 𝕜] [FloorRing ρ] {S : Scalars 𝕜 ρ} {J : Matrix (Fin n) (Fin n) 𝕜}
  {s v w : Fin n → 𝕜} {m d p x y : Tensor S.arithmetic}

/-- The denominator is looked at once, and replaced if it is zero. -/
theorem exists_denominator (hs : x.IsVector s) (hp : p.IsVector (J *ᵥ w)) (k : S.arithmetic.Kind) :
    ∃ t guarded, denominator k x p = .ok (t, guarded) ∧ t.shape = [] ∧
      Divides S J s w (t.entry 0) guarded := by
  obtain ⟨raw, hraw, hshape, hentry⟩ := hs.inner hp
  rw [denominator, hraw]
  by_cases hzero : raw.entry 0 = 0
  · have hguard : (Tensor.scalar k (S.arithmetic.guard k)).entry 0 = S.ofReal (1 / 100000) :=
      Tensor.elem_ofFn _ _ _ Nat.zero_lt_one
    refine ⟨_, true, if_pos (decide_eq_true hzero), rfl, nofun, fun _ => ⟨hguard, ?_⟩⟩
    rw [← hentry, hzero]
  · refine ⟨raw, false, if_neg fun h => hzero (of_decide_eq_true h), hshape, fun _ => ?_, nofun⟩
    rw [hentry] at hzero ⊢
    exact ⟨rfl, hzero⟩

/-- The outcome of an update of a matrix by a step and a change, with a denominator. -/
structure Update.Corrects (S : Scalars 𝕜 ρ) (J : Matrix (Fin n) (Fin n) 𝕜) (s y : Fin n → 𝕜) (δ : 𝕜)
    (u : Update S.arithmetic) : Prop where
  inverse : u.inverse.IsMatrix (corrected J s y δ)
  column : u.column.IsVector (δ⁻¹ • (s - J *ᵥ y))
  product : u.product.IsVector (J *ᵥ y)
  row : u.row.IsVector (star s ᵥ* J)
  divides : Divides S J s y δ u.guarded

/-- An update of a matrix along a direction by a change is the correction by the step against the
direction. -/
theorem exists_update (hm : m.IsMatrix J) (hd : d.IsVector v) (hy : y.IsVector w) :
    ∃ u δ, update m d y = .ok u ∧ u.Corrects S J (-v) w δ := by
  obtain ⟨step, hstep, hs⟩ := hd.neg
  obtain ⟨product, hproduct, hp⟩ := hm.matMul hy
  obtain ⟨row, hrow, hr⟩ := hs.conj.matMul hm
  obtain ⟨denom, guarded, hdenom, hshape, hdivides⟩ := exists_denominator hs hp m.kind
  obtain ⟨gap, hgap, hg⟩ := hs.sub hp
  obtain ⟨column, hcolumn, hc⟩ := hg.div hshape
  obtain ⟨inverse, hinverse, hi⟩ := hm.add (hc.outer hr)
  refine ⟨⟨inverse, column, product, row, guarded⟩, denom.entry 0, ?_, hi, hc, hp, hr, hdivides⟩
  simp only [update, hstep, hproduct, hrow, hdenom, hgap, hcolumn, hinverse, bind, Except.bind,
    pure, Except.pure]

/-- An update that answers is given a direction and a change that fit the matrix. -/
theorem sizes_of_update {u : Update S.arithmetic} (hm : m.shape = [n, n])
    (h : update m d.flatten y.flatten = .ok u) : d.size = n ∧ y.size = n := by
  obtain ⟨step, hstep, h⟩ := Attempt.bind_eq_ok.mp h
  obtain ⟨product, hproduct, h⟩ := Attempt.bind_eq_ok.mp h
  obtain ⟨row, hrow, -⟩ := Attempt.bind_eq_ok.mp h
  obtain ⟨c, hc, hstep'⟩ := (Tensor.isVector_flatten (t := d) rfl).neg
  obtain rfl := Except.ok.inj (hc.symm.trans hstep)
  exact ⟨Tensor.size_of_matMul_matrix hstep'.conj.shape hm hrow,
    Tensor.size_of_matMul_column hm y.shape_flatten hproduct⟩

end

end Secant

end QuasiNewton
