import Mathlib.LinearAlgebra.FiniteDimensional.Lemmas
import Mathlib.LinearAlgebra.Matrix.ToLin
import QuasiNewton.Proofs.Broyden

/-!
# Linear systems

On a linear system the defect of the inverse Jacobian, one minus the matrix of the system times it,
maps every residual of Broyden's method to the next one. A correction takes the change of the
residual out of the defect, and every second one takes a dimension out of a subspace that holds the
changes that follow. So after twice as many steps as there are unknowns no residual is left.
-/

namespace QuasiNewton.Secant

open Matrix

variable {𝕜 : Type} [Field 𝕜] {n : ℕ}

/-- What an inverse Jacobian misses of the inverse of a matrix. -/
def defect (A J : Matrix (Fin n) (Fin n) 𝕜) : Matrix (Fin n) (Fin n) 𝕜 := 1 - A * J

/-- The defect of a vector is what is left of it by the two matrices in a row. -/
theorem defect_mulVec (A J : Matrix (Fin n) (Fin n) 𝕜) (v : Fin n → 𝕜) :
    defect A J *ᵥ v = v - A *ᵥ (J *ᵥ v) := by
  rw [defect, sub_mulVec, one_mulVec, mulVec_mulVec]

/-- The defect commutes with the matrix times the inverse Jacobian. -/
theorem defect_mulVec_comm (A J : Matrix (Fin n) (Fin n) 𝕜) (v : Fin n → 𝕜) :
    defect A J *ᵥ (A *ᵥ (J *ᵥ v)) = A *ᵥ (J *ᵥ (defect A J *ᵥ v)) := by
  rw [defect_mulVec, defect_mulVec, mulVec_sub, mulVec_sub]

variable [StarRing 𝕜]

/-- A full step of the method on a linear system with a matrix, from an inverse Jacobian and a
residual to the next ones. -/
structure LinearStep (A J J' : Matrix (Fin n) (Fin n) 𝕜) (r r' : Fin n → 𝕜) : Prop where
  residual : r' = r - A *ᵥ (J *ᵥ r)
  denominator : star (-(J *ᵥ r)) ⬝ᵥ J *ᵥ (r' - r) ≠ 0
  inverse : J' = corrected J (-(J *ᵥ r)) (r' - r) (star (-(J *ᵥ r)) ⬝ᵥ J *ᵥ (r' - r))

namespace LinearStep

variable {A J J' : Matrix (Fin n) (Fin n) 𝕜} {r r' r'' : Fin n → 𝕜}

/-- The defect maps the residual to the next one. -/
theorem residual_eq (h : LinearStep A J J' r r') : r' = defect A J *ᵥ r := by
  rw [defect_mulVec]
  exact h.residual

/-- The matrix of the system maps the step to the change of the residual. -/
theorem change_eq (h : LinearStep A J J' r r') : r' - r = A *ᵥ (-(J *ᵥ r)) := by
  rw [h.residual, sub_sub_cancel_left, mulVec_neg]

/-- A step on a linear system changes the residual. -/
theorem change_ne_zero (h : LinearStep A J J' r r') : r' - r ≠ 0 := by
  intro hzero
  have hδ := h.denominator
  rw [hzero, mulVec_zero, dotProduct_zero] at hδ
  exact hδ rfl

/-- A correction takes the change of the residual out of the defect. -/
theorem exists_functional (h : LinearStep A J J' r r') :
    ∃ w : Fin n → 𝕜, w ⬝ᵥ (r' - r) = 1 ∧
      ∀ v, defect A J' *ᵥ v = defect A J *ᵥ (v - (w ⬝ᵥ v) • (r' - r)) := by
  have hδ := h.denominator
  have hy := h.change_eq
  have hJ' := h.inverse
  generalize hs : -(J *ᵥ r) = s at hδ hy hJ'
  generalize r' - r = y at hδ hy hJ' ⊢
  generalize hδ' : star s ⬝ᵥ J *ᵥ y = δ at hδ hJ'
  refine ⟨δ⁻¹ • (star s ᵥ* J), ?_, fun v => ?_⟩
  · rw [smul_dotProduct, ← dotProduct_mulVec, hδ', smul_eq_mul, inv_mul_cancel₀ hδ]
  · have hmap : J' *ᵥ v = J *ᵥ v + ((δ⁻¹ • (star s ᵥ* J)) ⬝ᵥ v) • (s - J *ᵥ y) := by
      rw [hJ', corrected, add_mulVec, vecMulVec_mulVec, op_smul_eq_smul, smul_smul,
        smul_dotProduct, smul_eq_mul, mul_comm]
    generalize (δ⁻¹ • (star s ᵥ* J)) ⬝ᵥ v = c at hmap ⊢
    rw [defect_mulVec, defect_mulVec, hmap]
    simp only [mulVec_add, mulVec_sub, mulVec_smul, ← hy, smul_sub]
    abel

/-- So the corrected defect maps it to zero. -/
theorem defect_change (h : LinearStep A J J' r r') : defect A J' *ᵥ (r' - r) = 0 := by
  obtain ⟨w, hw, hdefect⟩ := h.exists_functional
  rw [hdefect, hw, one_smul, sub_self, mulVec_zero]

/-- The next change is a multiple of what the defect makes of a change. -/
theorem exists_change (h : LinearStep A J J' r r') (hnext : r'' = r' - A *ᵥ (J' *ᵥ r')) :
    ∃ c : 𝕜, r'' - r' = c • defect A J *ᵥ (r' - r) := by
  obtain ⟨w, -, hdefect⟩ := h.exists_functional
  have hr' := hdefect r'
  have hmove : defect A J *ᵥ r' - r' = defect A J *ᵥ (r' - r) := by
    rw [mulVec_sub, ← h.residual_eq]
  refine ⟨1 - w ⬝ᵥ r', ?_⟩
  rw [mulVec_sub, mulVec_smul] at hr'
  rw [hnext, ← defect_mulVec, hr', sub_right_comm, hmove, sub_smul, one_smul]

end LinearStep

section

variable {A : Matrix (Fin n) (Fin n) 𝕜} {J : ℕ → Matrix (Fin n) (Fin n) 𝕜} {r : ℕ → Fin n → 𝕜}

/-- After every second step the changes that follow lie in a subspace of a smaller dimension, which
the defect maps into itself. -/
theorem exists_subspace {m : ℕ} (h : ∀ i < m, LinearStep A (J i) (J (i + 1)) (r i) (r (i + 1)))
    {j : ℕ} (hj : 2 * j < m) :
    ∃ V : Submodule 𝕜 (Fin n → 𝕜), Module.finrank 𝕜 V + j ≤ n ∧
      (∀ v ∈ V, defect A (J (2 * j)) *ᵥ v ∈ V) ∧ r (2 * j + 1) - r (2 * j) ∈ V := by
  induction j with
  | zero =>
    refine ⟨⊤, ?_, fun _ _ => Submodule.mem_top, Submodule.mem_top⟩
    rw [finrank_top, Module.finrank_fin_fun, Nat.add_zero]
  | succ j ih =>
    obtain ⟨V, hdim, hV, hchange⟩ := ih (by omega)
    have h₀ := h (2 * j) (by omega)
    have h₁ := h (2 * j + 1) (by omega)
    have h₂ := h (2 * j + 2) (by omega)
    obtain ⟨w, -, hdefect⟩ := h₀.exists_functional
    obtain ⟨w', -, hdefect'⟩ := h₁.exists_functional
    obtain ⟨c, hc⟩ := h₀.exists_change h₁.residual
    obtain ⟨c', hc'⟩ := h₁.exists_change h₂.residual
    have hchange' : r (2 * j + 2) - r (2 * j + 1) ∈ V := hc ▸ V.smul_mem c (hV _ hchange)
    -- the defect after the first of two steps maps the subspace into itself, but the change to zero
    let f := (defect A (J (2 * j + 1))).mulVecLin
    have hmap : V.map f ≤ V := by
      rintro _ ⟨v, hv, rfl⟩
      change defect A (J (2 * j + 1)) *ᵥ v ∈ V
      rw [hdefect]
      exact hV _ (V.sub_mem hv (V.smul_mem _ hchange))
    have hsmaller : Module.finrank 𝕜 (V.map f) + 1 ≤ Module.finrank 𝕜 V := by
      have hker : 0 < Module.finrank 𝕜 (f.domRestrict V).ker := by
        let y : (f.domRestrict V).ker := ⟨⟨_, hchange⟩, LinearMap.mem_ker.mpr h₀.defect_change⟩
        have hy : y ≠ 0 := fun hzero => h₀.change_ne_zero
          (congrArg (fun v : (f.domRestrict V).ker => (v.val : Fin n → 𝕜)) hzero)
        exact (Module.finrank_pos_iff_exists_ne_zero (R := 𝕜)).mpr ⟨y, hy⟩
      have hsum := (f.domRestrict V).finrank_range_add_finrank_ker
      rw [LinearMap.range_domRestrict] at hsum
      omega
    refine ⟨V.map f, by omega, ?_, ?_⟩
    · rintro v hv
      refine ⟨v - (w' ⬝ᵥ v) • (r (2 * j + 2) - r (2 * j + 1)), ?_, (hdefect' v).symm⟩
      exact V.sub_mem (hmap hv) (V.smul_mem _ hchange')
    · exact hc' ▸ Submodule.smul_mem _ c' ⟨_, hchange', rfl⟩

/-- After twice as many steps as there are unknowns no residual is left. -/
theorem residual_eq_zero (hn : n ≠ 0) (hA : IsUnit A)
    (h : ∀ i < 2 * n, LinearStep A (J i) (J (i + 1)) (r i) (r (i + 1)))
    (hJ : IsUnit (J (2 * n - 1))) : r (2 * n) = 0 := by
  obtain ⟨k, rfl⟩ := Nat.exists_eq_succ_of_ne_zero hn
  obtain ⟨V, hdim, hV, hchange⟩ := exists_subspace h (by omega : 2 * k < 2 * (k + 1))
  have h₀ := h (2 * k) (by omega)
  have h₁ := h (2 * k + 1) (by omega)
  obtain ⟨c, hc⟩ := h₀.exists_change h₁.residual
  have hchange' : r (2 * k + 2) - r (2 * k + 1) ∈ V := hc ▸ V.smul_mem c (hV _ hchange)
  -- What is left of the space is a line, so the last change is a multiple of the one before.
  obtain ⟨b, hb⟩ : ∃ b : 𝕜, b • (r (2 * k + 1) - r (2 * k)) = r (2 * k + 2) - r (2 * k + 1) := by
    have hnonzero : (⟨_, hchange⟩ : V) ≠ 0 := fun hzero =>
      h₀.change_ne_zero (congrArg Subtype.val hzero)
    have hline : Module.finrank 𝕜 V = 1 :=
      le_antisymm (by omega) (Module.finrank_pos_iff_exists_ne_zero.mpr ⟨_, hnonzero⟩)
    obtain ⟨b, hb⟩ := (finrank_eq_one_iff_of_nonzero' _ hnonzero).mp hline ⟨_, hchange'⟩
    exact ⟨b, congrArg Subtype.val hb⟩
  have hzero : A *ᵥ (J (2 * k + 1) *ᵥ r (2 * k + 2)) = 0 := by
    have hlast : defect A (J (2 * k + 1)) *ᵥ (r (2 * k + 2) - r (2 * k + 1)) = 0 := by
      rw [← hb, mulVec_smul, h₀.defect_change, smul_zero]
    rw [h₁.change_eq, mulVec_neg, mulVec_neg, defect_mulVec_comm, ← h₁.residual_eq] at hlast
    exact neg_eq_zero.mp hlast
  have hinner := mulVec_injective_of_isUnit hA (hzero.trans (mulVec_zero A).symm)
  exact mulVec_injective_of_isUnit hJ (hinner.trans (mulVec_zero _).symm)

end

end QuasiNewton.Secant
