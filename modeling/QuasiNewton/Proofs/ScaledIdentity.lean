import QuasiNewton.Proofs.FixedSteps
import QuasiNewton.Proofs.Rules

/-!
# Multiples of the distance to a point

Without rounding a solve for the zero of a multiple of the distance to a point takes at most two
steps, however long they are. All points lie on a line, along which the first correction learns the
multiple and the length, so that the second step leads to the point.
-/

namespace QuasiNewton

open Matrix QuasiNewton.Action

variable {𝕜 : Type} [Field 𝕜] {n : ℕ}

namespace Secant

variable {d : Fin n → 𝕜} {a b : 𝕜}

/-- A matrix that divides a multiple of a vector by its factor divides all its multiples by it. -/
theorem smul_mulVec_of_mulVec_smul {K : Matrix (Fin n) (Fin n) 𝕜} (h : K *ᵥ (a • d) = d) :
    a • K *ᵥ (b • d) = b • d := by
  rw [mulVec_smul, smul_comm, ← mulVec_smul, h]

variable {ρ : Type} [StarRing 𝕜] [Field ρ] [LinearOrder ρ] {S : Scalars 𝕜 ρ}

/-- From the identity a change that is a multiple of the step has a denominator that is not zero. -/
theorem Divides.unguarded_of_smul [IsStrictOrderedRing ρ] {δ : 𝕜} {g : Bool}
    (h : Divides S 1 d (a • d) δ g) (ha : a ≠ 0) (hd : d ≠ 0) : g = false := by
  cases g with
  | false => rfl
  | true =>
    obtain ⟨-, hzero⟩ := h.guarded rfl
    rw [one_mulVec, dotProduct_smul, smul_eq_mul] at hzero
    exact absurd (S.eq_zero_of_star_dotProduct_self ((mul_eq_zero.mp hzero).resolve_left ha)) hd

end Secant

namespace Session

variable {ρ P : Type} [StarRing 𝕜] [DecidableEq 𝕜] [Field ρ] [LinearOrder ρ] [FloorRing ρ]
  {S : Scalars 𝕜 ρ} {setup : Setup S.arithmetic P}
  {request : Request S.arithmetic P} {c δ : 𝕜} {p : Fin n → 𝕜} {α : ρ} {guarded : Bool} {m : ℤ}
  {rule : LineSearch S.arithmetic} {s s' s'' : Session S.arithmetic P}

/-- The residual is the multiple of the distance. -/
theorem residual_of_scaled (h : s.Consistent (Residual.ofMap fun u => c • (u - p)))
    (hsize : s.work.iterate.size = n) :
    s.work.residual.vector n = c • (s.work.iterate.vector n - p) :=
  Residual.vector_of_ofMap h hsize

/-- Its change is a multiple of the step. -/
theorem Correction.change_of_scaled (h : Correction n α δ guarded s s')
    (hs : s.Consistent (Residual.ofMap fun u => c • (u - p)))
    (hs' : s'.Consistent (Residual.ofMap fun u => c • (u - p))) :
    s'.work.change.vector n = (c * S.ofReal α) • s.work.descent n := by
  rw [h.vector_change Residual.conforms_ofMap hs hs', residual_of_scaled hs h.size,
    residual_of_scaled hs' ((congrArg Shape.size h.shape).trans h.size), h.moved, ← smul_sub,
    sub_sub_sub_cancel_right, add_sub_cancel_left, smul_smul]

/-- The step after a correction of the identity leads to the point. -/
theorem Paced.vector_of_scaled [IsStrictOrderedRing ρ] (hc : c ≠ 0) (hα : 0 < α)
    (hs : Striding (Residual.ofMap fun u => c • (u - p)) n α setup s)
    (hone : s.work.inverse.matrix n = 1)
    (h : Paced (Residual.ofMap fun u => c • (u - p)) n α setup s s')
    (hcorrection : Correction n α δ guarded s s') (hne : s'.work.residual.vector n ≠ 0)
    (h' : Paced (Residual.ofMap fun u => c • (u - p)) n α setup s' s'') :
    s''.work.iterate.vector n = p := by
  have hresidual := residual_of_scaled h.consistent ((congrArg Shape.size h.shape).trans hs.size)
  have hdescent : s.work.descent n = -(c • (s.work.iterate.vector n - p)) := by
    rw [Workspace.descent, hone, one_mulVec, residual_of_scaled hs.consistent hs.size]
  -- the residual is still a multiple of the first step
  have hmultiple : s'.work.residual.vector n = (c * S.ofReal α - 1) • s.work.descent n := by
    rw [hresidual, h.moved, hdescent]
    module
  have hchange := hcorrection.change_of_scaled hs.consistent h.consistent
  have hguarded : guarded = false := by
    have hdivides := hcorrection.divides
    rw [hone, hchange] at hdivides
    refine hdivides.unguarded_of_smul (mul_ne_zero hc ((map_ne_zero S.ofReal).mpr hα.ne'))
      fun hzero => hne ?_
    rw [hmultiple, hzero, smul_zero]
  subst hguarded
  have hmap := hcorrection.mulVec_change
  rw [hchange] at hmap
  have hstep : S.ofReal α • s'.work.inverse.matrix n *ᵥ s'.work.residual.vector n =
      s'.work.iterate.vector n - p := by
    refine smul_right_injective _ hc ?_
    change c • _ = c • _
    rw [← hresidual, smul_smul, hmultiple, Secant.smul_mulVec_of_mulVec_smul hmap]
  rw [h'.moved, Workspace.descent, smul_neg, hstep]
  abel

/-- From the identity, if the first step does not run into the reset check, the first or the second
one ends the session with success, the second one at the point. -/
theorem exists_ended_of_scaled [IsStrictOrderedRing ρ] (hroot : S.root 0 = 0) (hc : c ≠ 0)
    (hα : 0 < α) (hsetup : setup.Answers)
    (hR : setup.residual.Computes (Residual.ofMap fun u => c • (u - p)))
    (hs : Striding (Residual.ofMap fun u => c • (u - p)) n α setup s)
    (hone : s.work.inverse.matrix n = 1) (hresets : (attempts setup s 1).resets = s.resets)
    (hstatus : (attempts setup s 1).status ≠ .resetsExhausted) :
    ∃ k < 2,
      (∀ i ≤ k, Striding (Residual.ofMap fun u => c • (u - p)) n α setup (attempts setup s i)) ∧
      (attempts setup s (k + 1)).stopped = true ∧ (attempts setup s (k + 1)).status = .success ∧
      (k = 1 → (attempts setup s 2).work.iterate.shape = s.work.iterate.shape ∧
        (attempts setup s 2).work.iterate.vector n = p) := by
  have hF : Residual.Conforms (Residual.ofMap (S := S) (P := P) fun u => c • (u - p)) :=
    Residual.conforms_ofMap
  have hnext {t : Session S.arithmetic P}
      (ht : Striding (Residual.ofMap fun u => c • (u - p)) n α setup t) :
      Paced (Residual.ofMap fun u => c • (u - p)) n α setup t ((step setup).outcome t).2 := by
    obtain ⟨t', hstep⟩ := ht.exists_step hsetup
    rw [hstep]
    exact ht.paced hsetup hR hF hroot hstep
  have h₁ : Paced _ n α setup s (attempts setup s 1) := hnext hs
  by_cases hends : (attempts setup s 1).stopped = true ∧ (attempts setup s 1).status = .success
  · refine ⟨0, Nat.zero_lt_two, fun i hi => ?_, hends.1, hends.2, fun h => absurd h zero_ne_one⟩
    obtain rfl := Nat.le_zero.mp hi
    exact hs
  · obtain ⟨hgoing, hne, δ, guarded, hcorrection⟩ := h₁.correction hs hresets hstatus hends
    have hs₁ := h₁.striding hs hgoing
    have h₂ : Paced _ n α setup (attempts setup s 1) (attempts setup s 2) := hnext hs₁
    have hpoint := h₁.vector_of_scaled hc hα hs hone hcorrection hne h₂
    have hzero : (attempts setup s 2).work.residual.vector n = 0 := by
      rw [residual_of_scaled h₂.consistent ((congrArg Shape.size h₂.shape).trans hs₁.size), hpoint,
        sub_self, smul_zero]
    obtain ⟨hended, hsuccess⟩ := h₂.ended hzero
    refine ⟨1, Nat.one_lt_two, fun i hi => ?_, hended, hsuccess,
      fun _ => ⟨h₂.shape.trans h₁.shape, hpoint⟩⟩
    rcases Nat.le_one_iff_eq_zero_or_eq_one.mp hi with rfl | rfl
    · exact hs
    · exact hs₁

/-- Over exact scalars a solve for the zero of a multiple of the distance to a point with steps of
one length, a bound of every component and a budget of at least two steps reports success after at
most two, if the first one does not run into the reset check. After two it has found the point. -/
theorem scaled_solve_ends [IsStrictOrderedRing ρ] (hroot : S.root 0 = 0) (hn : n ≠ 0) (hc : c ≠ 0)
    (h : SolvesMap (fun u => c • (u - p)) rule setup request m)
    (hfixed : setup.options.lineSearch.IsFixed) (hm : 2 ≤ m)
    (hcalm : ∀ s calls, start setup request = (.ok s, calls) →
      (attempts setup s 1).resets = 0 ∧ (attempts setup s 1).status ≠ .resetsExhausted) :
    ∃ r, (solve setup request).1 = .ok r ∧ r.status = .success ∧ r.steps ≤ 2 ∧
      (r.steps = 2 → r.iterate.shape = request.origin.point.shape ∧ r.iterate.vector n = p) := by
  obtain ⟨α, hα, hrule⟩ := LineSearch.exists_length hfixed h.line
  obtain ⟨s, calls, hstart, hs, -, hone, hshape, hbudget⟩ := h.exists_start hn (by omega) hrule
  obtain ⟨hresets, hstatus⟩ := hcalm s calls hstart
  obtain ⟨k, hk, hall, hended, hsuccess, hpoint⟩ := exists_ended_of_scaled hroot hc hα h.answers
    h.residual hs hone (hresets.trans (cleared_start hstart).1.resets.symm) hstatus
  obtain ⟨_, hsolve, hsteps⟩ := h.solve_eq hstart hbudget (by omega) hall hended
  refine ⟨_, hsolve, hsuccess, ?_, fun htwo => ?_⟩
  · change (attempts setup s (k + 1)).statistics.steps ≤ 2
    omega
  · change (attempts setup s (k + 1)).statistics.steps = 2 at htwo
    obtain rfl : k = 1 := by omega
    obtain ⟨hshape₂, hvector⟩ := hpoint rfl
    exact ⟨hshape₂.trans hshape, hvector⟩

end Session

namespace Affine

/-- Minus twice the distance to a point of the plane, over the rational numbers, with half steps. -/
def distance : Setup Scalars.rational.arithmetic Int where
  residual := .returning fun _ => Residual.ofMap fun u => (-2 : ℚ) • (u - ![1, 3])
  options := { Options.standard with lineSearch := .setting (.number (.real (1 / 2 : ℚ))) }
  norm := .rms
  verbosity := .number (.whole 0)

/-- A start at another point with a bound of every component. -/
def distanceRequest : Request Scalars.rational.arithmetic Int :=
  { startAt () [4, 0] 0 with condition := .setting (.text "abs") }

end Affine

namespace Session

open QuasiNewton.Affine

/-- The first step does not run into the reset check. -/
theorem distance_undisturbed (s : Session Scalars.rational.arithmetic Int) (calls : ℕ)
    (h : start distance distanceRequest = (.ok s, calls)) :
    (attempts distance s 1).resets = 0 ∧ (attempts distance s 1).status ≠ .resetsExhausted := by
  exact of_started h (fun s => (attempts distance s 1).resets = 0 ∧
    (attempts distance s 1).status ≠ .resetsExhausted) (by decide +kernel)

/-- The distance to a target of two elements is brought to zero in two steps. -/
theorem scaled_solve_ends_distance :
    ∃ r, (solve distance distanceRequest).1 = .ok r ∧ r.status = .success ∧ r.steps = 2 ∧
      r.iterate.shape = [2] ∧ r.iterate.vector 2 = ![1, 3] := by
  have hsteps : (solve distance distanceRequest).1.toOption.map (·.steps) = some 2 := by
    decide +kernel
  have hsolves : SolvesMap (S := Scalars.rational) (fun u => (-2 : ℚ) • (u - ![1, 3]))
      (.fixed (1 / 2 : ℚ)) distance distanceRequest 1000 :=
    { residual := fun _ _ _ => rfl
      norm := fun _ _ => ⟨_, rfl⟩
      verbosity := ⟨_, rfl⟩
      line := if_pos (by decide +kernel)
      check := by decide +kernel
      size := rfl
      condition := ⟨_, rfl, rfl⟩
      tolerances := by decide +kernel
      budget := ⟨_, rfl, rfl⟩ }
  obtain ⟨r, hsolve, hsuccess, -, hpoint⟩ := scaled_solve_ends (by decide +kernel) (by decide)
    (by decide) hsolves trivial (by decide) distance_undisturbed
  rw [hsolve] at hsteps
  have htwo : r.steps = 2 := Option.some.inj hsteps
  exact ⟨r, hsolve, hsuccess, htwo, hpoint htwo⟩

end Session

end QuasiNewton
