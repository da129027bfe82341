import QuasiNewton.Proofs.Broyden
import QuasiNewton.Proofs.Consistency

/-!
# Steps that correct the inverse Jacobian

Over exact scalars the inverse Jacobian is a regular matrix after every history, whatever residual
function and line search answer. A step that corrects it without a replaced denominator makes it map
the change of the residual, as many times as the step is long, to the step.
-/

namespace QuasiNewton

open Matrix QuasiNewton.Action

variable {𝕜 ρ : Type} [Field 𝕜] [StarRing 𝕜] [DecidableEq 𝕜] [Field ρ] [LinearOrder ρ]
  [FloorRing ρ] {S : Scalars 𝕜 ρ} {P : Type} {setup : Setup S.arithmetic P}

namespace Affine

/-- Twice the iterate less the parameter, over the rational numbers. -/
def rational : Setup Scalars.rational.arithmetic Int := Affine.setup Scalars.rational.arithmetic 2

/-- A start at a single element. -/
def rationalRequest : Request Scalars.rational.arithmetic Int := startAt () [1] 3

/-- A step, and a restart at two elements. -/
def rationalDetour : List (Operation Scalars.rational.arithmetic Int) :=
  [.steps 1, .restart (restartAt () [1, 4] 5)]

end Affine

namespace Workspace

variable {w : Workspace S.arithmetic} {n : ℕ}

/-- The step against the search direction. -/
def descent (w : Workspace S.arithmetic) (n : ℕ) : Fin n → 𝕜 :=
  -(w.inverse.matrix n *ᵥ w.residual.vector n)

/-- A search direction is the inverse Jacobian times the residual. -/
theorem vector_of_aim (hm : w.inverse.shape = [n, n]) {v d : Tensor S.arithmetic}
    (hv : w.inverse.matMul w.residual.flatten = .ok v)
    (hd : v.reshape w.iterate.shape = .ok d) :
    d.shape = w.iterate.shape ∧ w.iterate.size = n ∧ w.residual.size = n ∧
      d.vector n = -w.descent n := by
  have hsize := Tensor.size_of_matMul_column hm w.residual.shape_flatten hv
  obtain ⟨c, hc, hcv⟩ := (Tensor.isMatrix_matrix hm).matMul (Tensor.isVector_flatten hsize)
  obtain rfl := Except.ok.inj (hc.symm.trans hv)
  unfold Tensor.reshape at hd
  split at hd
  case isFalse => cases hd
  case isTrue hshape =>
    obtain rfl := Except.ok.inj hd
    refine ⟨rfl, hshape.symm.trans hcv.size, hsize, ?_⟩
    rw [descent, neg_neg, ← hcv.vector]
    rfl

/-- A length along it is a multiple of the step. -/
theorem vector_of_advance (hm : w.inverse.shape = [n, n]) {v d u : Tensor S.arithmetic} {α : ρ}
    (hv : w.inverse.matMul w.residual.flatten = .ok v) (hd : v.reshape w.iterate.shape = .ok d)
    (hu : w.iterate.sub (d.scale α) = .ok u) :
    u.shape = w.iterate.shape ∧
      u.vector n = w.iterate.vector n + S.ofReal α • w.descent n := by
  obtain ⟨hshape, hsize, -, hvector⟩ := vector_of_aim hm hv hd
  obtain ⟨c, hc, hcshape, hcvector⟩ :=
    Tensor.exists_sub (a := w.iterate) (b := d.scale α) hshape.symm hsize
  obtain rfl := Except.ok.inj (hc.symm.trans hu)
  refine ⟨hcshape, hcvector.trans ?_⟩
  rw [Tensor.vector_scale (S := S) α ((congrArg Shape.size hshape).trans hsize), hvector, smul_neg,
    sub_neg_eq_add]

/-- The inverse Jacobian is a regular matrix. -/
def Invertible (w : Workspace S.arithmetic) : Prop :=
  ∃ n, w.inverse.shape = [n, n] ∧ IsUnit (w.inverse.matrix n)

/-- A regular matrix is invertible. -/
theorem invertible_of_isMatrix {M : Matrix (Fin n) (Fin n) 𝕜} (h : w.inverse.IsMatrix M)
    (hM : IsUnit M) : w.Invertible := by
  refine ⟨n, h.shape, ?_⟩
  rwa [h.matrix]

/-- So is the identity. -/
theorem invertible_initial {iterate residual : Tensor S.arithmetic}
    (h : w.inverse = Secant.initial iterate residual) : w.Invertible := by
  have hone : w.inverse.IsMatrix (1 : Matrix (Fin iterate.size) (Fin iterate.size) 𝕜) := by
    rw [h]
    exact Tensor.isMatrix_identity iterate.size
  exact invertible_of_isMatrix hone isUnit_one

/-- Resets and corrections preserve that the inverse Jacobian is regular. -/
theorem preserved_invertible [IsStrictOrderedRing ρ] (setup : Setup S.arithmetic P) :
    Preserved setup Invertible where
  allocate := fun _ => invertible_initial rfl
  aim := fun h _ _ => h
  advance := fun h _ => h
  trial := fun h _ => h
  compare := fun h _ => h
  commit := fun h => h
  reset := fun _ => invertible_initial rfl
  correct := by
    rintro w u inverse d ⟨n, hm, hunit⟩ hu hinverse -
    obtain rfl := hinverse.exact (S.addsOuter _)
    obtain ⟨hdsize, hysize⟩ := Secant.sizes_of_update hm hu
    obtain ⟨u', δ, hu', hcorrects⟩ := Secant.exists_update (Tensor.isMatrix_matrix hm)
      (Tensor.isVector_flatten hdsize) (Tensor.isVector_flatten hysize)
    obtain rfl := Except.ok.inj (hu'.symm.trans hu)
    exact invertible_of_isMatrix hcorrects.inverse (hcorrects.divides.isUnit hunit)
  moveTo := fun h _ => h
  residual := fun h _ => h
  identity := by
    rintro w m ⟨n, hm, -⟩ hreset
    exact invertible_of_isMatrix (Tensor.isMatrix_of_resetToIdentity hm hreset) isUnit_one

end Workspace

namespace Session

variable {s s' : Session S.arithmetic P} {n : ℕ} {α : ρ}

/-- A probe goes against the inverse Jacobian times the residual, as far as the line search chose.
-/
theorem Probe.Valid.vectors {x : Probe S.arithmetic} (hx : x.Valid setup s)
    (hm : s.work.inverse.shape = [n, n]) :
    x.direction.shape = s.work.iterate.shape ∧ s.work.iterate.size = n ∧
      x.direction.vector n = -s.work.descent n ∧ x.iterate.shape = s.work.iterate.shape ∧
      x.iterate.vector n =
        s.work.iterate.vector n + S.ofReal x.length • s.work.descent n := by
  obtain ⟨v, hv, hdirection⟩ := hx.direction S.isWorking
  obtain ⟨hshape, hsize, -, hvector⟩ := Workspace.vector_of_aim hm hv hdirection
  exact ⟨hshape, hsize, hvector, Workspace.vector_of_advance hm hv hdirection hx.advance⟩

/-- What a step with a correction did, read as vectors and matrices of a size: the length the line
search chose, the step, the change of the residual, and the correction with its denominator. -/
structure Correction (n : ℕ) (α : ρ) (δ : 𝕜) (guarded : Bool) (s s' : Session S.arithmetic P) :
    Prop where
  length : ∃ d searches, d.shape = s.work.iterate.shape ∧ d.vector n = -s.work.descent n ∧
    s.lineSearch.length s.searches s.work.iterate d = (.ok α, searches)
  size : s.work.iterate.size = n
  previous : s'.work.previous = s.work.iterate
  shape : s'.work.iterate.shape = s.work.iterate.shape
  moved : s'.work.iterate.vector n = s.work.iterate.vector n + S.ofReal α • s.work.descent n
  change : s'.work.residual.sub s.work.residual = .ok s'.work.change ∧ s'.work.change.size = n
  inverse : s'.work.inverse.IsMatrix
    (Secant.corrected (s.work.inverse.matrix n) (s.work.descent n) (s'.work.change.vector n) δ)
  divides :
    Secant.Divides S (s.work.inverse.matrix n) (s.work.descent n) (s'.work.change.vector n) δ
      guarded
  guards : s'.statistics.guards = s.statistics.guards → guarded = false
  parameter : s'.parameter = s.parameter

/-- A step that answers, goes on and does not reset the inverse Jacobian has corrected it. -/
theorem Stepped.correction (h : Stepped setup s s') (hm : s.work.inverse.shape = [n, n])
    (hgoing : s'.stopped = false) (hresets : s'.resets = s.resets) :
    ∃ α δ guarded, Correction n α δ guarded s s' := by
  cases h with
  | concluded hx hcheck hend =>
    cases hend with
    | stayed => cases hgoing
    | restored => cases hgoing
  | @refined x m _ hx hcheck hrest =>
    cases hrest with
    | exhausted => cases hgoing
    | reset =>
      exact absurd (show s.resets + 1 = s.resets from hresets) (by omega)
    | @corrected y d inverse u transcript hy hsmall hu hleft hd =>
      obtain rfl := hleft.exact (S.addsOuter _)
      obtain ⟨hshape, hsize, hvector, hmoved⟩ := hx.vectors hm
      have hdsize : x.direction.size = n := (congrArg Shape.size hshape).trans hsize
      obtain ⟨-, hysize⟩ := Secant.sizes_of_update hm hu
      obtain ⟨u', δ, hu', hinverse, -, -, -, hdivides⟩ :=
        Secant.exists_update (Tensor.isMatrix_matrix hm) (Tensor.isVector_flatten hdsize)
          (Tensor.isVector_flatten hysize)
      obtain rfl := Except.ok.inj (hu'.symm.trans hu)
      rw [hvector, neg_neg] at hinverse hdivides
      refine ⟨x.length, δ, u'.guarded,
        { length := ⟨x.direction, x.searches, hshape, hvector, hx.length⟩
          size := hsize
          previous := rfl
          shape := hmoved.1
          moved := hmoved.2
          change := ⟨hy, hysize⟩
          inverse := hinverse
          divides := hdivides
          guards := fun hguards => ?_
          parameter := rfl }⟩
      · by_contra hguarded
        rw [Bool.not_eq_false] at hguarded
        change (if u'.guarded then (s.probed x).statistics.bump .guards 1
          else (s.probed x).statistics).guards = s.statistics.guards at hguards
        rw [if_pos hguarded] at hguards
        exact absurd (show s.statistics.guards + 1 = s.statistics.guards from hguards) (by omega)

/-- A step that answers in order, goes on and does not reset the inverse Jacobian has corrected
it. -/
theorem exists_correction (hs : s.Ordered setup) (hm : s.work.inverse.shape = [n, n])
    (hstep : (step setup).outcome s = (.ok (), s')) (hgoing : s'.stopped = false)
    (hresets : s'.resets = s.resets) :
    Stepped setup s s' ∧ ∃ α δ guarded, Correction n α δ guarded s s' := by
  cases hstopped : s.stopped with
  | true =>
    rw [outcome_step_of_stopped setup hstopped] at hstep
    obtain rfl := congrArg Prod.snd hstep
    exact absurd (hgoing.symm.trans hstopped) Bool.false_ne_true
  | false =>
    rw [outcome_step_of_not_stopped setup hstopped] at hstep
    have hstepped := of_advance hs hstep
    exact ⟨hstepped, hstepped.correction hm hgoing hresets⟩

section

variable {F : Tensor S.arithmetic → P → Attempt S.arithmetic (Tensor S.arithmetic)} {δ : 𝕜}
  {guarded : Bool}

/-- With a residual function the change is that of the residuals. -/
theorem Correction.vector_change (h : Correction n α δ guarded s s') (hF : Residual.Conforms F)
    (hs : s.Consistent F) (hs' : s'.Consistent F) :
    s'.work.change.vector n = s'.work.residual.vector n - s.work.residual.vector n := by
  have hshape : s'.work.residual.shape = s'.work.iterate.shape :=
    Tensor.shape_congr (hF _ _ _ hs')
  have hshape₀ : s.work.residual.shape = s.work.iterate.shape := Tensor.shape_congr (hF _ _ _ hs)
  have hsame := hshape.trans (h.shape.trans hshape₀.symm)
  have hsize : s'.work.residual.size = n :=
    (congrArg Shape.size (hshape.trans h.shape)).trans h.size
  obtain ⟨c, hc, -, hvector⟩ := Tensor.exists_sub hsame hsize
  obtain rfl := Except.ok.inj (hc.symm.trans h.change.1)
  exact hvector

/-- So it is that of its values. -/
theorem Correction.values (h : Correction n α δ guarded s s') (hF : Residual.Conforms F)
    (hs : s.Consistent F) (hs' : s'.Consistent F) :
    ∃ v v', F s'.work.previous s'.parameter = .ok v ∧ F s'.work.iterate s'.parameter = .ok v' ∧
      s'.work.change.vector n = v'.vector n - v.vector n := by
  refine ⟨s.work.residual, s'.work.residual, ?_, hs', h.vector_change hF hs hs'⟩
  rw [h.previous, h.parameter]
  exact hs

end

/-! ## The secant equation -/

/-- The new inverse Jacobian maps the change of the residual, as many times as the step is long, to
the step; the line search chose the length along the inverse Jacobian times the residual. -/
structure SecantEquation (n : ℕ) (α : ρ) (s s' : Session S.arithmetic P) : Prop where
  length : ∃ d searches, d.shape = s.work.iterate.shape ∧
    d.vector n = s.work.inverse.matrix n *ᵥ s.work.residual.vector n ∧
    s.lineSearch.length s.searches s.work.iterate d = (.ok α, searches)
  inverse : s'.work.inverse.shape = [n, n]
  change : s'.work.change.size = n
  iterate : s'.work.iterate.size = n
  previous : s'.work.previous = s.work.iterate ∧ s'.work.previous.size = n
  equation : S.ofReal α • s'.work.inverse.matrix n *ᵥ s'.work.change.vector n =
    s'.work.iterate.vector n - s'.work.previous.vector n
  classical : s.lineSearch = .fullStep → s'.work.inverse.matrix n *ᵥ s'.work.change.vector n =
    s'.work.iterate.vector n - s'.work.previous.vector n

/-- A correction with the denominator of the method maps the change of the residual to the step that
the line search scales. -/
theorem Correction.mulVec_change {δ : 𝕜} (h : Correction n α δ false s s') :
    s'.work.inverse.matrix n *ᵥ s'.work.change.vector n = s.work.descent n := by
  obtain ⟨rfl, hδ⟩ := h.divides.unguarded rfl
  rw [h.inverse.matrix, Secant.corrected_mulVec hδ]

/-- A correction with the denominator of the method satisfies the secant equation. -/
theorem Correction.secantEquation {δ : 𝕜} (h : Correction n α δ false s s') :
    SecantEquation n α s s' := by
  obtain ⟨d, searches, hshape, hd, hlength⟩ := h.length
  have hmap := h.mulVec_change
  have hequation : S.ofReal α • s'.work.inverse.matrix n *ᵥ s'.work.change.vector n =
      s'.work.iterate.vector n - s'.work.previous.vector n := by
    rw [hmap, h.moved, h.previous, add_sub_cancel_left]
  exact
    { length := ⟨d, searches, hshape, by rw [hd, Workspace.descent, neg_neg], hlength⟩
      inverse := h.inverse.shape
      change := h.change.2
      iterate := (congrArg Shape.size h.shape).trans h.size
      previous := ⟨h.previous, by rw [h.previous, h.size]⟩
      equation := hequation
      classical := fun hfull => by
        rw [hfull] at hlength
        obtain rfl : (1 : ρ) = α := Except.ok.inj (congrArg Prod.fst hlength)
        rwa [map_one, one_smul] at hequation }

variable [IsStrictOrderedRing ρ] {request : Request S.arithmetic P}
  {s₀ : Session S.arithmetic P} {calls : ℕ} {ops : List (Operation S.arithmetic P)}

/-- After every history of steps, runs and restarts, which may have failed, a step that goes on and
neither resets the inverse Jacobian nor replaces its denominator satisfies the secant equation. If
the residual is that of a function and the history answered, the change is that of its values. -/
theorem secant_equation (hstart : start setup request = (.ok s₀, calls))
    (hops : ∀ op ∈ ops, op.IsSolving) (hs : s = after setup s₀ ops)
    (hstep : (step setup).outcome s = (.ok (), s')) (hgoing : s'.stopped = false)
    (hresets : s'.resets = s.resets) (hguards : s'.statistics.guards = s.statistics.guards) :
    ∃ n α, SecantEquation n α s s' ∧
      ∀ F, setup.residual.Computes F → Residual.Conforms F → Completes setup s₀ ops →
        ∃ v v', F s'.work.previous s'.parameter = .ok v ∧
          F s'.work.iterate s'.parameter = .ok v' ∧
          s'.work.change.vector n = v'.vector n - v.vector n := by
  obtain ⟨hordered, n, hm, -⟩ := (Workspace.preserved_invertible setup).stable.after hstart hops
  rw [← hs] at hordered hm
  obtain ⟨hstepped, α, δ, guarded, hcorrection⟩ :=
    exists_correction hordered hm hstep hgoing hresets
  obtain rfl := hcorrection.guards hguards
  refine ⟨n, α, hcorrection.secantEquation, fun F hR hF hanswer => ?_⟩
  have hsound := (invariant_sound hR hF).after hops (fun _ r h => h.restart hR hF r) hanswer
    (sound_start hR hF hstart)
  rw [← hs] at hsound
  exact hcorrection.values hF hsound.2 (hstepped.consistent hR hF)

open QuasiNewton.Affine in
/-- The step after the restart corrects the inverse Jacobian. -/
theorem rational_corrects :
    ∃ s₀ calls s', start rational rationalRequest = (.ok s₀, calls) ∧
      (step rational).outcome (after rational s₀ rationalDetour) = (.ok (), s') ∧
      s'.stopped = false ∧ s'.resets = (after rational s₀ rationalDetour).resets ∧
      s'.statistics.guards = (after rational s₀ rationalDetour).statistics.guards := by
  obtain ⟨s₀, calls, hstart, ⟨⟨⟩, ha⟩, hgoing, hresets, hguards⟩ :=
    exists_started rational rationalRequest
      (fun s => (∃ a, ((step rational).outcome (after rational s rationalDetour)).1 = .ok a) ∧
        ((step rational).outcome (after rational s rationalDetour)).2.stopped = false ∧
        ((step rational).outcome (after rational s rationalDetour)).2.resets =
          (after rational s rationalDetour).resets ∧
        ((step rational).outcome (after rational s rationalDetour)).2.statistics.guards =
          (after rational s rationalDetour).statistics.guards) (by decide +kernel)
  exact ⟨s₀, calls, _, hstart, Prod.ext ha rfl, hgoing, hresets, hguards⟩

open QuasiNewton.Affine in
/-- After a step and a restart in rational numbers, the next step satisfies the secant equation. -/
theorem secant_equation_affine :
    ∃ s₀ calls s', start rational rationalRequest = (.ok s₀, calls) ∧
      (step rational).outcome (after rational s₀ rationalDetour) = (.ok (), s') ∧
      ∃ n α, SecantEquation n α (after rational s₀ rationalDetour) s' := by
  obtain ⟨s₀, calls, s', hstart, hstep, hgoing, hresets, hguards⟩ := rational_corrects
  obtain ⟨n, α, hequation, -⟩ :=
    secant_equation hstart (by decide) rfl hstep hgoing hresets hguards
  exact ⟨s₀, calls, s', hstart, hstep, n, α, hequation⟩

/-! ## Regular inverse Jacobians -/

/-- After every history of steps, runs and restarts, which may have failed, the inverse Jacobian is
regular, and a step that corrects it without replacing the denominator adds Broyden's direct update
to its inverse. -/
theorem inverse_regular (hstart : start setup request = (.ok s₀, calls))
    (hops : ∀ op ∈ ops, op.IsSolving) (hs : s = after setup s₀ ops) :
    ∃ n, s.work.inverse.shape = [n, n] ∧ IsUnit (s.work.inverse.matrix n) ∧
      ∀ s', (step setup).outcome s = (.ok (), s') → s'.stopped = false → s'.resets = s.resets →
        s'.statistics.guards = s.statistics.guards →
        s'.work.inverse.shape = [n, n] ∧ s'.work.change.size = n ∧
          star (s.work.descent n) ⬝ᵥ s.work.descent n ≠ 0 ∧
          (s'.work.inverse.matrix n)⁻¹ = (s.work.inverse.matrix n)⁻¹ +
            (star (s.work.descent n) ⬝ᵥ s.work.descent n)⁻¹ •
              vecMulVec
                (s'.work.change.vector n - (s.work.inverse.matrix n)⁻¹ *ᵥ s.work.descent n)
                (star (s.work.descent n)) := by
  obtain ⟨hordered, n, hm, hunit⟩ := (Workspace.preserved_invertible setup).stable.after hstart hops
  rw [← hs] at hordered hm hunit
  refine ⟨n, hm, hunit, fun s' hstep hgoing hresets hguards => ?_⟩
  obtain ⟨-, α, δ, guarded, h⟩ := exists_correction hordered hm hstep hgoing hresets
  obtain rfl := h.guards hguards
  obtain ⟨rfl, hδ⟩ := h.divides.unguarded rfl
  have hlength := Secant.star_dotProduct_self_ne_zero S hδ
  refine ⟨h.inverse.shape, h.change.2, hlength, ?_⟩
  rw [h.inverse.matrix, Secant.inv_corrected hunit hδ hlength]

open QuasiNewton.Affine in
/-- There the inverse Jacobian is regular, and the step against the direction is not zero. -/
theorem inverse_regular_affine :
    ∃ s₀ calls s' n, start rational rationalRequest = (.ok s₀, calls) ∧
      (step rational).outcome (after rational s₀ rationalDetour) = (.ok (), s') ∧
      IsUnit ((after rational s₀ rationalDetour).work.inverse.matrix n) ∧
      s'.work.inverse.shape = [n, n] ∧
      star ((after rational s₀ rationalDetour).work.descent n) ⬝ᵥ
        (after rational s₀ rationalDetour).work.descent n ≠ 0 := by
  obtain ⟨s₀, calls, s', hstart, hstep, hgoing, hresets, hguards⟩ := rational_corrects
  have hops : ∀ op ∈ rationalDetour, op.IsSolving := by decide
  obtain ⟨n, -, hunit, hupdate⟩ := inverse_regular hstart hops rfl
  obtain ⟨hshape, -, hlength, -⟩ := hupdate s' hstep hgoing hresets hguards
  exact ⟨s₀, calls, s', n, hstart, hstep, hunit, hshape, hlength⟩

end Session

end QuasiNewton
