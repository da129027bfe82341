import QuasiNewton.Proofs.FixedSteps
import QuasiNewton.Proofs.LinearSystems

/-!
# Solves of linear systems

Without rounding a solve of a linear system that goes full steps, bounds every component and is not
disturbed by resets and replaced denominators is Broyden's method, step by step. So it reports
success after at most twice as many steps as there are unknowns.
-/

namespace QuasiNewton

open Matrix QuasiNewton.Action

/-- No reset and no replaced denominator has been counted, and the session has not ended for want of
a reset. -/
def Session.Undisturbed {A : Arithmetic} {P : Type} (s : Session A P) : Prop :=
  s.resets = 0 ∧ s.statistics.guards = 0 ∧ s.status ≠ .resetsExhausted

instance {A : Arithmetic} {P : Type} (s : Session A P) : Decidable s.Undisturbed :=
  inferInstanceAs (Decidable (_ ∧ _))

variable {𝕜 ρ : Type} [Field 𝕜] [StarRing 𝕜] [DecidableEq 𝕜] [Field ρ] [LinearOrder ρ]
  [FloorRing ρ] {S : Scalars 𝕜 ρ} {P : Type} {setup : Setup S.arithmetic P} {n : ℕ}
  {M : Matrix (Fin n) (Fin n) 𝕜} {b : Fin n → 𝕜}

/-- The residual function of a linear system. -/
def Residual.ofSystem (M : Matrix (Fin n) (Fin n) 𝕜) (b : Fin n → 𝕜) :
    Tensor S.arithmetic → P → Attempt S.arithmetic (Tensor S.arithmetic) :=
  ofMap fun u => M *ᵥ u - b

namespace Session

variable {s s' : Session S.arithmetic P}

/-- A correction after a full step on a linear system, without a replaced denominator, is a step of
the method on it. -/
theorem Correction.linearStep {δ : 𝕜} (h : Correction n 1 δ false s s')
    (hs : s.Consistent (Residual.ofSystem M b)) (hs' : s'.Consistent (Residual.ofSystem M b)) :
    Secant.LinearStep M (s.work.inverse.matrix n) (s'.work.inverse.matrix n)
      (s.work.residual.vector n) (s'.work.residual.vector n) := by
  have hr := Residual.vector_of_ofMap hs h.size
  have hr' := Residual.vector_of_ofMap hs' ((congrArg Shape.size h.shape).trans h.size)
  have hmoved := h.moved
  have hchange := h.vector_change Residual.conforms_ofMap hs hs'
  obtain ⟨hδ, hne⟩ := h.divides.unguarded rfl
  have hinverse := h.inverse.matrix
  rw [hδ] at hinverse
  rw [hchange] at hne hinverse
  refine ⟨?_, hne, hinverse⟩
  rw [map_one, one_smul] at hmoved
  rw [hr', hmoved, mulVec_add, add_sub_right_comm, ← hr, Workspace.descent, mulVec_neg,
    ← sub_eq_add_neg]

/-- A session on a linear system that goes on, with full steps and a bound of every component. -/
structure OnSystem (M : Matrix (Fin n) (Fin n) 𝕜) (b : Fin n → 𝕜) (setup : Setup S.arithmetic P)
    (s : Session S.arithmetic P) : Prop where
  workable : s.Workable setup
  consistent : s.Consistent (Residual.ofSystem M b)
  going : s.stopped = false
  size : s.work.iterate.size = n
  regular : IsUnit (s.work.inverse.matrix n)
  mode : s.monitor.condition.mode = .absolute
  checked : s.monitor.tolerances.areChecked = true
  line : s.lineSearch = .fullStep

namespace OnSystem

/-- It goes steps of length one. -/
theorem striding (h : OnSystem M b setup s) : Striding (Residual.ofSystem M b) n 1 setup s where
  workable := h.workable
  consistent := h.consistent
  going := h.going
  size := h.size
  mode := h.mode
  checked := h.checked
  line := fun _ _ _ => by
    rw [h.line]
    rfl

variable [IsStrictOrderedRing ρ]

/-- A step that is not disturbed ends the session with success, or is a step of the method to a
residual that is not zero. -/
theorem of_step (h : OnSystem M b setup s) (hsetup : setup.Answers)
    (hR : setup.residual.Computes (Residual.ofSystem M b)) (hroot : S.root 0 = 0)
    (hstep : (step setup).outcome s = (.ok (), s')) (hs : s.Undisturbed) (hs' : s'.Undisturbed) :
    (s'.stopped = true ∧ s'.status = .success) ∨
      (OnSystem M b setup s' ∧ s'.work.residual.vector n ≠ 0 ∧
        Secant.LinearStep M (s.work.inverse.matrix n) (s'.work.inverse.matrix n)
          (s.work.residual.vector n) (s'.work.residual.vector n)) := by
  have hpaced := h.striding.paced hsetup hR Residual.conforms_ofMap hroot hstep
  refine or_iff_not_imp_left.mpr fun hends => ?_
  obtain ⟨hgoing, hne, δ, guarded, hcorrection⟩ :=
    hpaced.correction h.striding (hs'.1.trans hs.1.symm) hs'.2.2 hends
  obtain rfl := hcorrection.guards (hs'.2.1.trans hs.2.1.symm)
  have hnext := hpaced.striding h.striding hgoing
  refine ⟨?_, hne, hcorrection.linearStep h.consistent hpaced.consistent⟩
  exact
    { workable := hnext.workable
      consistent := hnext.consistent
      going := hgoing
      size := hnext.size
      regular := by
        rw [hcorrection.inverse.matrix]
        exact hcorrection.divides.isUnit h.regular
      mode := hnext.mode
      checked := hnext.checked
      line := (congrArg Settings.lineSearch hpaced.settings).trans h.line }

end OnSystem

/-! ## Runs -/

/-- The first steps of a session on a linear system are steps of the method to residuals that are
not zero. -/
structure Iterates (M : Matrix (Fin n) (Fin n) 𝕜) (b : Fin n → 𝕜) (setup : Setup S.arithmetic P)
    (s : Session S.arithmetic P) (k : ℕ) : Prop where
  on : ∀ i ≤ k, OnSystem M b setup (attempts setup s i)
  answers : ∀ i < k, ((step setup).outcome (attempts setup s i)).1 = .ok ()
  linear : ∀ i < k, Secant.LinearStep M ((attempts setup s i).work.inverse.matrix n)
    ((attempts setup s (i + 1)).work.inverse.matrix n)
    ((attempts setup s i).work.residual.vector n)
    ((attempts setup s (i + 1)).work.residual.vector n)
  nonzero : ∀ i < k, (attempts setup s (i + 1)).work.residual.vector n ≠ 0

namespace Iterates

/-- A session on the system has made no step of the iteration yet. -/
theorem zero (h : OnSystem M b setup s) : Iterates M b setup s 0 where
  on := fun i hi => by
    obtain rfl := Nat.le_zero.mp hi
    exact h
  answers := fun i hi => absurd hi (Nat.not_lt_zero i)
  linear := fun i hi => absurd hi (Nat.not_lt_zero i)
  nonzero := fun i hi => absurd hi (Nat.not_lt_zero i)

variable {k : ℕ}

/-- There are fewer of them than twice as many as there are unknowns. -/
theorem lt (h : Iterates M b setup s k) (hn : n ≠ 0) (hM : IsUnit M) : k < 2 * n := by
  by_contra hk
  have hzero := Secant.residual_eq_zero hn hM
    (J := fun i => (attempts setup s i).work.inverse.matrix n)
    (r := fun i => (attempts setup s i).work.residual.vector n)
    (fun i hi => h.linear i (by omega)) (h.on (2 * n - 1) (by omega)).regular
  have hnonzero := h.nonzero (2 * n - 1) (by omega)
  rw [show 2 * n - 1 + 1 = 2 * n by omega] at hnonzero
  exact hnonzero hzero

variable [IsStrictOrderedRing ρ]

/-- The next step, if it is not disturbed, ends the session with success or is one more of them. -/
theorem next (h : Iterates M b setup s k) (hsetup : setup.Answers)
    (hR : setup.residual.Computes (Residual.ofSystem M b)) (hroot : S.root 0 = 0)
    (hk : (attempts setup s k).Undisturbed) (hk' : (attempts setup s (k + 1)).Undisturbed) :
    ((step setup).outcome (attempts setup s k)).1 = .ok () ∧
      (((attempts setup s (k + 1)).stopped = true ∧ (attempts setup s (k + 1)).status = .success) ∨
        Iterates M b setup s (k + 1)) := by
  have hon := h.on k (Nat.le_refl k)
  obtain ⟨s', hstep⟩ := hon.striding.exists_step hsetup
  have hs' : attempts setup s (k + 1) = s' := congrArg Prod.snd hstep
  refine ⟨congrArg Prod.fst hstep, ?_⟩
  rw [← hs'] at hstep
  refine (hon.of_step hsetup hR hroot hstep hk hk').imp_right fun ⟨hon', hnonzero, hlinear⟩ => ?_
  have hextend {p : ℕ → Prop} {l : ℕ} (hp : ∀ i < l, p i) (hl : p l) : ∀ i < l + 1, p i := by
    intro i hi
    rcases Nat.lt_succ_iff_lt_or_eq.mp hi with hi | rfl
    · exact hp i hi
    · exact hl
  exact
    { on := fun i hi => hextend (fun i hi => h.on i (Nat.lt_succ_iff.mp hi)) hon' i
        (Nat.lt_succ_of_le hi)
      answers := hextend h.answers (congrArg Prod.fst hstep)
      linear := hextend h.linear hlinear
      nonzero := hextend h.nonzero hnonzero }

/-- So if the steps are not disturbed, one of them ends the session with success. -/
theorem exists_ended (hs : OnSystem M b setup s) (hn : n ≠ 0) (hM : IsUnit M)
    (hsetup : setup.Answers) (hR : setup.residual.Computes (Residual.ofSystem M b))
    (hroot : S.root 0 = 0) (hcalm : ∀ k ≤ 2 * n, (attempts setup s k).Undisturbed) :
    ∃ k < 2 * n, Iterates M b setup s k ∧
      ((step setup).outcome (attempts setup s k)).1 = .ok () ∧
      (attempts setup s (k + 1)).stopped = true ∧
      (attempts setup s (k + 1)).status = .success := by
  by_contra hnone
  have hall (k : ℕ) (hk : k ≤ 2 * n) : Iterates M b setup s k := by
    induction k with
    | zero => exact zero hs
    | succ k ih =>
      have hk' := ih (by omega)
      obtain ⟨hanswers, hended | hnext⟩ :=
        hk'.next hsetup hR hroot (hcalm k (by omega)) (hcalm (k + 1) hk)
      · exact absurd ⟨k, by omega, hk', hanswers, hended⟩ hnone
      · exact hnext
  exact absurd ((hall (2 * n) (Nat.le_refl _)).lt hn hM) (Nat.lt_irrefl _)

end Iterates

/-! ## Solves -/

/-- A solve of a linear system with full steps, a bound of every component and a budget of steps,
whose settings are accepted. -/
structure SolvesSystem (M : Matrix (Fin n) (Fin n) 𝕜) (b : Fin n → 𝕜)
    (setup : Setup S.arithmetic P) (request : Request S.arithmetic P) (m : ℤ) : Prop where
  residual : setup.residual.Computes (Residual.ofSystem M b)
  norm : ∀ t, t.size ≠ 0 → ∃ x, setup.norm t = .ok x
  verbosity : ∃ q, setup.verbosity = .number q
  line : LineSearch.ofChoice setup.options.lineSearch = .ok .fullStep
  check : ∃ c, ResetCheck.forKind (A := S.arithmetic) () setup.options.resetTolerance = .ok c
  size : request.origin.point.size = n
  condition : ∃ κ, Condition.ofChoice request.condition = .ok κ ∧ κ.mode = .absolute
  tolerances : ∃ t, Tolerances.make (A := S.arithmetic) () request.absolute request.relative = .ok t
  budget : ∃ q, request.budget = .number q ∧ q.integer? = some m

/-- What solves the system solves for its residual map, with full steps. -/
theorem SolvesSystem.solvesMap {request : Request S.arithmetic P} {m : ℤ}
    (h : SolvesSystem M b setup request m) :
    SolvesMap (fun u => M *ᵥ u - b) .fullStep setup request m where
  residual := h.residual
  norm := h.norm
  verbosity := h.verbosity
  line := h.line
  check := h.check
  size := h.size
  condition := h.condition
  tolerances := h.tolerances
  budget := h.budget

/-- It starts on the system. -/
theorem SolvesSystem.exists_start {request : Request S.arithmetic P} {m : ℤ}
    (h : SolvesSystem M b setup request m) (hn : n ≠ 0) (hm : 1 ≤ m) :
    ∃ s calls, start setup request = (.ok s, calls) ∧ OnSystem M b setup s ∧
      s.budget.integer? = some m := by
  obtain ⟨s, calls, hstart, hs, hline, hinverse, -, hbudget⟩ :=
    h.solvesMap.exists_start (α := 1) hn hm fun _ _ _ => rfl
  refine ⟨s, calls, hstart, ?_, hbudget⟩
  exact
    { workable := hs.workable
      consistent := hs.consistent
      going := hs.going
      size := hs.size
      regular := hinverse ▸ isUnit_one
      mode := hs.mode
      checked := hs.checked
      line := hline }

/-- Over exact scalars a solve of a regular linear system with full steps and a bound of every
component, within a budget of at least twice as many steps as there are unknowns, reports success
after at most that many, if no step up to there runs into the reset check or has its denominator
replaced. -/
theorem linear_solve_ends [IsStrictOrderedRing ρ] (hroot : S.root 0 = 0) (hn : n ≠ 0)
    (hM : IsUnit M) {request : Request S.arithmetic P} {m : ℤ}
    (h : SolvesSystem M b setup request m) (hm : 2 * n ≤ m)
    (hcalm : ∀ s calls, start setup request = (.ok s, calls) →
      ∀ k ≤ 2 * n, (attempts setup s k).Undisturbed) :
    ∃ r, (solve setup request).1 = .ok r ∧ r.status = .success ∧ r.steps ≤ 2 * n := by
  obtain ⟨s, calls, hstart, hs, hbudget⟩ := h.exists_start hn (by omega)
  obtain ⟨k, hk, hiterates, -, hended, hsuccess⟩ := Iterates.exists_ended hs hn hM
    h.solvesMap.answers h.residual hroot (hcalm s calls hstart)
  obtain ⟨_, hsolve, hsteps⟩ := h.solvesMap.solve_eq hstart hbudget (by omega)
    (fun i hi => (hiterates.on i hi).striding) hended
  refine ⟨_, hsolve, hsuccess, ?_⟩
  change (attempts setup s (k + 1)).statistics.steps ≤ _
  omega

end Session

namespace Affine

/-- A system of two equations, over the rational numbers. -/
def system : Setup Scalars.rational.arithmetic Int where
  residual := .returning fun _ => Residual.ofSystem !![2, 1; 1, 1] ![1, 0]
  options := .standard
  norm := .rms
  verbosity := .number (.whole 0)

/-- A start at zero with a bound of every component. -/
def systemRequest : Request Scalars.rational.arithmetic Int :=
  { startAt () [0, 0] 0 with condition := .setting (.text "abs") }

end Affine

namespace Session

open QuasiNewton.Affine

/-- The four steps on the system are not disturbed. -/
theorem system_undisturbed (s : Session Scalars.rational.arithmetic Int) (calls : ℕ)
    (h : start system systemRequest = (.ok s, calls)) :
    ∀ k ≤ 2 * 2, (attempts system s k).Undisturbed := by
  have hcalm := of_started h (fun s => ∀ k : ℕ, k < 5 → (attempts system s k).Undisturbed)
    (by decide +kernel)
  exact fun k hk => hcalm k (Nat.lt_succ_of_le hk)

/-- A system of two equations is solved within four steps. -/
theorem linear_solve_ends_affine :
    ∃ r, (solve system systemRequest).1 = .ok r ∧ r.status = .success ∧ r.steps ≤ 2 * 2 := by
  have hM : IsUnit (!![2, 1; 1, 1] : Matrix (Fin 2) (Fin 2) ℚ) := by
    rw [isUnit_iff_isUnit_det, det_fin_two_of]
    norm_num
  exact linear_solve_ends (S := Scalars.rational) (b := ![1, 0]) (by decide +kernel) (by decide) hM
    { residual := fun _ _ _ => rfl
      norm := fun _ _ => ⟨_, rfl⟩
      verbosity := ⟨_, rfl⟩
      line := rfl
      check := by decide +kernel
      size := rfl
      condition := ⟨_, rfl, rfl⟩
      tolerances := by decide +kernel
      budget := ⟨_, rfl, rfl⟩ }
    (by decide) system_undisturbed

end Session

end QuasiNewton
