import QuasiNewton.Proofs.Corrections
import QuasiNewton.Proofs.Maps
import QuasiNewton.Proofs.Trajectories

/-!
# Steps of one length

Without rounding a session that bounds every component of the residual and goes the same length at
every step ends with success as soon as a step leads to a zero of the residual function. Every other
step corrects or resets the inverse Jacobian, or uses up the budget of resets.
-/

namespace QuasiNewton

open Matrix QuasiNewton.Action

variable {𝕜 ρ : Type} [Field 𝕜] [StarRing 𝕜] [DecidableEq 𝕜] [Field ρ] [LinearOrder ρ]
  [FloorRing ρ] {S : Scalars 𝕜 ρ} {P : Type} {setup : Setup S.arithmetic P} {n : ℕ}

/-- A residual without components that are not zero meets every bound of the components. -/
theorem Mode.holds_of_vector_eq_zero (hroot : S.root 0 = 0) {norm : Norm S.arithmetic}
    {t : Tolerances S.arithmetic} (ht : t.areChecked = true) {v u : Tensor S.arithmetic}
    (hsize : v.size = n) (hv : v.vector n = 0) : Mode.absolute.holds norm t v u = .ok true := by
  obtain ⟨a, _, ha, -, rfl⟩ := Tolerances.nonneg_of_areChecked ht
  refine (Tensor.allWithin_real v a).mpr fun i hi => ?_
  have hentry : v.entry i = 0 := congrFun hv ⟨i, hi.trans_eq hsize⟩
  rw [hentry, S.normSq_zero, hroot]
  exact ha

namespace Session

variable {F : Tensor S.arithmetic → P → Attempt S.arithmetic (Tensor S.arithmetic)} {α : ρ}
  {s s' : Session S.arithmetic P}

/-- A session that goes on with steps of one length, under a bound of every component. -/
structure Striding (F : Tensor S.arithmetic → P → Attempt S.arithmetic (Tensor S.arithmetic))
    (n : ℕ) (α : ρ) (setup : Setup S.arithmetic P) (s : Session S.arithmetic P) : Prop where
  workable : s.Workable setup
  consistent : s.Consistent F
  going : s.stopped = false
  size : s.work.iterate.size = n
  mode : s.monitor.condition.mode = .absolute
  checked : s.monitor.tolerances.areChecked = true
  line : ∀ k u d, (s.lineSearch.length k u d).1 = .ok α

/-- What such a step does: it goes its length, and ends the session with success unless the residual
there is not zero. Then the session goes on, if it has resets left. -/
structure Paced (F : Tensor S.arithmetic → P → Attempt S.arithmetic (Tensor S.arithmetic))
    (n : ℕ) (α : ρ) (setup : Setup S.arithmetic P) (s s' : Session S.arithmetic P) : Prop where
  stepped : Stepped setup s s'
  settings : s'.settings = s.settings
  workable : s'.Workable setup
  consistent : s'.Consistent F
  shape : s'.work.iterate.shape = s.work.iterate.shape
  moved : s'.work.iterate.vector n = s.work.iterate.vector n + S.ofReal α • s.work.descent n
  ends : (s'.stopped = true ∧ s'.status = .success) ∨
    (s'.work.residual.vector n ≠ 0 ∧ (s'.stopped = true → s'.status = .resetsExhausted))

namespace Striding

/-- The inverse Jacobian is a square matrix. -/
theorem inverse (h : Striding F n α setup s) : s.work.inverse.shape = [n, n] := by
  rw [← h.size]
  exact h.workable.arrays.inverse

/-- Its steps answer. -/
theorem exists_step (h : Striding F n α setup s) (hsetup : setup.Answers) :
    ∃ s', (step setup).outcome s = (.ok (), s') := by
  obtain ⟨_, s', hadvance⟩ := answers_advance_of_check S.joinsSigned
    (hsetup.residual.like _) hsetup.verbosity h.workable (fun k u d => ⟨α, h.line k u d⟩)
    (Quantity.inRange_scalars _) (fun x _ hshape hsize => by
      obtain ⟨a, a', -, -, ht⟩ := Tolerances.nonneg_of_areChecked h.checked
      have hrange : s.monitor.tolerances.InRange := by
        rw [ht]
        exact ⟨⟨_, rfl, Quantity.inRange_scalars _⟩, _, rfl, Quantity.inRange_scalars _⟩
      obtain ⟨stop, hstop⟩ := s.monitor.condition.mode.exists_holds hsetup.norm hrange hshape hsize
      exact ⟨stop, (check_of_unwatched (by rw [h.mode]; rfl)).mpr hstop⟩)
  exact ⟨s', (outcome_step_of_not_stopped setup h.going).trans hadvance⟩

/-- The monitor answers whether the criterion holds. -/
theorem holds_of_check (h : Striding F n α setup s) {v u : Tensor S.arithmetic} {stop : Bool}
    {m : Monitor S.arithmetic} (hcheck : s.monitor.check setup.norm v u = (.ok stop, m)) :
    Mode.absolute.holds setup.norm s.monitor.tolerances v u = .ok stop := by
  rw [← h.mode]
  exact (check_of_unwatched (by rw [h.mode]; rfl)).mp (congrArg Prod.fst hcheck)

/-- They go to the point of their probe, and end the session with success unless the residual there
is not zero. -/
theorem exists_probe (h : Striding F n α setup s) (hF : Residual.Conforms F) (hroot : S.root 0 = 0)
    (hstepped : Stepped setup s s') (hconsistent : s'.Consistent F) :
    ∃ x : Probe S.arithmetic, x.Valid setup s ∧ s'.work.iterate = x.iterate ∧
      ((s'.stopped = true ∧ s'.status = .success) ∨
        (s'.work.residual.vector n ≠ 0 ∧ (s'.stopped = true → s'.status = .resetsExhausted))) := by
  cases hstepped with
  | @concluded x m _ hx hcheck hend =>
    have hstatus : m.status = .success := by
      rcases Monitor.check_eq_ok hcheck with ⟨-, -, rfl⟩ | ⟨hfails, -⟩
      · rfl
      · rw [h.mode] at hfails
        cases hfails.symm.trans (h.holds_of_check hcheck)
    cases hend with
    | stayed => exact ⟨x, hx, rfl, .inl ⟨rfl, hstatus⟩⟩
    | restored hback =>
      change m.status.fallsBack = true at hback
      rw [hstatus] at hback
      cases hback
  | @refined x m _ hx hcheck hrest =>
    have hresidual : s'.work.residual = x.residual := by cases hrest <;> rfl
    have hiterate : s'.work.iterate = x.iterate := hrest.kept.iterate
    refine ⟨x, hx, hiterate, .inr ⟨fun hzero => ?_, fun hstopped => ?_⟩⟩
    · -- a residual of zero would have met the criterion
      obtain ⟨-, hsize, -, hshape, -⟩ := hx.vectors h.inverse
      have hvsize : s'.work.residual.size = n := by
        have hframe := Tensor.shape_congr (hF _ _ _ hconsistent)
        exact (congrArg Shape.size (hframe.trans ((congrArg Tensor.shape hiterate).trans
          hshape))).trans hsize
      rw [hresidual] at hzero hvsize
      cases (h.holds_of_check hcheck).symm.trans
        (Mode.holds_of_vector_eq_zero hroot h.checked hvsize hzero)
    · cases hrest with
      | exhausted => rfl
      | reset => cases hstopped.symm.trans h.going
      | corrected => cases hstopped.symm.trans h.going

/-- A step that answers is paced: it ends where the criterion holds, or goes on with a correction or
a reset. -/
theorem paced (h : Striding F n α setup s) (hsetup : setup.Answers)
    (hR : setup.residual.Computes F) (hF : Residual.Conforms F) (hroot : S.root 0 = 0)
    (hstep : (step setup).outcome s = (.ok (), s')) : Paced F n α setup s s' := by
  have hadvance : (advance setup).outcome s = (.ok (), s') :=
    (outcome_step_of_not_stopped setup h.going).symm.trans hstep
  have hstepped := of_advance h.workable.arrays.ordered hadvance
  have hconsistent := hstepped.consistent hR hF
  obtain ⟨x, hx, hiterate, hends⟩ := h.exists_probe hF hroot hstepped hconsistent
  have hlength : x.length = α :=
    Except.ok.inj ((congrArg Prod.fst hx.length).symm.trans (h.line _ _ _))
  obtain ⟨-, -, -, hshape, hmoved⟩ := hx.vectors h.inverse
  rw [← hiterate] at hshape hmoved
  rw [hlength] at hmoved
  exact
    { stepped := hstepped
      settings := by rw [← settings_step setup s, hstep]
      workable := h.workable.of_advance S.joinsSigned (hsetup.residual.like _) hadvance
      consistent := hconsistent
      shape := hshape
      moved := hmoved
      ends := hends }

end Striding

namespace Paced

/-- A session that goes on after such a step goes on in the same way. -/
theorem striding (h : Paced F n α setup s s') (hs : Striding F n α setup s)
    (hgoing : s'.stopped = false) : Striding F n α setup s' where
  workable := h.workable
  consistent := h.consistent
  going := hgoing
  size := (congrArg Shape.size h.shape).trans hs.size
  mode := (congrArg (·.condition.mode) h.settings).trans hs.mode
  checked := by
    rw [show s'.monitor.tolerances = s.monitor.tolerances from
      congrArg Settings.monitored h.settings]
    exact hs.checked
  line := by
    rw [show s'.lineSearch = s.lineSearch from congrArg Settings.lineSearch h.settings]
    exact hs.line

/-- A step to a zero ends the session with success. -/
theorem ended (h : Paced F n α setup s s') (hzero : s'.work.residual.vector n = 0) :
    s'.stopped = true ∧ s'.status = .success :=
  h.ends.resolve_right fun hends => hends.1 hzero

/-- One that does not end with success, nor resets, is a correction to a residual that is not zero.
-/
theorem correction (h : Paced F n α setup s s') (hs : Striding F n α setup s)
    (hresets : s'.resets = s.resets) (hstatus : s'.status ≠ .resetsExhausted)
    (hends : ¬(s'.stopped = true ∧ s'.status = .success)) :
    s'.stopped = false ∧ s'.work.residual.vector n ≠ 0 ∧
      ∃ δ guarded, Correction n α δ guarded s s' := by
  obtain ⟨hne, hexhausted⟩ := h.ends.resolve_left hends
  have hgoing : s'.stopped = false := Bool.eq_false_iff.mpr fun hstopped =>
    hstatus (hexhausted hstopped)
  obtain ⟨α', δ, guarded, hcorrection⟩ := h.stepped.correction hs.inverse hgoing hresets
  obtain rfl : α' = α := by
    obtain ⟨d, searches, -, -, hlength⟩ := hcorrection.length
    exact Except.ok.inj ((congrArg Prod.fst hlength).symm.trans (hs.line _ _ _))
  exact ⟨hgoing, hne, δ, guarded, hcorrection⟩

end Paced

/-! ## Solves -/

/-- A solve for a zero of a map of vectors, with a rule for step lengths, a bound of every component
and a budget of steps, whose settings are accepted. -/
structure SolvesMap (f : (Fin n → 𝕜) → Fin n → 𝕜) (rule : LineSearch S.arithmetic)
    (setup : Setup S.arithmetic P) (request : Request S.arithmetic P) (m : ℤ) : Prop where
  residual : setup.residual.Computes (Residual.ofMap f)
  norm : ∀ t, t.size ≠ 0 → ∃ x, setup.norm t = .ok x
  verbosity : ∃ q, setup.verbosity = .number q
  line : LineSearch.ofChoice setup.options.lineSearch = .ok rule
  check : ∃ c, ResetCheck.forKind (A := S.arithmetic) () setup.options.resetTolerance = .ok c
  size : request.origin.point.size = n
  condition : ∃ κ, Condition.ofChoice request.condition = .ok κ ∧ κ.mode = .absolute
  tolerances : ∃ t, Tolerances.make (A := S.arithmetic) () request.absolute request.relative = .ok t
  budget : ∃ q, request.budget = .number q ∧ q.integer? = some m

namespace SolvesMap

variable {f : (Fin n → 𝕜) → Fin n → 𝕜} {rule : LineSearch S.arithmetic}
  {request : Request S.arithmetic P} {m : ℤ}

/-- What solves for a map answers. -/
theorem answers (h : SolvesMap f rule setup request m) : setup.Answers :=
  ⟨h.residual.answers_ofMap, h.norm, h.verbosity⟩

/-- It starts at its point with the identity for an inverse Jacobian. -/
theorem exists_start (h : SolvesMap f rule setup request m) (hn : n ≠ 0) (hm : 1 ≤ m)
    (hrule : ∀ k u d, (rule.length k u d).1 = .ok α) :
    ∃ s calls, start setup request = (.ok s, calls) ∧ Striding (Residual.ofMap f) n α setup s ∧
      s.lineSearch = rule ∧ s.work.inverse.matrix n = 1 ∧
      s.work.iterate.shape = request.origin.point.shape ∧ s.budget.integer? = some m := by
  have hF : Residual.Conforms (Residual.ofMap (S := S) (P := P) f) := Residual.conforms_ofMap
  obtain ⟨κ, hκ, hmode⟩ := h.condition
  obtain ⟨t, ht⟩ := h.tolerances
  obtain ⟨check, hcheck⟩ := h.check
  obtain ⟨q, hq, hm'⟩ := h.budget
  have hsize : request.origin.iterate.size = n := h.size
  obtain ⟨v, hv⟩ : ∃ v, Residual.ofMap f request.origin.iterate request.parameter = .ok v :=
    ⟨_, rfl⟩
  obtain ⟨x, hx⟩ := h.norm v (by
    rw [Tensor.size, Tensor.shape_congr (hF _ _ _ hv)]
    exact fun hzero => hn (hsize.symm.trans hzero))
  have hbudget : checkBudget request.budget = .ok q := by
    rw [hq, checkBudget_of_integer? hm', if_neg (by omega)]
  have hstart : start setup request = (.ok _, 1) := (start_eq_ok h.residual hF).mpr
    ⟨v, q, _, check, rule, hbudget, fun hzero => hn (h.size.symm.trans hzero), hv,
      Monitor.make_eq_ok.mpr ⟨κ, t, x, hκ, ht, hx, rfl⟩, hcheck, h.line, rfl, rfl⟩
  have hinverse := Tensor.isMatrix_identity (S := S) request.origin.iterate.size
  refine ⟨_, 1, hstart, ?_, rfl, ?_, rfl, hm'⟩
  · exact
      { workable := workable_start S.joinsSigned hstart
        consistent := hv
        going := rfl
        size := hsize
        mode := hmode
        checked := Tolerances.areChecked_of_make ht
        line := hrule }
  · subst hsize
    exact hinverse.matrix

/-- It reports from the first of its sessions that has ended, and counts the steps up to there. -/
theorem solve_eq (h : SolvesMap f rule setup request m) {s : Session S.arithmetic P} {calls k : ℕ}
    (hstart : start setup request = (.ok s, calls)) (hbudget : s.budget.integer? = some m)
    (hk : ((k + 1 : ℕ) : ℤ) ≤ m)
    (hs : ∀ i ≤ k, Striding (Residual.ofMap f) n α setup (attempts setup s i))
    (hended : (attempts setup s (k + 1)).stopped = true) :
    ∃ norm, (solve setup request).1 = .ok ((attempts setup s (k + 1)).summary norm) ∧
      (attempts setup s (k + 1)).statistics.steps = (k + 1 : ℕ) := by
  have hanswers (i : ℕ) (hi : i < k + 1) :
      ((step setup).outcome (attempts setup s i)).1 = .ok () := by
    obtain ⟨s', hstep⟩ := (hs i (Nat.lt_succ_iff.mp hi)).exists_step h.answers
    exact congrArg Prod.fst hstep
  have hworkable (i : ℕ) (hi : i ≤ k + 1) : (attempts setup s i).Workable setup := by
    rcases Nat.le_succ_iff.mp hi with hi | rfl
    · exact (hs i hi).workable
    · refine (hs k (Nat.le_refl k)).workable.of_advance S.joinsSigned
        (h.answers.residual.like _) ?_
      rw [← outcome_step_of_not_stopped setup (hs k (Nat.le_refl k)).going]
      exact Prod.ext (hanswers k (Nat.lt_succ_self k)) rfl
  obtain ⟨v, hverbosity⟩ := h.verbosity
  obtain ⟨norm, hsolve⟩ := solve_of_steps hstart hbudget hk hverbosity
    (fun i hi => (hworkable i hi).exists_norm h.answers) (outcome_steps_of_attempts hanswers)
    (.inl hended)
  rw [spent_of_stopped hended] at hsolve
  have hcount : (attempts setup s (k + 1)).statistics.steps = s.statistics.steps + (k + 1 : ℕ) :=
    congrArg Prod.snd (settingsAndSteps_attempts fun i hi => (hs i (Nat.lt_succ_iff.mp hi)).going)
  rw [(cleared_start hstart).1.statistics] at hcount
  exact ⟨norm, hsolve, hcount.trans (Int.zero_add _)⟩

end SolvesMap

end Session

end QuasiNewton
