import QuasiNewton.Proofs.Attempts
import QuasiNewton.Proofs.Maps
import QuasiNewton.Proofs.Mirrors
import QuasiNewton.Proofs.Solves

/-!
# Solves in another order

A solve with its unknowns in another order, with iterates measured from another point, starts, runs
and reports as the first solve does, in the other order: the steps, evaluations, resets and replaced
denominators counted, the norms, the outcome, the faults and the lines are the same.
-/

namespace QuasiNewton

/-- A rule that an option chose is no function of the caller. -/
theorem LineSearch.ne_search_of_setting {A : Arithmetic} {value : Setting A.Real}
    {rule : LineSearch A} (h : ofChoice (.setting value) = .ok rule) (g : SearchFunction A) :
    rule ≠ .search g := by
  unfold ofChoice at h
  split at h
  case h_1 => contradiction
  case h_2 =>
    obtain rfl := Except.ok.inj h
    exact nofun
  case h_3 => cases h
  case h_4 =>
    obtain ⟨length, -, h⟩ := Attempt.bind_eq_ok.mp h
    split at h
    · obtain rfl := Except.ok.inj h
      exact nofun
    · cases h
  case h_5 => cases h

/-- A report with its iterate and its residual changed. -/
def Report.onArrays {A : Arithmetic} (point value : Tensor A → Tensor A) (r : Report A) :
    Report A :=
  { r with iterate := point r.iterate, residual := value r.residual }

namespace Session

open QuasiNewton.Action

variable {𝕜 ρ : Type} [Field 𝕜] [StarRing 𝕜] [DecidableEq 𝕜] [Field ρ] [LinearOrder ρ]
  [FloorRing ρ] {S : Scalars 𝕜 ρ} {P : Type} {n : ℕ} {σ : Equiv.Perm (Fin n)} {c : Fin n → 𝕜}
  {F : Tensor S.arithmetic → P → Attempt S.arithmetic (Tensor S.arithmetic)}
  {setup setup' : Setup S.arithmetic P} {f : Frame S.arithmetic} {s t : Session S.arithmetic P}

/-! ## Runs -/

/-- The lines about the start of a run are the same in either order. -/
theorem announce_mirror (hw : setup.Mirrors σ c F setup') (hs : Mirrored σ c f s t) :
    Mirror σ c f (announce setup) (announce setup') s t := by
  unfold announce
  rw [hw.options]
  refine .seq (speaks_mirror hw hs 1) fun b s₁ t₁ h₁ => ?_
  split
  · refine .get_seq ?_
    obtain rfl := h₁.same
    refine .seq (.of_attempt rfl (fun _ _ => h₁) h₁) fun a s₂ t₂ h₂ => ?_
    refine .seq (.of_attempt rfl (fun _ _ => h₂) h₂) fun r s₃ t₃ h₃ => ?_
    exact report_mirror h₃ _
  · exact .of_pure rfl h₁

/-- The norm of the residual is the same. -/
theorem Mirrored.norm_eq (hw : setup.Mirrors σ c F setup') (hs : Mirrored σ c f s t) :
    setup'.norm t.work.residual = setup.norm s.work.residual := by
  have hn : s.work.residual.size = n := (Tensor.size_of_frame hs.work.residual).trans hs.size
  rw [hw.norm, hw.norm', hs.same]
  exact Norm.rms_relabel hn

/-- So are the lines about its progress. -/
theorem progress_mirror (hw : setup.Mirrors σ c F setup') (hs : Mirrored σ c f s t) :
    Mirror σ c f (progress setup) (progress setup') s t := by
  unfold progress
  refine .seq (speaks_mirror hw hs 1) fun b s₁ t₁ h₁ => ?_
  split
  · refine .get_seq ?_
    rw [h₁.norm_eq hw]
    obtain rfl := h₁.same
    have hsteps : (s₁.relabel σ c).statistics = s₁.statistics := rfl
    rw [hsteps]
    split
    · refine .seq (.of_attempt rfl (fun _ _ => h₁) h₁) fun norm s₂ t₂ h₂ => ?_
      exact report_mirror h₂ _
    · exact .of_pure rfl h₁
  · exact .of_pure rfl h₁

/-- The loop of a run is mirrored. -/
theorem iterate_mirror (hw : setup.Mirrors σ c F setup') (hs : Mirrored σ c f s t) (fuel : ℕ) :
    Mirror σ c f (iterate setup fuel) (iterate setup' fuel) s t := by
  induction fuel generalizing s t with
  | zero => exact .of_pure rfl hs
  | succ fuel ih =>
    have hcontinue : t.mayContinue = s.mayContinue := by
      rw [hs.same]
      rfl
    unfold iterate
    refine .get_seq ?_
    rw [hcontinue]
    split
    · refine .seq (step_mirror hw hs) fun _ s₁ t₁ h₁ => ?_
      exact .seq (progress_mirror hw h₁) fun _ s₂ t₂ h₂ => ih h₂
    · exact .of_pure rfl hs

/-- The end of a budget is mirrored. -/
theorem exhaust_mirror (hs : Mirrored σ c f s t) : Mirror σ c f exhaust exhaust s t := by
  obtain rfl := hs.same
  refine .of_modify ?_
  have hstopped : (s.relabel σ c).stopped = s.stopped := rfl
  rw [hstopped]
  split
  · exact hs
  · exact { hs with same := rfl }

/-- The second action reports what the first one does, in the other order. -/
def Reflects (σ : Equiv.Perm (Fin n)) (c : Fin n → 𝕜)
    (x y : Action S.arithmetic P (Report S.arithmetic)) (s t : Session S.arithmetic P) : Prop :=
  y.outcome t = ((x.outcome s).1.map (·.onArrays (Tensor.relabel σ c) (Tensor.relabel σ 0)),
    (x.outcome s).2.relabel σ c)

/-- What depends on the session reflects if it does for the two sessions. -/
theorem Reflects.get_seq
    {x y : Session S.arithmetic P → Action S.arithmetic P (Report S.arithmetic)}
    (h : Reflects σ c (x s) (y t) s t) : Reflects σ c (get >>= x) (get >>= y) s t := h

/-- The end of a run reflects: the report in the other order is that of the session there. -/
theorem close_reflects (hw : setup.Mirrors σ c F setup') (hs : Mirrored σ c f s t) :
    Reflects σ c (close setup) (close setup') s t := by
  have hnorm := hs.norm_eq hw
  obtain ⟨x, hx⟩ : ∃ x, setup.norm s.work.residual = .ok x := by
    rw [hw.norm]
    exact ⟨_, rfl⟩
  rw [hx] at hnorm
  obtain rfl := hs.same
  unfold Reflects close speaks
  simp only [outcome_bind, outcome_get, outcome_attempt, hnorm, hx, hw.verbosity]
  cases setup.verbosity.quantity with
  | error e => rfl
  | ok q =>
    simp only [outcome_pure]
    split <;> rfl

/-- What goes on from mirrored sessions reports alike if it begins alike. -/
theorem reflects_of_mirror {x y : Action S.arithmetic P Unit}
    {x' y' : Unit → Action S.arithmetic P (Report S.arithmetic)} (hxy : Mirror σ c f x y s t)
    (h : ∀ s' t', Mirrored σ c f s' t' → Reflects σ c (x' ()) (y' ()) s' t') :
    Reflects σ c (x >>= x') (y >>= y') s t := by
  unfold Mirror Agree at hxy
  unfold Reflects
  rw [outcome_bind, outcome_bind]
  generalize x.outcome s = o at hxy ⊢
  generalize y.outcome t = o' at hxy ⊢
  obtain ⟨e | ⟨⟩, s'⟩ := o <;> obtain ⟨e' | ⟨⟩, t'⟩ := o'
  · obtain ⟨rfl, h'⟩ := hxy
    exact Prod.ext rfl h'.same
  · exact hxy.elim
  · exact hxy.elim
  · exact h s' t' hxy.2

/-- So a whole run reflects. -/
theorem run_reflects (hw : setup.Mirrors σ c F setup') (hs : Mirrored σ c f s t) :
    Reflects σ c (run setup) (run setup') s t := by
  unfold run
  refine reflects_of_mirror (announce_mirror hw hs) fun s₁ t₁ h₁ => ?_
  have hbudget : t₁.budget = s₁.budget := by
    rw [h₁.same]
    rfl
  refine .get_seq ?_
  rw [hbudget]
  refine reflects_of_mirror (iterate_mirror hw h₁ _) fun s₂ t₂ h₂ => ?_
  exact reflects_of_mirror (exhaust_mirror h₂) fun s₃ t₃ h₃ => close_reflects hw h₃

/-! ## Starts -/

variable {request : Request S.arithmetic P}

/-- A session is assembled in either order from a starting point that is ready. -/
theorem assemble_relabel (hw : setup.Mirrors σ c F setup') (budget : Quantity ρ)
    {u v : Tensor S.arithmetic} (shared fillable : Bool) (calls : ℕ) (hu : u.size = n)
    (hv : v.size = n) :
    assemble setup' (request.relabel σ c) budget
        ⟨u.relabel σ c, v.relabel σ 0, shared, fillable⟩ calls =
      (assemble setup request budget ⟨u, v, shared, fillable⟩ calls).map (.relabel σ c) := by
  have hmake : Monitor.make (request.relabel σ c).condition (request.relabel σ c).absolute
      (request.relabel σ c).relative Norm.rms (v.relabel σ 0) (u.relabel σ c) =
        (Monitor.make request.condition request.absolute request.relative Norm.rms v u).map
          (.relabel σ c) := Monitor.make_relabel _ _ _ hv
  have hkind : ((Workspace.allocate fillable u v).relabel σ c).inverse.kind =
      (Workspace.allocate fillable u v).inverse.kind := rfl
  unfold assemble
  dsimp only
  rw [hw.norm, hw.norm', hw.options, Workspace.allocate_relabel fillable hu hv, hmake, hkind]
  cases Monitor.make request.condition request.absolute request.relative Norm.rms v u with
  | error e => rfl
  | ok monitor =>
    cases ResetCheck.forKind (Workspace.allocate fillable u v).inverse.kind
        setup.options.resetTolerance with
    | error e => rfl
    | ok check =>
      cases LineSearch.ofChoice setup.options.lineSearch with
      | error e => rfl
      | ok rule => rfl

/-- A solve starts in the other order as in the first one. -/
theorem start_relabel (hw : setup.Mirrors σ c F setup') (hn : request.origin.point.size = n) :
    start setup' (request.relabel σ c) =
      ((start setup request).1.map (.relabel σ c), (start setup request).2) := by
  have hready := request.origin.ready_of_computes hw.computes hw.conforms request.parameter 0
  have hready' : (request.relabel σ c).origin.ready setup'.residual request.parameter 0 = _ :=
    Origin.ready_of_computes hw.computes' (Residual.conforms_relabel hw.conforms) _ _ _
  have hsize : (request.relabel σ c).origin.point.size = request.origin.point.size := rfl
  have hiterate : (request.relabel σ c).origin.iterate = request.origin.iterate.relabel σ c := by
    unfold Origin.iterate
    rw [Tensor.castTo_eq, Tensor.castTo_eq]
    rfl
  have hn' : request.origin.iterate.size = n := hn
  have hfillable : (request.relabel σ c).origin.fillable setup'.residual =
      request.origin.fillable setup.residual := by
    rw [Origin.fillable_of_isRowwise (Origin.isRowwise_of_isWorking (S.isWorking _)),
      Origin.fillable_of_isRowwise (Origin.isRowwise_of_isWorking (S.isWorking _))]
  rw [hsize, hiterate, hfillable, Residual.relabel_apply hn'] at hready'
  have hbudget : (request.relabel σ c).budget = request.budget := rfl
  have hparameter : (request.relabel σ c).parameter = request.parameter := rfl
  unfold start
  rw [hbudget, hparameter, hready, hready']
  cases checkBudget request.budget with
  | error e => rfl
  | ok budget =>
    by_cases hzero : request.origin.point.size = 0
    · rw [if_pos hzero, if_pos hzero]
      rfl
    · rw [if_neg hzero, if_neg hzero]
      cases hv : F request.origin.iterate request.parameter with
      | error e => rfl
      | ok v =>
        have hvn : v.size = n := by
          rw [Tensor.size, Tensor.shape_congr (hw.conforms _ _ _ hv)]
          exact hn'
        exact Prod.ext (assemble_relabel hw budget _ _ 1 hn' hvn) rfl

/-- What has been started is mirrored. -/
theorem mirrored_start (hw : setup.Mirrors σ c F setup') (hn : request.origin.point.size = n)
    (hline : ∃ value, setup.options.lineSearch = .setting value)
    (hshift : ∀ condition, Condition.ofChoice request.condition = .ok condition →
      condition.mode.isRelative = true → c = 0) {calls : ℕ}
    (h : start setup request = (.ok s, calls)) :
    Mirrored σ c request.origin.frame s (s.relabel σ c) := by
  obtain ⟨value, hvalue⟩ := hline
  have hregular := regular_start hw.computes hw.conforms h
  obtain ⟨v, budget, monitor, check, rule, -, -, -, hmonitor, -, hrule, rfl, -⟩ :=
    (start_eq_ok hw.computes hw.conforms).mp h
  obtain ⟨condition, tolerances, objective, hcondition, ht, -, rfl⟩ :=
    Monitor.make_eq_ok.mp hmonitor
  rw [hvalue] at hrule
  exact
    { same := rfl
      size := hn
      work := hregular.work
      best := hregular.best
      checked := Tolerances.areChecked_of_make ht
      shift := hshift condition hcondition
      rule := LineSearch.ne_search_of_setting hrule }

/-! ## Solves -/

/-- Over exact scalars, with the root mean square for a norm and full steps or steps of a fixed
length, a solve of the function in another order is the solve of the function, in the other order:
they start alike, every session on the way shows the same but for the order and the shift, every
step answers the same, and so does the solve, with the same lines and calls. Criteria that compare
the residual with the iterate allow for no shift. -/
theorem solve_equivariant (hw : setup.Mirrors σ c F setup') (hn : request.origin.point.size = n)
    (hline : ∃ value, setup.options.lineSearch = .setting value)
    (hshift : ∀ condition, Condition.ofChoice request.condition = .ok condition →
      condition.mode.isRelative = true → c = 0) :
    start setup' (request.relabel σ c) =
        ((start setup request).1.map (.relabel σ c), (start setup request).2) ∧
      (∀ s calls, start setup request = (.ok s, calls) → ∀ k,
        attempts setup' (s.relabel σ c) k = (attempts setup s k).relabel σ c ∧
          ((step setup').outcome (attempts setup' (s.relabel σ c) k)).1 =
            ((step setup).outcome (attempts setup s k)).1) ∧
      solve setup' (request.relabel σ c) =
        ((solve setup request).1.map (·.onArrays (Tensor.relabel σ c) (Tensor.relabel σ 0)),
          (solve setup request).2) := by
  have hstart := start_relabel (σ := σ) (c := c) hw hn
  refine ⟨hstart, fun s calls hs k => ?_, ?_⟩
  · have hmirrored := mirrored_start hw hn hline hshift hs
    have hattempts : Mirrored σ c request.origin.frame (attempts setup s k)
        (attempts setup' (s.relabel σ c) k) := by
      induction k with
      | zero => exact hmirrored
      | succ k ih => exact (step_mirror hw ih).after (fun _ _ _ h => h) fun _ _ h => h
    exact ⟨hattempts.same, (step_mirror hw hattempts).answer_eq.symm⟩
  · unfold solve
    rw [hstart]
    rcases hs : start setup request with ⟨e | s, calls⟩
    · rfl
    · have hrun := run_reflects hw (mirrored_start hw hn hline hshift hs)
      unfold Reflects at hrun
      dsimp only [Except.map]
      rw [hrun]
      rfl

end Session

namespace Affine

open Matrix

/-- Two equations, of which the first one has both unknowns. -/
def slant : Tensor Scalars.rational.arithmetic → Int →
    Attempt Scalars.rational.arithmetic (Tensor Scalars.rational.arithmetic) :=
  Residual.ofMap fun u : Fin 2 → ℚ => !![2, 1; 0, 1] *ᵥ u - ![1, 1]

/-- The two unknowns exchanged. -/
def exchange : Equiv.Perm (Fin 2) := Equiv.swap 0 1

/-- A point to measure iterates from. -/
def base : Fin 2 → ℚ := ![1, -1]

/-- The two equations. -/
def slanted : Setup Scalars.rational.arithmetic Int where
  residual := .returning fun _ => slant
  options := .standard
  norm := .rms
  verbosity := .number (.whole 0)

/-- A start at zero. -/
def slantedRequest : Request Scalars.rational.arithmetic Int := startAt () [0, 0] 0

/-- The two equations with the unknowns exchanged and measured from the point. -/
def exchanged : Setup Scalars.rational.arithmetic Int :=
  { slanted with residual := .returning fun _ => Residual.relabel exchange base slant }

end Affine

namespace Session

open QuasiNewton.Affine

/-- Two unknowns that are exchanged and shifted are solved with the report exchanged and shifted
back. -/
theorem solve_equivariant_affine :
    ∃ r, (solve slanted slantedRequest).1 = .ok r ∧ r.status = .success ∧
      (solve exchanged (slantedRequest.relabel exchange base)).1 =
        .ok (r.onArrays (Tensor.relabel exchange base) (Tensor.relabel exchange 0)) := by
  obtain ⟨r, hr, hsuccess⟩ := exists_solved slanted slantedRequest
    (fun r => r.status = .success) (by decide +kernel)
  have hmirrors : slanted.Mirrors exchange base slant exchanged :=
    { computes := fun _ _ _ => rfl
      computes' := fun _ _ _ => rfl
      conforms := Residual.conforms_ofMap
      engine := rfl
      options := rfl
      norm := rfl
      norm' := rfl
      verbosity := rfl }
  have hshift (condition : Condition Scalars.rational.magnitudes)
      (h : Condition.ofChoice (.setting .absent) = .ok condition)
      (hrelative : condition.mode.isRelative = true) : base = 0 := by
    obtain rfl := Except.ok.inj h
    exact nomatch hrelative
  obtain ⟨-, -, hsolve⟩ := solve_equivariant hmirrors
    (show slantedRequest.origin.point.size = 2 from rfl) ⟨.absent, rfl⟩ hshift
  refine ⟨r, hr, hsuccess, ?_⟩
  rw [hsolve, hr]
  rfl

end Session

end QuasiNewton
