import QuasiNewton.Proofs.Symmetries

/-!
# Sessions in another order

A session of a solve with its unknowns in another order, and with iterates measured from another
point, is that of the first solve in the other order. Every part of a step answers the same in both
and leaves sessions of which the same is true.
-/

namespace QuasiNewton

open QuasiNewton.Action

variable {𝕜 ρ : Type} [Field 𝕜] [StarRing 𝕜] [DecidableEq 𝕜] [Field ρ] [LinearOrder ρ]
  [FloorRing ρ] {S : Scalars 𝕜 ρ} {P : Type} {n : ℕ} {σ : Equiv.Perm (Fin n)} {c : Fin n → 𝕜}

/-! ## Functions, starts and sessions -/

/-- A function in another order: the unknowns are put back into their own order, and what the
function answers there is listed in the new one. -/
def Residual.relabel (σ : Equiv.Perm (Fin n)) (c : Fin n → 𝕜)
    (F : Tensor S.arithmetic → P → Attempt S.arithmetic (Tensor S.arithmetic))
    (v : Tensor S.arithmetic) (p : P) : Attempt S.arithmetic (Tensor S.arithmetic) :=
  (F (v.restore σ c) p).map (Tensor.relabel σ 0)

/-- A start in another order. -/
def Request.relabel (σ : Equiv.Perm (Fin n)) (c : Fin n → 𝕜) (request : Request S.arithmetic P) :
    Request S.arithmetic P :=
  { request with origin := { request.origin with point := request.origin.point.relabel σ c } }

/-- A session in another order. -/
def Session.relabel (σ : Equiv.Perm (Fin n)) (c : Fin n → 𝕜) (s : Session S.arithmetic P) :
    Session S.arithmetic P :=
  { s with
    work := s.work.relabel σ c
    monitor := s.monitor.relabel σ c
    origin := s.origin.relabel σ c }

variable {F : Tensor S.arithmetic → P → Attempt S.arithmetic (Tensor S.arithmetic)}
  {setup setup' : Setup S.arithmetic P} {f : Frame S.arithmetic}

/-- In another order a function still answers tensors of the frame of its argument. -/
theorem Residual.conforms_relabel (hF : Conforms F) : Conforms (Residual.relabel σ c F) := by
  intro v p x h
  unfold Residual.relabel at h
  cases hx : F (v.restore σ c) p with
  | error e =>
    rw [hx] at h
    cases h
  | ok y =>
    rw [hx] at h
    obtain rfl := Except.ok.inj h
    exact (Tensor.frame_relabel.trans (hF _ _ _ hx)).trans rfl

/-- At an iterate in the new order it answers what the function answers, in the new order. -/
theorem Residual.relabel_apply {u : Tensor S.arithmetic} (hn : u.size = n) (p : P) :
    Residual.relabel σ c F (u.relabel σ c) p = (F u p).map (Tensor.relabel σ 0) := by
  rw [Residual.relabel, Tensor.restore_relabel hn]

/-- Two setups with the standard norm and the same options, the second one for the function in
another order. -/
structure Setup.Mirrors (σ : Equiv.Perm (Fin n)) (c : Fin n → 𝕜)
    (F : Tensor S.arithmetic → P → Attempt S.arithmetic (Tensor S.arithmetic))
    (setup setup' : Setup S.arithmetic P) : Prop where
  computes : setup.residual.Computes F
  computes' : setup'.residual.Computes (Residual.relabel σ c F)
  conforms : Residual.Conforms F
  engine : setup'.engine = setup.engine
  options : setup'.options = setup.options
  norm : setup.norm = Norm.rms
  norm' : setup'.norm = Norm.rms
  verbosity : setup'.verbosity = setup.verbosity

namespace Session

/-- A regular session with checked tolerances and without a line search of the caller, and the same
session in another order; a criterion that looks at the iterate allows for no shift. -/
structure Mirrored (σ : Equiv.Perm (Fin n)) (c : Fin n → 𝕜) (f : Frame S.arithmetic)
    (s t : Session S.arithmetic P) : Prop where
  same : t = s.relabel σ c
  size : f.shape.size = n
  work : s.work.Regular f
  best : s.monitor.bestIterate.frame = f
  checked : s.monitor.tolerances.areChecked = true
  shift : s.monitor.condition.mode.isRelative = true → c = 0
  rule : ∀ g, s.lineSearch ≠ .search g

/-- From mirrored sessions two actions answer the same and leave mirrored sessions. -/
abbrev Mirror (σ : Equiv.Perm (Fin n)) (c : Fin n → 𝕜) (f : Frame S.arithmetic) {α : Type}
    (x y : Action S.arithmetic P α) (s t : Session S.arithmetic P) : Prop :=
  Agree (fun _ => Mirrored σ c f) (Mirrored σ c f) x y s t

variable {s t : Session S.arithmetic P}

/-! ### Parts of a step -/

/-- A line is reported in either order. -/
theorem report_mirror (hs : Mirrored σ c f s t) (line : Line ρ) :
    Mirror σ c f (report line) (report line) s t :=
  .of_modify { hs with same := by rw [hs.same]; rfl }

/-- A count is raised in either order. -/
theorem count_mirror (hs : Mirrored σ c f s t) (field : Statistics.Field) :
    Mirror σ c f (count field) (count field) s t :=
  .of_modify { hs with same := by rw [hs.same]; rfl }

/-- Whether lines are wanted does not depend on the order. -/
theorem speaks_mirror (hw : setup.Mirrors σ c F setup') (hs : Mirrored σ c f s t) (level : Int) :
    Mirror σ c f (speaks setup level) (speaks setup' level) s t := by
  unfold speaks
  refine .seq (.of_attempt ?_ (fun _ _ => hs) hs) fun q s' t' hs' => .of_pure rfl hs'
  rw [hw.verbosity]

/-- An event is logged in either order. -/
theorem log_mirror (hw : setup.Mirrors σ c F setup') (hs : Mirrored σ c f s t) (what : Event ρ) :
    Mirror σ c f (log setup what) (log setup' what) s t := by
  unfold log
  refine .seq (speaks_mirror hw hs 2) fun b s₁ t₁ h₁ => ?_
  cases b with
  | false => exact .of_pure rfl h₁
  | true =>
    refine .get_seq ?_
    rw [h₁.same]
    exact report_mirror (h₁.same ▸ h₁) _

/-- The caller's array is settled in either order. -/
theorem settleOrigin_mirror (hw : setup.Mirrors σ c F setup') (hs : Mirrored σ c f s t) :
    Mirror σ c f (settleOrigin setup) (settleOrigin setup') s t := by
  obtain rfl := hs.same
  unfold settleOrigin
  refine .of_modify ?_
  rw [hw.engine]
  cases setup.engine with
  | inPlace =>
    by_cases hshared : s.shared = true
    · have hshared' : (s.relabel σ c).shared = true := hshared
      simp only [hshared, hshared', if_true]
      exact { hs with same := rfl }
    · have hshared' : (s.relabel σ c).shared ≠ true := hshared
      simp only [hshared, hshared']
      exact hs
  | rebuilding => exact { hs with same := rfl }

/-- Corresponding changes of the arrays. -/
theorem rework_mirror (hs : Mirrored σ c f s t)
    {x y : Workspace S.arithmetic → Attempt S.arithmetic (Workspace S.arithmetic)}
    {w : Workspace S.arithmetic} (hx : x s.work = .ok w) (hregular : w.Regular f)
    (hy : y (s.work.relabel σ c) = .ok (w.relabel σ c)) :
    Mirror σ c f (rework x) (rework y) s t := by
  obtain rfl := hs.same
  have hxw : (rework x : Action S.arithmetic P Unit).outcome s =
      (.ok (), { s with work := w }) := by
    rw [outcome_rework, hx]
  have hyw : (rework y : Action S.arithmetic P Unit).outcome (s.relabel σ c) =
      (.ok (), { s.relabel σ c with work := w.relabel σ c }) := by
    have hwork : y (s.relabel σ c).work = .ok (w.relabel σ c) := hy
    rw [outcome_rework, hwork]
  exact .of_outcome hxw hyw { hs with same := rfl, work := hregular }

/-- A move that commutes with the new order. -/
theorem move_mirror (hs : Mirrored σ c f s t)
    {move : Engine → Workspace S.arithmetic → Attempt S.arithmetic (Workspace S.arithmetic)}
    (huniform : Workspace.Uniform move)
    (hmove : ∀ e, move e (s.work.relabel σ c) = (move e s.work).map (Workspace.relabel σ c)) :
    Mirror σ c f (rework (move setup.engine)) (rework (move setup'.engine)) s t := by
  obtain ⟨w, hmoved, hregular, -⟩ := huniform f s.work hs.work
  refine rework_mirror hs (hmoved _) hregular ?_
  rw [hmove, hmoved]
  rfl

/-- A step length that the caller does not choose is the same in either order. -/
theorem stepLength_mirror (hs : Mirrored σ c f s t) :
    Mirror σ c f stepLength stepLength s t := by
  obtain rfl := hs.same
  have hrule : (s.relabel σ c).lineSearch.length (s.relabel σ c).searches
      (s.relabel σ c).work.iterate (s.relabel σ c).work.direction =
        s.lineSearch.length s.searches s.work.iterate s.work.direction := by
    change s.lineSearch.length s.searches _ _ = _
    cases hline : s.lineSearch with
    | fullStep => rfl
    | fixed length => rfl
    | search g => exact absurd hline (hs.rule g)
  have hnext (k : ℕ) : Mirrored σ c f { s with searches := k }
      { s.relabel σ c with searches := k } := { hs with same := rfl }
  unfold Mirror Agree
  rw [outcome_stepLength, outcome_stepLength, hrule]
  cases (s.lineSearch.length s.searches s.work.iterate s.work.direction).1 with
  | error e => exact ⟨rfl, hnext _⟩
  | ok length => exact ⟨rfl, hnext _⟩

/-- The first session gets a residual, and the second one the same residual in the other order. -/
theorem evaluate_mirror (hw : setup.Mirrors σ c F setup') (hs : Mirrored σ c f s t)
    {array array' : Tensor S.arithmetic} (ha : array.frame = f) (ha' : array'.frame = f)
    {x y : Tensor S.arithmetic → Action S.arithmetic P Unit}
    (hxy : ∀ v s' t', v.frame = f → Mirrored σ c f s' t' →
      Mirror σ c f (x v) (y (v.relabel σ 0)) s' t') :
    Mirror σ c f (evaluate setup array >>= x) (evaluate setup' array' >>= y) s t := by
  obtain rfl := hs.same
  have hn : s.work.iterate.size = n := (Tensor.size_of_frame hs.work.iterate).trans hs.size
  have hx : (evaluate setup array).outcome s = _ := outcome_evaluate_of_computes hw.computes
    hw.conforms fun _ => ha.trans hs.work.iterate.symm
  have hy : (evaluate setup' array').outcome (s.relabel σ c) = _ :=
    outcome_evaluate_of_computes hw.computes' (Residual.conforms_relabel hw.conforms)
      fun _ => ha'.trans hs.work.iterate.symm
  have hvalue : Residual.relabel σ c F (s.relabel σ c).work.iterate (s.relabel σ c).parameter =
      (F s.work.iterate s.parameter).map (Tensor.relabel σ 0) := Residual.relabel_apply hn _
  have hnext : Mirrored σ c f { s with evaluations := s.evaluations + 1 }
      { s.relabel σ c with evaluations := (s.relabel σ c).evaluations + 1 } :=
    { hs with same := rfl }
  unfold Mirror Agree
  rw [outcome_bind, outcome_bind, hx, hy, hvalue]
  cases hv : F s.work.iterate s.parameter with
  | error e => exact ⟨rfl, hnext⟩
  | ok v => exact hxy v _ _ ((hw.conforms _ _ _ hv).trans hs.work.iterate) hnext

/-- The trial residual is evaluated in either order. -/
theorem evaluateTrial_mirror (hw : setup.Mirrors σ c F setup') (hs : Mirrored σ c f s t) :
    Mirror σ c f (evaluateTrial setup) (evaluateTrial setup') s t := by
  obtain rfl := hs.same
  have htrial : (s.relabel σ c).work.trial.frame = f := hs.work.trial
  unfold evaluateTrial
  refine .get_seq (evaluate_mirror hw hs hs.work.trial htrial fun v s₁ t₁ hv h₁ => ?_)
  obtain rfl := h₁.same
  have h₂ : Mirrored σ c f { s₁ with work := { s₁.work with trial := v } }
      { s₁.relabel σ c with
        work := { (s₁.relabel σ c).work with trial := v.relabel σ 0 } } :=
    { h₁ with same := rfl, work := { h₁.work with trial := hv } }
  exact .modify_seq (count_mirror h₂ _)

/-- The first half of a step is mirrored. -/
theorem probe_mirror (hw : setup.Mirrors σ c F setup') (hs : Mirrored σ c f s t) :
    Mirror σ c f (probe setup) (probe setup') s t := by
  unfold probe
  refine .seq (move_mirror hs (Workspace.uniform_aim S.isWorking)
    (Workspace.aim_relabel hs.work hs.size)) fun _ s₁ t₁ h₁ => ?_
  refine .seq (stepLength_mirror h₁) fun length s₂ t₂ h₂ => ?_
  refine .seq (move_mirror h₂ (Workspace.uniform_advance length)
    fun e => Workspace.advance_relabel h₂.work h₂.size e length) fun _ s₃ t₃ h₃ => ?_
  exact .seq (settleOrigin_mirror hw h₃) fun _ s₄ t₄ h₄ => evaluateTrial_mirror hw h₄

/-- The monitor answers the same in either order. -/
theorem consult_mirror (hw : setup.Mirrors σ c F setup') (hs : Mirrored σ c f s t) :
    Mirror σ c f (consult setup) (consult setup') s t := by
  obtain rfl := hs.same
  have hn : s.work.trial.size = n := (Tensor.size_of_frame hs.work.trial).trans hs.size
  have hshape := Tensor.shape_congr (hs.work.trial.trans hs.work.iterate.symm)
  have hcheck : (s.relabel σ c).monitor.check setup'.norm (s.relabel σ c).work.trial
      (s.relabel σ c).work.iterate =
        ((s.monitor.check setup.norm s.work.trial s.work.iterate).1,
          (s.monitor.check setup.norm s.work.trial s.work.iterate).2.relabel σ c) := by
    rw [hw.norm, hw.norm']
    exact Monitor.check_relabel hs.shift hs.checked hshape hn
  obtain ⟨hcondition, htolerances⟩ :=
    s.monitor.check_configuration setup.norm s.work.trial s.work.iterate
  have hbest :
      (s.monitor.check setup.norm s.work.trial s.work.iterate).2.bestIterate.frame = f := by
    rcases s.monitor.bestIterate_check setup.norm s.work.trial s.work.iterate with h | h
    · rw [h, hs.best]
    · rw [h, hs.work.iterate]
  have hnext : Mirrored σ c f
      { s with monitor := (s.monitor.check setup.norm s.work.trial s.work.iterate).2 }
      { s.relabel σ c with
        monitor := (s.monitor.check setup.norm s.work.trial s.work.iterate).2.relabel σ c } :=
    { hs with
      same := rfl
      best := hbest
      checked := htolerances ▸ hs.checked
      shift := hcondition ▸ hs.shift }
  unfold Mirror Agree
  rw [outcome_consult, outcome_consult, hcheck]
  cases (s.monitor.check setup.norm s.work.trial s.work.iterate).1 with
  | error e => exact ⟨rfl, hnext⟩
  | ok stop => exact ⟨rfl, hnext⟩

/-! ### Stops -/

/-- A move to a point is mirrored by a move to the point in the other order. -/
theorem moveTo_mirror (hw : setup.Mirrors σ c F setup') (hs : Mirrored σ c f s t)
    {point : Tensor S.arithmetic} (hp : point.frame = f) :
    Mirror σ c f (moveTo setup point) (moveTo setup' (point.relabel σ c)) s t := by
  have hmove : Mirror σ c f (rework (Workspace.moveTo setup.engine point))
      (rework (Workspace.moveTo setup'.engine (point.relabel σ c))) s t := by
    refine rework_mirror hs (hs.work.moveTo hp _)
      { hs.work with iterate := hp, previous := hp } ?_
    rw [Workspace.moveTo_relabel hs.work hp, hs.work.moveTo hp]
    rfl
  unfold moveTo
  refine .seq hmove fun _ s₁ t₁ h₁ => ?_
  refine .seq (settleOrigin_mirror hw h₁) fun _ s₂ t₂ h₂ => ?_
  obtain rfl := h₂.same
  have hresidual : (s₂.relabel σ c).work.residual.frame = f := h₂.work.residual
  refine .get_seq (evaluate_mirror hw h₂ h₂.work.residual hresidual fun v s₃ t₃ hv h₃ => ?_)
  obtain rfl := h₃.same
  exact .of_modify { h₃ with same := rfl, work := { h₃.work with residual := hv } }

/-- The return to the best iterate is mirrored. -/
theorem restoreBest_mirror (hw : setup.Mirrors σ c F setup') (hs : Mirrored σ c f s t) :
    Mirror σ c f (restoreBest setup) (restoreBest setup') s t := by
  unfold restoreBest
  refine .get_seq ?_
  have hbest : t.monitor.bestIterate = s.monitor.bestIterate.relabel σ c := by
    rw [hs.same]
    rfl
  rw [hbest]
  refine .seq (moveTo_mirror hw hs hs.best) fun _ s₁ t₁ h₁ => ?_
  refine .seq (count_mirror h₁ _) fun _ s₂ t₂ h₂ => .get_seq ?_
  have hsame : (t₂.status, t₂.monitor.best) = (s₂.status, s₂.monitor.best) := by
    rw [h₂.same]
    rfl
  obtain ⟨hstatus, hnorm⟩ := Prod.mk.inj hsame
  rw [hstatus, hnorm]
  exact log_mirror hw h₂ _

/-- The end of a session is mirrored. -/
theorem conclude_mirror (hw : setup.Mirrors σ c F setup') (hs : Mirrored σ c f s t) :
    Mirror σ c f (conclude setup) (conclude setup') s t := by
  obtain rfl := hs.same
  unfold conclude
  have h₁ : Mirrored σ c f { s with status := s.monitor.status, stopped := true }
      { s.relabel σ c with status := (s.relabel σ c).monitor.status, stopped := true } :=
    { hs with same := rfl }
  refine .modify_seq (.seq (move_mirror h₁ Workspace.uniform_commit
    (Workspace.commit_relabel h₁.work)) fun _ s₂ t₂ h₂ => .get_seq ?_)
  have hstatus : t₂.status = s₂.status := by
    rw [h₂.same]
    rfl
  rw [hstatus]
  split
  · exact restoreBest_mirror hw h₂
  · exact .of_pure rfl h₂

/-! ### Going on -/

/-- A reset is mirrored, and so is the stop in its place. -/
theorem resetOrStop_mirror (hw : setup.Mirrors σ c F setup') (hs : Mirrored σ c f s t) :
    Mirror σ c f (resetOrStop setup) (resetOrStop setup') s t := by
  obtain rfl := hs.same
  unfold resetOrStop
  rw [hw.options]
  refine .get_seq ?_
  have hresets : (s.relabel σ c).resets = s.resets := rfl
  rw [hresets]
  split
  · have h₁ : Mirrored σ c f { s with status := .resetsExhausted, stopped := true }
        { s.relabel σ c with status := .resetsExhausted, stopped := true } :=
      { hs with same := rfl }
    exact .modify_seq (log_mirror hw h₁ _)
  · refine .seq (move_mirror hs Workspace.uniform_reset
      (Workspace.reset_relabel hs.work hs.size)) fun _ s₁ t₁ h₁ => ?_
    obtain rfl := h₁.same
    have h₂ : Mirrored σ c f { s₁ with resets := s₁.resets + 1 }
        { s₁.relabel σ c with resets := (s₁.relabel σ c).resets + 1 } := { h₁ with same := rfl }
    exact .modify_seq (.get_seq (log_mirror hw h₂ _))

/-- A correction is mirrored. -/
theorem correct_mirror (hw : setup.Mirrors σ c F setup') (hs : Mirrored σ c f s t) :
    Mirror σ c f (correct setup) (correct setup') s t := by
  obtain rfl := hs.same
  have hcorr : Attempt.Corresponds
      (fun x y => x.1.Regular f ∧ y = Prod.map (Workspace.relabel σ c) id x)
      (s.work.correct setup.engine) ((s.relabel σ c).work.correct setup'.engine) := by
    have hcorrect : (s.relabel σ c).work.correct setup'.engine = _ :=
      Workspace.correct_relabel hs.work hs.size setup'.engine
    rw [hcorrect, hw.engine]
    cases hx : s.work.correct setup.engine with
    | error e => rfl
    | ok x => exact ⟨(hs.work.of_correct hx).1, rfl⟩
  unfold correct
  refine .get_seq (.attempt_seq hcorr hs fun x y _ _ hxy => ?_)
  obtain ⟨w, guarded⟩ := x
  obtain ⟨hregular, rfl⟩ := hxy
  have h₁ : Mirrored σ c f { s with work := w }
      { s.relabel σ c with work := w.relabel σ c } := { hs with same := rfl, work := hregular }
  refine .modify_seq ?_
  cases guarded with
  | true => exact .seq (count_mirror h₁ _) fun _ s₂ t₂ h₂ => log_mirror hw h₂ _
  | false => exact .of_pure rfl h₁

/-- The second half of a step that goes on is mirrored. -/
theorem refine_mirror (hw : setup.Mirrors σ c F setup') (hs : Mirrored σ c f s t) :
    Mirror σ c f (refine setup) (refine setup') s t := by
  unfold refine
  refine .seq (move_mirror hs Workspace.uniform_compare
    (Workspace.compare_relabel hs.work hs.size)) fun _ s₁ t₁ h₁ => ?_
  refine .seq (move_mirror h₁ Workspace.uniform_commit
    (Workspace.commit_relabel h₁.work)) fun _ s₂ t₂ h₂ => .get_seq ?_
  obtain rfl := h₂.same
  have hd : s₂.work.direction.size = n :=
    (Tensor.size_of_frame h₂.work.direction).trans h₂.size
  have hy : s₂.work.change.size = n := (Tensor.size_of_frame h₂.work.change).trans h₂.size
  have hsmall : (s₂.relabel σ c).resetCheck.anyNegligible (s₂.relabel σ c).work.direction
      (s₂.relabel σ c).work.change =
        s₂.resetCheck.anyNegligible s₂.work.direction s₂.work.change :=
    s₂.resetCheck.anyNegligible_relabel hd hy
  rw [hsmall]
  refine .seq (.of_attempt rfl (fun _ _ => h₂) h₂) fun b s₃ t₃ h₃ => ?_
  split
  · exact resetOrStop_mirror hw h₃
  · exact correct_mirror hw h₃

/-! ### Steps -/

/-- A whole step is mirrored. -/
theorem step_mirror (hw : setup.Mirrors σ c F setup') (hs : Mirrored σ c f s t) :
    Mirror σ c f (step setup) (step setup') s t := by
  have hstopped : t.stopped = s.stopped := by
    rw [hs.same]
    rfl
  unfold step
  refine .get_seq ?_
  rw [hstopped]
  split
  · exact .of_pure rfl hs
  · unfold advance
    refine .seq (count_mirror hs _) fun _ s₁ t₁ h₁ => ?_
    refine .seq (probe_mirror hw h₁) fun _ s₂ t₂ h₂ => ?_
    refine .seq (consult_mirror hw h₂) fun stop s₃ t₃ h₃ => ?_
    split
    · exact conclude_mirror hw h₃
    · exact refine_mirror hw h₃

end Session

end QuasiNewton
