import QuasiNewton.Proofs.Stable

/-!
# What a step can do

`Stepped` lists what a step of a session in order can do when it answers: stop where it went, stop
and return to the best iterate, use up the budget of resets, reset the inverse Jacobian, or correct
it. The lines it reports and the caller's array are left open. How the arrays are kept shows in two
places only: a direction that takes no row stays as it was, and a rank-one update in place may leave
something else of the sum.
-/

namespace QuasiNewton

open QuasiNewton.Action

variable {A : Arithmetic} {P : Type} {F : Tensor A → P → Attempt A (Tensor A)} {setup : Setup A P}
  {s s' : Session A P}

namespace Session

/-! ## Evaluations and moves -/

/-- A report of an event changes the transcript only. -/
theorem outcome_log (setup : Setup A P) (what : Event A.Real) (s : Session A P) :
    ∃ transcript, ((log setup what).outcome s).2 = { s with transcript } :=
  ⟨_, eq_of_mute (keeps_log setup what s)⟩

/-- To settle the caller's array changes nothing else. -/
theorem outcome_settleOrigin_bind {β : Type} (setup : Setup A P) (next : Unit → Action A P β)
    (s : Session A P) : ∃ origin shared, (settleOrigin setup >>= next).outcome s =
      (next ()).outcome { s with origin, shared } := by
  obtain ⟨origin, shared, h⟩ := outcome_settleOrigin setup s
  refine ⟨origin, shared, ?_⟩
  rw [outcome_bind, h]

/-- An evaluation that answers is one call of the residual function. -/
theorem of_evaluate {array v : Tensor A} (h : (evaluate setup array).outcome s = (.ok v, s')) :
    (setup.residual.evaluate s.evaluations array s.work.iterate s.parameter).1 = .ok v ∧
      s' = { s with evaluations := s.evaluations + 1 } := by
  rw [outcome_evaluate, Residual.evaluate_snd] at h
  exact ⟨(Prod.mk.inj h).1, (Prod.mk.inj h).2.symm⟩

/-- A move goes to a point, or as near as the arrays can hold it, and evaluates there. -/
theorem of_moveTo (hs : s.Ordered setup) {point : Tensor A}
    (h : (moveTo setup point).outcome s = (.ok (), s')) :
    ∃ u v origin shared, Workspace.Landing setup.engine s.work point u ∧
      (setup.residual.evaluate s.evaluations s.work.residual u s.parameter).1 = .ok v ∧
      s' = { s with
        work := { s.work with iterate := u, previous := u, residual := v }
        evaluations := s.evaluations + 1
        origin
        shared } := by
  obtain ⟨w, hw, h⟩ := outcome_rework_bind_eq_ok.mp h
  obtain ⟨u, hu, rfl⟩ := Workspace.Ordered.of_moveTo hs hw
  obtain ⟨origin, shared, hsettle⟩ := outcome_settleOrigin_bind setup _ _
  rw [hsettle, outcome_get_bind] at h
  obtain ⟨v, s₁, hevaluate, h⟩ := outcome_bind_eq_ok.mp h
  obtain ⟨hv, rfl⟩ := of_evaluate hevaluate
  cases h
  exact ⟨u, v, origin, shared, hu, hv, rfl⟩

/-! ## The first half of a step -/

/-- Where a step went: along which direction, how far, to which point, and the residual there. -/
structure Probe (A : Arithmetic) where
  direction : Tensor A
  length : A.Real
  iterate : Tensor A
  residual : Tensor A
  searches : Nat
  origin : Tensor A
  shared : Bool

/-- A session that has gone there and counted the step and the evaluation. -/
def probed (s : Session A P) (x : Probe A) : Session A P :=
  { s with
    work := { s.work with
      direction := x.direction
      previous := s.work.iterate
      iterate := x.iterate
      trial := x.residual }
    statistics := (s.statistics.bump .steps 1).bump .evaluations 1
    evaluations := s.evaluations + 1
    searches := x.searches
    origin := x.origin
    shared := x.shared }

/-- A probe that a step of a session makes. -/
structure Probe.Valid (setup : Setup A P) (s : Session A P) (x : Probe A) : Prop where
  made : (count .steps >>= fun _ => probe setup).outcome s = (.ok (), s.probed x)
  aim : ∃ v d, s.work.inverse.matMul s.work.residual.flatten = .ok v ∧
    v.reshape s.work.iterate.shape = .ok d ∧ x.direction = s.work.turned setup.engine d
  length : s.lineSearch.length s.searches s.work.iterate x.direction = (.ok x.length, x.searches)
  advance : s.work.iterate.sub (x.direction.scale x.length) = .ok x.iterate
  residual : (setup.residual.evaluate s.evaluations s.work.trial x.iterate s.parameter).1 =
    .ok x.residual
  ordered : (s.probed x).Ordered setup

/-- A residual that a function computes from the iterate alone is the one there. -/
theorem Probe.Valid.computed {x : Probe A} (hx : x.Valid setup s)
    (hR : setup.residual.Computes F) (hF : Residual.Conforms F) :
    F x.iterate s.parameter = .ok x.residual := by
  rw [← hx.residual]
  refine (evaluate_of_computes hR hF (fun he => ?_) _ _).symm
  obtain ⟨f, hf⟩ := hx.ordered he
  have hframe := Residual.frame_evaluate (Setup.writes_of_inPlace he) hx.residual
  exact hframe.symm.trans (hf.trial.trans hf.iterate.symm)

/-- If every kind is a working kind, the direction is the product of the inverse Jacobian and the
residual. -/
theorem Probe.Valid.direction {x : Probe A} (hx : x.Valid setup s) (hA : ∀ k, A.IsWorking k) :
    ∃ v, s.work.inverse.matMul s.work.residual.flatten = .ok v ∧
      v.reshape s.work.iterate.shape = .ok x.direction := by
  obtain ⟨v, d, hv, hd, hdirection⟩ := hx.aim
  have hturned : s.work.turned setup.engine d = d := by
    cases he : setup.engine with
    | inPlace =>
      obtain ⟨f, hf⟩ := hx.ordered he
      have hfillable : s.work.fillable = true := hf.fillable hA
      exact Workspace.turned_of_fillable hfillable _ d
    | rebuilding => rfl
  exact ⟨v, hv, (hdirection.trans hturned).symm ▸ hd⟩

/-- What a probe of a session in order does. -/
theorem of_probe (hs : s.Ordered setup)
    (h : (count .steps >>= fun _ => probe setup).outcome s = (.ok (), s')) :
    ∃ x : Probe A, x.Valid setup s ∧ s' = s.probed x := by
  have hI := Workspace.stable_ordered setup
  have hmade := h
  rw [show (count .steps >>= fun _ => probe setup).outcome s =
    (probe setup).outcome { s with statistics := s.statistics.bump .steps 1 } from rfl] at h
  obtain ⟨w, hw, h⟩ := outcome_rework_bind_eq_ok.mp h
  have h₁ := hI.aim hs hw
  obtain ⟨product, d, hproduct, hd, rfl⟩ := Workspace.Ordered.of_aim hs hw
  obtain ⟨length, s₁, hsearch, h⟩ := outcome_bind_eq_ok.mp h
  rw [outcome_stepLength] at hsearch
  obtain ⟨hlength, rfl⟩ := Prod.mk.inj hsearch
  obtain ⟨w, hw, h⟩ := outcome_rework_bind_eq_ok.mp h
  have h₂ := hI.advance h₁ hw
  obtain ⟨u, hu, rfl⟩ := h₁.of_advance hw
  obtain ⟨origin, shared, hsettle⟩ := outcome_settleOrigin_bind setup _ _
  rw [hsettle, evaluateTrial, outcome_get_bind] at h
  dsimp only at h hlength
  obtain ⟨v, s₂, hevaluate, h⟩ := outcome_bind_eq_ok.mp h
  obtain ⟨hv, rfl⟩ := of_evaluate hevaluate
  cases h
  refine ⟨⟨s.work.turned setup.engine d, length, u, v, _, origin, shared⟩, ?_, rfl⟩
  exact
    { made := hmade
      aim := ⟨product, d, hproduct, hd, rfl⟩
      length := Prod.ext hlength rfl
      advance := hu
      residual := hv
      ordered := hI.trial h₂ hv }

/-! ## The second half of a step -/

/-- What the end of a session does: it stays where it is, or returns to the best iterate. -/
inductive Concluded (setup : Setup A P) (s : Session A P) : Session A P → Prop
  | stayed (hback : s.monitor.status.fallsBack = false) :
    Concluded setup s { s with
      work := { s.work with residual := s.work.trial }
      status := s.monitor.status
      stopped := true }
  | restored {u v : Tensor A} {transcript : List (Line A.Real)} {origin : Tensor A} {shared : Bool}
    (hback : s.monitor.status.fallsBack = true)
    (hu : Workspace.Landing setup.engine s.work s.monitor.bestIterate u)
    (hv : (setup.residual.evaluate s.evaluations s.work.trial u s.parameter).1 = .ok v) :
    Concluded setup s { s with
      work := { s.work with iterate := u, previous := u, residual := v }
      status := s.monitor.status
      stopped := true
      statistics := s.statistics.bump .evaluations 1
      evaluations := s.evaluations + 1
      transcript
      origin
      shared }

/-- The end of a session in order is one of the two. -/
theorem of_conclude (hs : s.Ordered setup) (h : (conclude setup).outcome s = (.ok (), s')) :
    Concluded setup s s' := by
  unfold conclude at h
  rw [outcome_modify_bind] at h
  obtain ⟨w, hw, h⟩ := outcome_rework_bind_eq_ok.mp h
  have h₁ := (Workspace.stable_ordered setup).commit hs hw
  obtain rfl := Except.ok.inj ((Workspace.Ordered.commit hs).symm.trans hw)
  rw [outcome_get_bind] at h
  dsimp only at h
  cases hback : s.monitor.status.fallsBack with
  | false =>
    rw [hback] at h
    cases h
    exact .stayed hback
  | true =>
    rw [hback, if_pos rfl, restoreBest, outcome_get_bind] at h
    obtain ⟨_, s₂, hmove, h⟩ := outcome_bind_eq_ok.mp h
    obtain ⟨u, v, origin, shared, hu, hv, rfl⟩ := of_moveTo (by exact h₁) hmove
    dsimp only at h hv
    obtain ⟨transcript, hlog⟩ := outcome_log setup (.restored s.monitor.status s.monitor.best)
      { s with
        work := { s.work with iterate := u, previous := u, residual := v }
        status := s.monitor.status
        stopped := true
        statistics := s.statistics.bump .evaluations 1
        evaluations := s.evaluations + 1
        origin
        shared }
    obtain rfl := (congrArg Prod.snd h).symm.trans hlog
    exact .restored hback ⟨hu.kind, hu.frame, hu.shape, hu.exact⟩ hv

/-- A session that has taken the residual at the point reached for the residual, and knows its
change. -/
def committed (s : Session A P) (change : Tensor A) : Session A P :=
  { s with work := { s.work with residual := s.work.trial, change } }

/-- What a step that goes on does: it gives up, or resets or corrects the inverse Jacobian. -/
inductive Refined (setup : Setup A P) (s : Session A P) : Session A P → Prop
  | exhausted {y : Tensor A} {transcript : List (Line A.Real)}
    (hy : s.work.trial.sub s.work.residual = .ok y)
    (hsmall : s.resetCheck.anyNegligible s.work.direction y = .ok true)
    (hbudget : setup.options.resetBudget.isReachedBy (M := A.toMagnitudes) s.resets = true) :
    Refined setup s { s.committed y with
      status := .resetsExhausted
      stopped := true
      transcript }
  | reset {y : Tensor A} {transcript : List (Line A.Real)}
    (hy : s.work.trial.sub s.work.residual = .ok y)
    (hsmall : s.resetCheck.anyNegligible s.work.direction y = .ok true)
    (hbudget : setup.options.resetBudget.isReachedBy (M := A.toMagnitudes) s.resets = false) :
    Refined setup s { s.committed y with
      work := { (s.committed y).work with
        inverse := Secant.initial s.work.iterate s.work.trial }
      resets := s.resets + 1
      transcript }
  | corrected {y d inverse : Tensor A} {u : Secant.Update A} {transcript : List (Line A.Real)}
    (hy : s.work.trial.sub s.work.residual = .ok y)
    (hsmall : s.resetCheck.anyNegligible s.work.direction y = .ok false)
    (hu : Secant.update s.work.inverse s.work.direction.flatten y.flatten = .ok u)
    (hinverse : u.inverse.Accumulates inverse)
    (hd : u.column.reshape s.work.iterate.shape = .ok d) :
    Refined setup s { s.committed y with
      work := { (s.committed y).work with
        inverse
        direction := s.work.turned setup.engine d
        row := u.row
        product := u.product }
      statistics := if u.guarded then s.statistics.bump .guards 1 else s.statistics
      transcript }

/-- What going on leaves alone. -/
structure Refined.Kept (s s' : Session A P) : Prop where
  parameter : s'.parameter = s.parameter
  monitor : s'.monitor = s.monitor
  iterate : s'.work.iterate = s.work.iterate
  previous : s'.work.previous = s.work.previous
  steps : s'.statistics.steps = s.statistics.steps
  evaluations : s'.statistics.evaluations = s.statistics.evaluations
  calls : s'.evaluations = s.evaluations
  status : s'.stopped = false → s'.status = s.status

/-- A step that goes on leaves these alone. -/
theorem Refined.kept (h : Refined setup s s') : Refined.Kept s s' := by
  cases h with
  | exhausted => exact ⟨rfl, rfl, rfl, rfl, rfl, rfl, rfl, nofun⟩
  | reset => exact ⟨rfl, rfl, rfl, rfl, rfl, rfl, rfl, fun _ => rfl⟩
  | @corrected y d inverse u =>
    cases hguarded : u.guarded with
    | true => exact ⟨rfl, rfl, rfl, rfl, rfl, rfl, rfl, fun _ => rfl⟩
    | false => exact ⟨rfl, rfl, rfl, rfl, rfl, rfl, rfl, fun _ => rfl⟩

/-- What a step that goes on does in a session in order is one of the three. -/
theorem of_refine (hs : s.Ordered setup) (h : (refine setup).outcome s = (.ok (), s')) :
    Refined setup s s' := by
  have hI := Workspace.stable_ordered setup
  obtain ⟨w, hw, h⟩ := outcome_rework_bind_eq_ok.mp h
  have h₁ := hI.compare hs hw
  obtain ⟨y, hy, rfl⟩ := Workspace.Ordered.of_compare hs hw
  obtain ⟨w, hw, h⟩ := outcome_rework_bind_eq_ok.mp h
  have h₂ := hI.commit h₁ hw
  obtain rfl := Except.ok.inj (h₁.commit.symm.trans hw)
  rw [outcome_get_bind] at h
  obtain ⟨small, hsmall, h⟩ := outcome_attempt_bind_eq_ok.mp h
  change (if small = true then resetOrStop setup else correct setup).outcome
    (s.committed y) = _ at h
  cases small with
  | true =>
    rw [if_pos rfl, resetOrStop, outcome_get_bind] at h
    cases hbudget :
      setup.options.resetBudget.isReachedBy (M := A.toMagnitudes) (s.committed y).resets with
    | true =>
      rw [if_pos hbudget, outcome_modify_bind] at h
      obtain ⟨transcript, hlog⟩ := outcome_log setup (.exhausted setup.options.resetBudget)
        { s.committed y with status := .resetsExhausted, stopped := true }
      obtain rfl := (congrArg Prod.snd h).symm.trans hlog
      exact .exhausted hy hsmall hbudget
    | false =>
      rw [if_neg (Bool.eq_false_iff.mp hbudget)] at h
      obtain ⟨w, hw, h⟩ := outcome_rework_bind_eq_ok.mp h
      obtain rfl := Except.ok.inj (h₂.reset.symm.trans hw)
      rw [outcome_modify_bind, outcome_get_bind] at h
      dsimp only at h
      obtain ⟨transcript, hlog⟩ := outcome_log setup _ _
      obtain rfl := (congrArg Prod.snd h).symm.trans hlog
      exact .reset hy hsmall hbudget
  | false =>
    rw [if_neg Bool.false_ne_true, correct, outcome_get_bind] at h
    obtain ⟨⟨w, guarded⟩, hw, h⟩ := outcome_attempt_bind_eq_ok.mp h
    obtain ⟨u, inverse, d, hu, hinverse, hd, hcorrect⟩ := h₂.of_correct hw
    obtain ⟨rfl, rfl⟩ := Prod.mk.inj hcorrect
    rw [outcome_modify_bind] at h
    obtain ⟨transcript, rfl⟩ : ∃ transcript, s' = { s.committed y with
        work := { (s.committed y).work with
          inverse
          direction := s.work.turned setup.engine d
          row := u.row
          product := u.product }
        statistics := if u.guarded then s.statistics.bump .guards 1 else s.statistics
        transcript } := by
      cases hguarded : u.guarded with
      | true =>
        rw [hguarded, if_pos rfl] at h
        obtain ⟨transcript, hlog⟩ := outcome_log setup .guarded _
        exact ⟨transcript, (congrArg Prod.snd h).symm.trans hlog⟩
      | false =>
        rw [hguarded, if_neg Bool.false_ne_true] at h
        exact ⟨s.transcript, (congrArg Prod.snd h).symm⟩
    exact .corrected hy hsmall hu hinverse hd

/-! ## Whole steps -/

/-- What a step of a session does when it answers. -/
inductive Stepped (setup : Setup A P) (s : Session A P) : Session A P → Prop
  | concluded {x : Probe A} {m : Monitor A} {s' : Session A P} (hx : x.Valid setup s)
    (hm : s.monitor.check setup.norm x.residual x.iterate = (.ok true, m))
    (h : Concluded setup { s.probed x with monitor := m } s') : Stepped setup s s'
  | refined {x : Probe A} {m : Monitor A} {s' : Session A P} (hx : x.Valid setup s)
    (hm : s.monitor.check setup.norm x.residual x.iterate = (.ok false, m))
    (h : Refined setup { s.probed x with monitor := m } s') : Stepped setup s s'

/-- A step of a session in order that has not ended. -/
theorem of_advance (hs : s.Ordered setup) (h : (advance setup).outcome s = (.ok (), s')) :
    Stepped setup s s' := by
  unfold advance at h
  rw [← bind_assoc] at h
  obtain ⟨_, s₁, hprobe, h⟩ := outcome_bind_eq_ok.mp h
  obtain ⟨x, hx, rfl⟩ := of_probe hs hprobe
  obtain ⟨stop, s₂, hconsult, h⟩ := outcome_bind_eq_ok.mp h
  rw [outcome_consult] at hconsult
  obtain ⟨hstop, rfl⟩ := Prod.mk.inj hconsult
  generalize hm : (s.probed x).monitor.check setup.norm (s.probed x).work.trial
    (s.probed x).work.iterate = checked at hstop h
  obtain ⟨answer, m⟩ := checked
  obtain rfl : answer = .ok stop := hstop
  cases stop with
  | true => exact .concluded hx hm (of_conclude hx.ordered h)
  | false => exact .refined hx hm (of_refine hx.ordered h)

end Session

end QuasiNewton
