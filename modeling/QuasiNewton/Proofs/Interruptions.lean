import QuasiNewton.Proofs.Affine
import QuasiNewton.Proofs.Consistency

/-!
# Steps that the residual function interrupts

A residual function may be partial. A step calls it once or twice: where the step goes, and where
the solve returns to if it ends there. `Interrupted` says what is left when one of these calls
fails. After the first one the residual belongs to the point before the step and not to the point
the step went to; after the second one it belongs to the point the step had reached.
-/

namespace QuasiNewton

open QuasiNewton.Action

variable {A : Arithmetic} {P : Type} {F : Tensor A → P → Attempt A (Tensor A)} {setup : Setup A P}
  {s s' : Session A P} {e : Fault A.Real}

/-! ## Calls that fail -/

namespace Residual

variable {R : Residual A P} {n : Nat} {a u v : Tensor A} {p : P}

/-- A call fails where the residual function does. -/
theorem Computes.eq_error (hR : R.Computes F) (h : (R.evaluate n a u p).1 = .error e) :
    F u p = .error e := by
  cases R with
  | returning f => exact (hR _ u p).symm.trans h
  | writing f =>
    have hcall : f (n + 1) a u p = F u p := hR _ a u p
    change (f (n + 1) a u p).map a.overwrite = .error e at h
    rw [hcall] at h
    cases hF : F u p with
    | error e' =>
      rw [hF] at h
      exact congrArg Except.error (Except.error.inj h)
    | ok w =>
      rw [hF] at h
      cases h

/-- Into a residual that is there the same is put once more. -/
theorem Computes.evaluate_again (hR : R.Computes F) (h : (R.evaluate n a u p).1 = .ok v) (m : Nat) :
    (R.evaluate m v u p).1 = .ok v := by
  rw [← h]
  exact hR.evaluate_same (fun hw => frame_evaluate hw h) m n u p

end Residual

namespace Session

/-- Calls of the residual function that have not been counted as answered. -/
def unanswered (s : Session A P) : Int := s.evaluations - s.statistics.evaluations

/-- A call that is answered is counted. -/
theorem unanswered_of_counted (hcalls : s'.evaluations = s.evaluations + 1)
    (hcount : s'.statistics.evaluations = s.statistics.evaluations + 1) :
    s'.unanswered = s.unanswered := by
  unfold unanswered
  omega

/-- The residual that a session stores is the one at a point. -/
def StoresAt (setup : Setup A P) (s : Session A P) (u : Tensor A) : Prop :=
  ∀ n, (setup.residual.evaluate n s.work.residual u s.parameter).1 = .ok s.work.residual

/-! ## The two halves of a step -/

/-- The first half of a step leaves a call unanswered where the residual function fails. -/
theorem of_probe_eq_error (hs : s.Ordered setup)
    (h : (count .steps >>= fun _ => probe setup).outcome s = (.error e, s')) :
    s'.unanswered = s.unanswered ∨
      ∃ direction length iterate searches origin shared,
        s.lineSearch.length s.searches s.work.iterate direction = (.ok length, searches) ∧
        s.work.iterate.sub (direction.scale length) = .ok iterate ∧
        (setup.residual.evaluate s.evaluations s.work.trial iterate s.parameter).1 = .error e ∧
        s' = { s with
          work := { s.work with direction, previous := s.work.iterate, iterate }
          statistics := s.statistics.bump .steps 1
          evaluations := s.evaluations + 1
          searches
          origin
          shared } := by
  have hI := Workspace.stable_ordered setup
  rw [show (count .steps >>= fun _ => probe setup).outcome s =
    (probe setup).outcome { s with statistics := s.statistics.bump .steps 1 } from rfl] at h
  rcases outcome_rework_bind_eq_error.mp h with ⟨-, rfl⟩ | ⟨w, hw, h⟩
  · exact .inl rfl
  have h₁ := hI.aim hs hw
  obtain ⟨product, d, -, -, rfl⟩ := Workspace.Ordered.of_aim hs hw
  rcases outcome_bind_eq_error.mp h with h | ⟨length, s₁, hsearch, h⟩
  · rw [outcome_stepLength] at h
    obtain ⟨-, rfl⟩ := Prod.mk.inj h
    exact .inl rfl
  rw [outcome_stepLength] at hsearch
  obtain ⟨hlength, rfl⟩ := Prod.mk.inj hsearch
  rcases outcome_rework_bind_eq_error.mp h with ⟨-, rfl⟩ | ⟨w, hw, h⟩
  · exact .inl rfl
  obtain ⟨u, hu, rfl⟩ := h₁.of_advance hw
  obtain ⟨origin, shared, hsettle⟩ := outcome_settleOrigin_bind setup _ _
  rw [hsettle, evaluateTrial, outcome_get_bind] at h
  dsimp only at h hlength
  rcases outcome_bind_eq_error.mp h with h | ⟨v, s₂, -, h⟩
  · rw [outcome_evaluate, Residual.evaluate_snd] at h
    obtain ⟨hv, rfl⟩ := Prod.mk.inj h
    exact .inr ⟨_, length, u, _, origin, shared, Prod.ext hlength rfl, hu, hv, rfl⟩
  · cases h

/-- The end of a session leaves a call unanswered where the residual function fails at the best
iterate. -/
theorem of_conclude_eq_error (hs : s.Ordered setup)
    (h : (conclude setup).outcome s = (.error e, s')) :
    s'.unanswered = s.unanswered ∨
      ∃ u origin shared, s.monitor.status.fallsBack = true ∧
        Workspace.Landing setup.engine s.work s.monitor.bestIterate u ∧
        (setup.residual.evaluate s.evaluations s.work.trial u s.parameter).1 = .error e ∧
        s' = { s with
          work := { s.work with iterate := u, previous := u, residual := s.work.trial }
          status := s.monitor.status
          stopped := true
          evaluations := s.evaluations + 1
          origin
          shared } := by
  unfold conclude at h
  rw [outcome_modify_bind] at h
  rcases outcome_rework_bind_eq_error.mp h with ⟨-, rfl⟩ | ⟨w, hw, h⟩
  · exact .inl rfl
  have h₁ := (Workspace.stable_ordered setup).commit hs hw
  obtain rfl := Except.ok.inj ((Workspace.Ordered.commit hs).symm.trans hw)
  rw [outcome_get_bind] at h
  dsimp only at h
  cases hback : s.monitor.status.fallsBack with
  | false =>
    rw [hback] at h
    cases h
  | true =>
    rw [hback, if_pos rfl, restoreBest, outcome_get_bind] at h
    rcases outcome_bind_eq_error.mp h with h | ⟨_, s₂, hmove, h⟩
    · rcases outcome_rework_bind_eq_error.mp h with ⟨-, rfl⟩ | ⟨w, hw, h⟩
      · exact .inl rfl
      obtain ⟨u, hu, rfl⟩ := h₁.of_moveTo hw
      obtain ⟨origin, shared, hsettle⟩ := outcome_settleOrigin_bind setup _ _
      rw [hsettle, outcome_get_bind] at h
      rcases outcome_bind_eq_error.mp h with h | ⟨v, s₃, -, h⟩
      · rw [outcome_evaluate, Residual.evaluate_snd] at h
        obtain ⟨hv, rfl⟩ := Prod.mk.inj h
        exact .inr ⟨u, origin, shared, rfl, ⟨hu.kind, hu.frame, hu.shape, hu.exact⟩, hv, rfl⟩
      · cases h
    · obtain ⟨u, v, origin, shared, -, -, rfl⟩ := of_moveTo (by exact h₁) hmove
      have hlog : (log setup (.restored s.monitor.status s.monitor.best)).Keeps unanswered :=
        (keeps_log setup _).map unanswered
      rw [outcome_bind, outcome_count] at h
      dsimp only at h
      rw [outcome_get_bind] at h
      exact .inl ((hlog.eq_of_outcome h).trans (unanswered_of_counted rfl rfl))

/-! ## Interrupted steps -/

/-- What a step leaves that the residual function interrupts. -/
inductive Interrupted (F : Tensor A → P → Attempt A (Tensor A)) (setup : Setup A P)
    (s : Session A P) (e : Fault A.Real) : Session A P → Prop
  /-- It fails where the step goes: the step is counted, and nothing is known of that point. -/
  | going {direction iterate origin : Tensor A} {length : A.Real} {searches : Nat} {shared : Bool}
    (hlength : s.lineSearch.length s.searches s.work.iterate direction = (.ok length, searches))
    (hadvance : s.work.iterate.sub (direction.scale length) = .ok iterate)
    (hfails : F iterate s.parameter = .error e) :
    Interrupted F setup s e { s with
      work := { s.work with direction, previous := s.work.iterate, iterate }
      statistics := s.statistics.bump .steps 1
      evaluations := s.evaluations + 1
      searches
      origin
      shared }
  /-- It fails where the solve returns to: the residual at the point reached is stored, and the
  solve has ended. -/
  | returning {x : Probe A} {c : Monitor A} {u origin : Tensor A} {shared : Bool}
    (hprobe : x.Valid setup s)
    (hcheck : s.monitor.check setup.norm x.residual x.iterate = (.ok true, c))
    (hback : c.status.fallsBack = true)
    (hlanding : Workspace.Landing setup.engine (s.probed x).work c.bestIterate u)
    (hfails : F u s.parameter = .error e) :
    Interrupted F setup s e { s.probed x with
      work := { (s.probed x).work with iterate := u, previous := u, residual := x.residual }
      monitor := c
      status := c.status
      stopped := true
      evaluations := s.evaluations + 2
      origin
      shared }

/-- A step that fails with a call unanswered has been interrupted by the residual function. -/
theorem of_advance_eq_error (hR : setup.residual.Computes F) (hs : s.Ordered setup)
    (h : (advance setup).outcome s = (.error e, s'))
    (hunanswered : s'.unanswered = s.unanswered + 1) : Interrupted F setup s e s' := by
  have hone {n : Int} : n ≠ n + 1 := by omega
  have hadvance : (advance setup).outcome s =
      ((count .steps >>= fun _ => probe setup) >>= fun _ => consult setup >>= fun stop =>
        if stop then conclude setup else refine setup).outcome s := by
    unfold advance
    rw [bind_assoc]
  rw [hadvance] at h
  rcases outcome_bind_eq_error.mp h with h | ⟨_, s₁, hprobe, h⟩
  · rcases of_probe_eq_error hs h with hsame | ⟨d, length, u, _, _, _, hlength, hu, hv, rfl⟩
    · exact absurd (hsame.symm.trans hunanswered) hone
    · exact .going hlength hu (hR.eq_error hv)
  obtain ⟨x, hx, rfl⟩ := of_probe hs hprobe
  have hcounted : (s.probed x).unanswered = s.unanswered := unanswered_of_counted rfl rfl
  rw [← hcounted] at hunanswered
  rcases outcome_bind_eq_error.mp h with h | ⟨stop, s₂, hconsult, h⟩
  · rw [outcome_consult] at h
    obtain ⟨-, rfl⟩ := Prod.mk.inj h
    exact absurd hunanswered hone
  rw [outcome_consult] at hconsult
  obtain ⟨hcheck, rfl⟩ := Prod.mk.inj hconsult
  cases stop with
  | true =>
    rcases of_conclude_eq_error (by exact hx.ordered) h with
      hsame | ⟨u, _, _, hback, hu, hv, rfl⟩
    · exact absurd (hsame.symm.trans hunanswered) hone
    · exact .returning hx (Prod.ext hcheck rfl) hback hu (hR.eq_error hv)
  | false =>
    have hrefine : (refine setup).Keeps unanswered :=
      (settingsAndCalls_refine setup).map fun v => v.2.2.1 - v.2.2.2
    exact absurd ((hrefine.eq_of_outcome h).symm.trans hunanswered) hone

/-- An interrupted step leaves a call unanswered. -/
theorem Interrupted.unanswered_eq (h : Interrupted F setup s e s') :
    s'.unanswered = s.unanswered + 1 := by
  cases h with
  | going hlength hadvance hfails =>
    change ((s.evaluations + 1 : Nat) : Int) - s.statistics.evaluations = s.unanswered + 1
    unfold unanswered
    omega
  | returning hprobe hcheck hback hlanding hfails =>
    change ((s.evaluations + 2 : Nat) : Int) - (s.statistics.evaluations + 1) = s.unanswered + 1
    unfold unanswered
    omega

/-- A step that fails has been interrupted by the residual function just when it leaves a call
unanswered. -/
theorem interrupted_iff (hR : setup.residual.Computes F) (hs : s.Ordered setup)
    (h : (step setup).outcome s = (.error e, s')) :
    Interrupted F setup s e s' ↔ s'.unanswered = s.unanswered + 1 := by
  refine ⟨Interrupted.unanswered_eq, fun hunanswered => ?_⟩
  cases hstopped : s.stopped with
  | true => cases (outcome_step_of_stopped setup hstopped).symm.trans h
  | false =>
    rw [outcome_step_of_not_stopped setup hstopped] at h
    exact of_advance_eq_error hR hs h hunanswered

/-- The residual function fails where an interrupted step leaves the session. -/
theorem Interrupted.fails (h : Interrupted F setup s e s') :
    F s'.work.iterate s'.parameter = .error e := by
  cases h with
  | going hlength hadvance hfails => exact hfails
  | returning hprobe hcheck hback hlanding hfails => exact hfails

/-- Stuck where the step goes: the residual and the point it belongs to are those before the step,
and so is all that the second half of a step decides. -/
structure StuckGoing (setup : Setup A P) (s s' : Session A P) : Prop where
  stores : s'.StoresAt setup s'.work.previous
  previous : s'.work.previous = s.work.iterate
  residual : s'.work.residual = s.work.residual
  inverse : s'.work.inverse = s.work.inverse
  monitor : s'.monitor = s.monitor
  verdict : s'.verdict = s.verdict
  resets : s'.resets = s.resets
  statistics : s'.statistics = s.statistics.bump .steps 1

/-- Stuck where the solve returns to: the residual is the one at the point that the step reached.
The solve has ended, so that a further step does nothing. -/
structure StuckReturning (setup : Setup A P) (s : Session A P) (x : Probe A) (s' : Session A P) :
    Prop where
  reached : x.Valid setup s
  stores : s'.StoresAt setup x.iterate
  residual : s'.work.residual = x.residual
  previous : s'.work.previous = s'.work.iterate
  landing : Workspace.Landing setup.engine (s.probed x).work s'.monitor.bestIterate s'.work.iterate
  fallsBack : s'.status.fallsBack = true
  ended : (step setup).outcome s' = (.ok (), s')

/-- A session whose residual is the one at its iterate may be interrupted in a step by the residual
function, where the step goes or where the solve returns to. The residual function fails at the
iterate that is left. The residual that is left is the one at the point before the step, which is
kept, or the one at the point the step had reached. -/
theorem step_interrupted (hR : setup.residual.Computes F) {request : Request A P}
    {s₀ : Session A P} {n : Nat} (hstart : start setup request = (.ok s₀, n))
    {ops : List (Operation A P)} (hops : ∀ op ∈ ops, op.IsSolving) (hs : s = after setup s₀ ops)
    (hstores : s.StoresAt setup s.work.iterate)
    (hfails : (step setup).outcome s = (.error e, s'))
    (hunanswered : s'.unanswered = s.unanswered + 1) :
    F s'.work.iterate s'.parameter = .error e ∧
      (StuckGoing setup s s' ∨ ∃ x, StuckReturning setup s x s') := by
  have hordered : s.Ordered setup := hs ▸ (Workspace.stable_ordered setup).after hstart hops
  have hinterrupted := (interrupted_iff hR hordered hfails).mpr hunanswered
  refine ⟨hinterrupted.fails, ?_⟩
  cases hinterrupted with
  | going hlength hadvance hfails => exact .inl ⟨hstores, rfl, rfl, rfl, rfl, rfl, rfl, rfl⟩
  | @returning x c u origin shared hprobe hcheck hback hlanding hfails =>
    refine .inr ⟨x, ?_⟩
    exact
      { reached := hprobe
        stores := hR.evaluate_again hprobe.residual
        residual := rfl
        previous := rfl
        landing := hlanding
        fallsBack := hback
        ended := outcome_step_of_stopped setup rfl }

/-! ## A residual function that is defined at one point -/

section

open QuasiNewton.Affine

/-- One at zero, and undefined elsewhere. -/
def brittleResidual (u : Tensor A) (_ : Int) : Attempt A (Tensor A) :=
  if A.isZero u.kind (u.elem 0) then .ok (.full u.kind u.shape (A.ofWhole u.kind 1))
  else .error (.raised "undefined")

/-- A setup with that residual function. -/
def brittle : Setup Machine.arithmetic Int :=
  { problem with residual := .returning fun _ => brittleResidual }

/-- The residuals of the brittle setup are computed by a function. -/
theorem computes_brittle : brittle.residual.Computes brittleResidual := fun _ _ _ => rfl

/-- The function answers in the frame of its argument. -/
theorem conforms_brittle : Residual.Conforms (brittleResidual (A := A)) := by
  intro u p v h
  unfold brittleResidual at h
  split at h
  · cases h
    exact Tensor.frame_ofFn _ _ _
  · cases h

/-- A start at zero answers with the residual there, and the first step is interrupted. -/
theorem exists_interrupted : ∃ s n e s', start brittle (startAt double [0] 0) = (.ok s, n) ∧
    s.StoresAt brittle s.work.iterate ∧ (step brittle).outcome s = (.error e, s') ∧
    s'.unanswered = s.unanswered + 1 := by
  obtain ⟨s, n, hstart, hfails, hunanswered⟩ := exists_started brittle (startAt double [0] 0)
    (fun s => (¬ ∃ a, ((step brittle).outcome s).1 = .ok a) ∧
      ((step brittle).outcome s).2.unanswered = s.unanswered + 1)
    (by decide +kernel)
  have hconsistent := consistent_start computes_brittle conforms_brittle hstart
  rcases hstep : (step brittle).outcome s with ⟨e | a, s'⟩
  · rw [hstep] at hunanswered
    exact ⟨s, n, e, s', hstart, fun _ => hconsistent, hstep, hunanswered⟩
  · exact absurd ⟨a, congrArg Prod.fst hstep⟩ hfails

/-- A step of the brittle setup from zero is interrupted. -/
theorem step_interrupted_brittle :
    ∃ s n e s', start brittle (startAt double [0] 0) = (.ok s, n) ∧
      (step brittle).outcome s = (.error e, s') ∧
      brittleResidual s'.work.iterate s'.parameter = .error e ∧
      (StuckGoing brittle s s' ∨ ∃ x, StuckReturning brittle s x s') := by
  obtain ⟨s, n, e, s', hstart, hstores, hfails, hunanswered⟩ := exists_interrupted
  have hsolving : ∀ op ∈ ([] : List (Operation Machine.arithmetic Int)), op.IsSolving := nofun
  obtain ⟨hundefined, hstuck⟩ :=
    step_interrupted computes_brittle hstart hsolving rfl hstores hfails hunanswered
  exact ⟨s, n, e, s', hstart, hfails, hundefined, hstuck⟩

/-- After that step the residual is not the one at the iterate, where there is none. -/
theorem brittle_inconsistent :
    ∃ s n e s', start brittle (startAt double [0] 0) = (.ok s, n) ∧
      s.StoresAt brittle s.work.iterate ∧ (step brittle).outcome s = (.error e, s') ∧
      s'.unanswered = s.unanswered + 1 ∧ ¬ s'.StoresAt brittle s'.work.iterate := by
  obtain ⟨s, n, e, s', hstart, hstores, hfails, hunanswered⟩ := exists_interrupted
  have hordered := (Workspace.stable_ordered brittle).start hstart
  have hinterrupted := (interrupted_iff computes_brittle hordered hfails).mpr hunanswered
  refine ⟨s, n, e, s', hstart, hstores, hfails, hunanswered, fun hconsistent => ?_⟩
  cases hinterrupted.fails.symm.trans (hconsistent 0)

end

end Session

end QuasiNewton
