import QuasiNewton.Proofs.Agreement
import QuasiNewton.Solver.Run

/-!
# What actions leave alone

An action keeps a view of the session if the view is the same before and after it, whether it
answers or fails. Reporting keeps everything but the lines, and the parts of a step in front of its
decision keep the settings and the outcome. The loop of a run is taken apart turn by turn: a step,
the line about it and the rest of the loop.
-/

namespace QuasiNewton

variable {A : Arithmetic} {P : Type} {α β V W : Type}

namespace Action

/-- The action leaves a view of the session as it is. -/
def Keeps (view : Session A P → V) (x : Action A P α) : Prop :=
  ∀ s, view (x.outcome s).2 = view s

namespace Keeps

variable {view : Session A P → V} {x : Action A P α} {f : α → Action A P β}

/-- What an action keeps of a session it keeps of every part of that. -/
theorem map (h : Keeps view x) (g : V → W) : Keeps (g ∘ view) x := fun s => congrArg g (h s)

/-- What an action keeps is the same in the session it leads to. -/
theorem eq_of_outcome (h : Keeps view x) {s s' : Session A P} {a : Except (Fault A.Real) α}
    (hx : x.outcome s = (a, s')) : view s' = view s := by
  have hs := h s
  rwa [hx] at hs

/-- An action that does nothing keeps everything. -/
theorem of_pure (a : α) : Keeps view (pure a : Action A P α) := fun _ => rfl

/-- Two actions in a row keep what both keep. -/
theorem bind (hx : Keeps view x) (hf : ∀ a, Keeps view (f a)) : Keeps view (x >>= f) := by
  intro s
  rw [outcome_bind]
  rcases h : x.outcome s with ⟨e | a, s'⟩
  · exact hx.eq_of_outcome h
  · exact (hf a s').trans (hx.eq_of_outcome h)

/-- To look at the session changes nothing of it. -/
theorem get_bind {f : Session A P → Action A P β} (hf : ∀ c, Keeps view (f c)) :
    Keeps view (get >>= f) := fun s => hf s s

/-- A change keeps the views that are the same after it. -/
theorem of_modify {g : Session A P → Session A P} (h : ∀ s, view (g s) = view s) :
    Keeps view (modify g) := h

/-- An attempt keeps everything. -/
theorem of_attempt (y : Attempt A α) : Keeps view (Session.attempt y) := by
  intro s
  rw [Session.outcome_attempt]

/-- A change of the arrays keeps what it keeps of them. -/
theorem of_rework {g : Workspace A → Attempt A (Workspace A)}
    (h : ∀ s w, g s.work = .ok w → view { s with work := w } = view s) :
    Keeps view (Session.rework g) := by
  intro s
  rw [Session.outcome_rework]
  split
  case h_1 w hw => exact h s w hw
  case h_2 => rfl

end Keeps

end Action

namespace Session

open QuasiNewton.Action

/-! ## Reporting -/

/-- A session without its lines. -/
def mute (s : Session A P) : Session A P := { s with transcript := [] }

/-- Sessions that are the same without their lines differ in them only. -/
theorem eq_of_mute {s s' : Session A P} (h : s'.mute = s.mute) :
    s' = { s with transcript := s'.transcript } := by
  cases s
  cases s'
  cases h
  rfl

variable (setup : Setup A P)

/-- A report adds a line and nothing else. -/
theorem keeps_report (line : Line A.Real) : (report line : Action A P Unit).Keeps mute :=
  .of_modify fun _ => rfl

/-- To ask whether a level is reported changes nothing. -/
theorem keeps_speaks {view : Session A P → V} (level : Int) : (speaks setup level).Keeps view :=
  .bind (.of_attempt _) fun _ => .of_pure _

/-- To log an event adds at most a line. -/
theorem keeps_log (what : Event A.Real) : (log setup what).Keeps mute := by
  refine .bind (keeps_speaks setup 2) fun b => ?_
  split
  · exact .get_bind fun _ => keeps_report _
  · exact .of_pure ()

/-- So does the line a run opens with. -/
theorem keeps_announce : (announce setup).Keeps mute := by
  refine .bind (keeps_speaks setup 1) fun b => ?_
  split
  · exact .get_bind fun _ => .bind (.of_attempt _) fun _ => .bind (.of_attempt _) fun _ =>
      keeps_report _
  · exact .of_pure ()

/-- So does the line about a step. -/
theorem keeps_progress : (progress setup).Keeps mute := by
  refine .bind (keeps_speaks setup 1) fun b => ?_
  split
  · refine .get_bind fun s => ?_
    split
    · exact .bind (.of_attempt _) fun _ => keeps_report _
    · exact .of_pure ()
  · exact .of_pure ()

/-- The end of a run adds lines only. -/
theorem keeps_close : (close setup).Keeps mute := by
  refine .get_bind fun s => .bind (.of_attempt _) fun norm =>
    .bind (keeps_speaks setup 0) fun b => ?_
  split
  · exact .bind (keeps_report _) fun _ => .bind (keeps_report _) fun _ => .bind (keeps_report _)
      fun _ => .of_pure _
  · exact .of_pure _

/-! ## Parts of a step -/

section

variable {view : Session A P → V}

/-- A search for a step length is counted and leaves all else alone. -/
theorem keeps_stepLength (h : ∀ s searches, view { s with searches } = view s) :
    (stepLength : Action A P A.Real).Keeps view := by
  intro s
  rw [outcome_stepLength]
  exact h s _

/-- Only the caller's array is settled. -/
theorem keeps_settleOrigin (h : ∀ s origin shared, view { s with origin, shared } = view s) :
    (settleOrigin setup).Keeps view := by
  intro s
  obtain ⟨origin, shared, hsettled⟩ := outcome_settleOrigin setup s
  rw [hsettled]
  exact h s origin shared

/-- An evaluation is counted and leaves all else alone. -/
theorem keeps_evaluate (h : ∀ s evaluations, view { s with evaluations } = view s)
    (array : Tensor A) : (evaluate setup array).Keeps view := by
  intro s
  rw [outcome_evaluate]
  exact h s _

/-- A check is noted by the monitor. -/
theorem keeps_consult (h : ∀ s monitor, view { s with monitor } = view s) :
    (consult setup).Keeps view := by
  intro s
  rw [outcome_consult]
  exact h s _

end

/-! ## Settings -/

/-- What a session works with until it is restarted. -/
structure Settings (A : Arithmetic) (P : Type) where
  parameter : P
  resetCheck : ResetCheck A
  lineSearch : LineSearch A
  condition : Condition A.toMagnitudes
  monitored : Tolerances A
  tolerances : Tolerances A
  budget : Quantity A.Real

/-- The settings of a session. -/
def settings (s : Session A P) : Settings A P where
  parameter := s.parameter
  resetCheck := s.resetCheck
  lineSearch := s.lineSearch
  condition := s.monitor.condition
  monitored := s.monitor.tolerances
  tolerances := s.tolerances
  budget := s.budget

/-- The settings of a session, whether and why it has ended, and the steps it has taken. -/
def settingsAndVerdict (s : Session A P) : Settings A P × Status × Bool × Int :=
  (s.settings, s.status, s.stopped, s.statistics.steps)

/-- What keeps all but the lines keeps the settings and the verdict. -/
theorem settingsAndVerdict_of_mute {x : Action A P α} (h : x.Keeps mute) :
    x.Keeps settingsAndVerdict :=
  h.map settingsAndVerdict

/-- The settings and the verdict of a session, the resets it has made and its monitor. -/
def monitorAndVerdict (s : Session A P) :
    (Settings A P × Status × Bool × Int) × Int × Monitor A :=
  (s.settingsAndVerdict, s.resets, s.monitor)

/-- What keeps all but the lines keeps the monitor and the verdict. -/
theorem monitorAndVerdict_of_mute {x : Action A P α} (h : x.Keeps mute) :
    x.Keeps monitorAndVerdict :=
  h.map monitorAndVerdict

/-- What keeps the monitor and the verdict keeps the settings and the verdict. -/
theorem settingsAndVerdict_of_monitor {x : Action A P α} (h : x.Keeps monitorAndVerdict) :
    x.Keeps settingsAndVerdict :=
  h.map Prod.fst

/-- The monitor and the verdict of a session, the denominators it has replaced and its lines. Moves
of the arrays leave these alone. -/
def monitorAndLines (s : Session A P) :
    ((Settings A P × Status × Bool × Int) × Int × Monitor A) × Int × List (Line A.Real) :=
  (s.monitorAndVerdict, s.statistics.guards, s.transcript)

/-- Settling the caller's array keeps the monitor and the lines. -/
theorem monitorAndLines_settleOrigin : (settleOrigin setup).Keeps monitorAndLines :=
  keeps_settleOrigin setup fun _ _ _ => rfl

/-- An evaluation keeps the monitor and the lines. -/
theorem monitorAndLines_evaluate (array : Tensor A) :
    (evaluate setup array).Keeps monitorAndLines :=
  keeps_evaluate setup (fun _ _ => rfl) array

/-- A move to a point keeps the monitor and the lines. -/
theorem monitorAndLines_moveTo (point : Tensor A) : (moveTo setup point).Keeps monitorAndLines := by
  have hmove : (rework (Workspace.moveTo setup.engine point) : Action A P Unit).Keeps
      monitorAndLines := .of_rework fun _ _ _ => rfl
  refine .bind hmove fun _ => .bind (monitorAndLines_settleOrigin setup) fun _ => ?_
  exact .get_bind fun _ => .bind (monitorAndLines_evaluate setup _) fun _ => .of_modify fun _ => rfl

/-- So does the first half of a step. -/
theorem monitorAndLines_probe : (probe setup).Keeps monitorAndLines := by
  have hrework (move : Workspace A → Attempt A (Workspace A)) :
      (rework move : Action A P Unit).Keeps monitorAndLines := .of_rework fun _ _ _ => rfl
  have hlength : (stepLength : Action A P A.Real).Keeps monitorAndLines :=
    keeps_stepLength fun _ _ => rfl
  have htrial : (evaluateTrial setup).Keeps monitorAndLines :=
    .get_bind fun _ => .bind (monitorAndLines_evaluate setup _) fun _ =>
      .bind (.of_modify fun _ => rfl) fun _ => .of_modify fun _ => rfl
  refine .bind (hrework _) fun _ => .bind hlength fun length => .bind (hrework _) fun _ => ?_
  exact .bind (monitorAndLines_settleOrigin setup) fun _ => htrial

/-- A move to a point keeps the monitor and the verdict. -/
theorem monitorAndVerdict_moveTo (point : Tensor A) :
    (moveTo setup point).Keeps monitorAndVerdict :=
  (monitorAndLines_moveTo setup point).map Prod.fst

/-- So does the first half of a step. -/
theorem monitorAndVerdict_probe : (probe setup).Keeps monitorAndVerdict :=
  (monitorAndLines_probe setup).map Prod.fst

/-- The return to the best iterate keeps the monitor and the verdict. -/
theorem monitorAndVerdict_restoreBest : (restoreBest setup).Keeps monitorAndVerdict := by
  have hlog (what : Event A.Real) : (log setup what).Keeps monitorAndVerdict :=
    monitorAndVerdict_of_mute (keeps_log setup what)
  refine .get_bind fun _ => .bind (monitorAndVerdict_moveTo setup _) fun _ => ?_
  exact .bind (.of_modify fun _ => rfl) fun _ => .get_bind fun _ => hlog _

/-- The monitor and the verdict of a session, and the calls of the residual function that were made
and answered. -/
def monitorAndCalls (s : Session A P) :
    ((Settings A P × Status × Bool × Int) × Int × Monitor A) × Nat × Int :=
  (s.monitorAndVerdict, s.evaluations, s.statistics.evaluations)

/-- A correction keeps the monitor and the calls. -/
theorem monitorAndCalls_correct : (correct setup).Keeps monitorAndCalls := by
  have hlog : (log setup .guarded).Keeps monitorAndCalls := (keeps_log setup _).map monitorAndCalls
  refine .get_bind fun _ => .bind (.of_attempt _) fun (_, guarded) =>
    .bind (.of_modify fun _ => rfl) fun _ => ?_
  split
  · exact .bind (.of_modify fun _ => rfl) fun _ => hlog
  · exact .of_pure ()

/-- A correction keeps the monitor and the verdict. -/
theorem monitorAndVerdict_correct : (correct setup).Keeps monitorAndVerdict :=
  (monitorAndCalls_correct setup).map Prod.fst

/-- A move to a point keeps the settings and the verdict. -/
theorem settingsAndVerdict_moveTo (point : Tensor A) :
    (moveTo setup point).Keeps settingsAndVerdict :=
  settingsAndVerdict_of_monitor (monitorAndVerdict_moveTo setup point)

/-- So does the first half of a step. -/
theorem settingsAndVerdict_probe : (probe setup).Keeps settingsAndVerdict :=
  settingsAndVerdict_of_monitor (monitorAndVerdict_probe setup)

/-- A check changes neither the condition nor the tolerances. -/
theorem settingsAndVerdict_consult : (consult setup).Keeps settingsAndVerdict := by
  intro s
  obtain ⟨hcondition, htolerances⟩ :=
    s.monitor.check_configuration setup.norm s.work.trial s.work.iterate
  rw [outcome_consult]
  simp only [settingsAndVerdict, settings, hcondition, htolerances]

/-- The return to the best iterate keeps the settings and the verdict. -/
theorem settingsAndVerdict_restoreBest : (restoreBest setup).Keeps settingsAndVerdict :=
  settingsAndVerdict_of_monitor (monitorAndVerdict_restoreBest setup)

/-- So does a correction. -/
theorem settingsAndVerdict_correct : (correct setup).Keeps settingsAndVerdict :=
  settingsAndVerdict_of_monitor (monitorAndVerdict_correct setup)

/-- The settings of a session and the steps it has taken. -/
def settingsAndSteps (s : Session A P) : Settings A P × Int := (s.settings, s.statistics.steps)

/-- What keeps the settings and the verdict keeps the settings and the steps. -/
theorem settingsAndSteps_of_verdict {x : Action A P α} (h : x.Keeps settingsAndVerdict) :
    x.Keeps settingsAndSteps :=
  h.map fun v => (v.1, v.2.2.2)

/-- A stop keeps the settings and the steps. -/
theorem settingsAndSteps_conclude : (conclude setup).Keeps settingsAndSteps := by
  have hcommit : (rework (Workspace.commit setup.engine) : Action A P Unit).Keeps
      settingsAndSteps := .of_rework fun _ _ _ => rfl
  refine .bind (.of_modify fun _ => rfl) fun _ => .bind hcommit fun _ => .get_bind fun s => ?_
  split
  · exact settingsAndSteps_of_verdict (settingsAndVerdict_restoreBest setup)
  · exact .of_pure ()

/-- The settings of a session, the steps it has taken, its monitor and the calls of the residual
function that were made and answered. -/
def settingsAndCalls (s : Session A P) : (Settings A P × Int) × Monitor A × Nat × Int :=
  (s.settingsAndSteps, s.monitor, s.evaluations, s.statistics.evaluations)

/-- A reset, and the stop in its place, keep the settings and the calls. -/
theorem settingsAndCalls_resetOrStop : (resetOrStop setup).Keeps settingsAndCalls := by
  have hlog (what : Event A.Real) : (log setup what).Keeps settingsAndCalls :=
    (keeps_log setup what).map settingsAndCalls
  have hreset : (rework (Workspace.reset setup.engine) : Action A P Unit).Keeps
      settingsAndCalls := .of_rework fun _ _ _ => rfl
  refine .get_bind fun s => ?_
  split
  · exact .bind (.of_modify fun _ => rfl) fun _ => hlog _
  · exact .bind hreset fun _ => .bind (.of_modify fun _ => rfl) fun _ => .get_bind fun _ => hlog _

/-- So does the second half of a step that goes on. -/
theorem settingsAndCalls_refine : (refine setup).Keeps settingsAndCalls := by
  have hrework (move : Workspace A → Attempt A (Workspace A)) :
      (rework move : Action A P Unit).Keeps settingsAndCalls := .of_rework fun _ _ _ => rfl
  refine .bind (hrework _) fun _ => .bind (hrework _) fun _ => .get_bind fun s => ?_
  refine .bind (.of_attempt _) fun small => ?_
  split
  · exact settingsAndCalls_resetOrStop setup
  · exact (monitorAndCalls_correct setup).map fun v => ((v.1.1.1, v.1.1.2.2.2), v.1.2.2, v.2)

/-- A step of a session that has not ended counts itself, whether it answers or fails, and keeps the
settings. -/
theorem settingsAndSteps_advance (s : Session A P) :
    settingsAndSteps ((advance setup).outcome s).2 = (s.settings, s.statistics.steps + 1) := by
  have hrest : (probe setup >>= fun _ => consult setup >>= fun stop =>
      if stop then conclude setup else refine setup).Keeps settingsAndSteps := by
    refine .bind (settingsAndSteps_of_verdict (settingsAndVerdict_probe setup)) fun _ =>
      .bind (settingsAndSteps_of_verdict (settingsAndVerdict_consult setup)) fun stop => ?_
    split
    · exact settingsAndSteps_conclude setup
    · exact (settingsAndCalls_refine setup).map Prod.fst
  exact hrest { s with statistics := s.statistics.bump .steps 1 }

/-- A step of a session that has not ended keeps the settings. -/
theorem settings_advance (s : Session A P) :
    ((advance setup).outcome s).2.settings = s.settings :=
  congrArg Prod.fst (settingsAndSteps_advance setup s)

/-- Such a step is counted once. -/
theorem steps_advance (s : Session A P) :
    ((advance setup).outcome s).2.statistics.steps = s.statistics.steps + 1 :=
  congrArg Prod.snd (settingsAndSteps_advance setup s)

/-! ## Verdicts -/

/-- Whether and why a session has ended. -/
def verdict (s : Session A P) : Status × Bool := (s.status, s.stopped)

/-- The verdict on a session and the steps it has taken. -/
def verdictAndSteps (s : Session A P) : (Status × Bool) × Int := (s.verdict, s.statistics.steps)

/-- A view of neither the parameter nor the budget is kept when the two are taken over. -/
theorem keeps_adopt {view : Session A P → V}
    (hparameter : ∀ s parameter, view { s with parameter } = view s)
    (hbudget : ∀ s budget, view { s with budget } = view s) (r : Restart A P) :
    (adopt r).Keeps view := by
  refine .bind (.of_modify fun s => hparameter s _) fun _ => ?_
  split
  · exact .of_pure ()
  · exact .bind (.of_attempt _) fun _ => .of_modify fun s => hbudget s _

/-- New arrays for a point of another shape leave the verdict and the steps alone. -/
theorem verdictAndSteps_reopen (point : Tensor A) (layout : Layout) :
    (reopen setup point layout).Keeps verdictAndSteps := by
  refine .get_bind fun _ => .bind (.of_modify fun _ => rfl) fun _ => .bind (.of_attempt _) fun _ =>
    .bind (.of_modify fun _ => rfl) fun _ => .get_bind fun _ => ?_
  exact .bind (.of_attempt _) fun _ => .of_modify fun _ => rfl

/-- So does the way to the new point of a restart. -/
theorem verdictAndSteps_relocate (point : Tensor A) (layout : Layout) :
    (relocate setup point layout).Keeps verdictAndSteps := by
  have hmove : (moveTo setup point).Keeps verdictAndSteps :=
    (settingsAndVerdict_moveTo setup point).map fun v => ((v.2.1, v.2.2.1), v.2.2.2)
  refine .get_bind fun s => ?_
  split
  · exact .bind hmove fun _ => .of_rework fun _ _ _ => rfl
  · exact verdictAndSteps_reopen setup point layout

/-- A view of neither the monitor nor the tolerances is kept when the monitor is started over. -/
theorem keeps_renewMonitor {view : Session A P → V}
    (hmonitor : ∀ s monitor, view { s with monitor } = view s)
    (htolerances : ∀ s tolerances, view { s with tolerances } = view s) (r : Restart A P) :
    (renewMonitor setup r).Keeps view := by
  refine .get_bind fun s => ?_
  split
  · exact .bind (.of_modify fun s => hmonitor s _) fun _ => .bind (.of_attempt _) fun _ =>
      .of_modify fun s => htolerances s _
  · exact .bind (.of_attempt _) fun _ => .bind (.of_modify fun s => hmonitor s _) fun _ =>
      .of_modify fun s => htolerances s _

/-! ## The loop of a run -/

section

variable {setup} {s s' : Session A P} {fuel : Nat}

/-- A run goes on while the session has not ended and its budget is above the steps taken. -/
theorem mayContinue_eq_true_iff : s.mayContinue = true ↔
    s.stopped = false ∧ s.budget.isAbove (M := A.toMagnitudes) s.statistics.steps = true := by
  rw [mayContinue, Bool.and_eq_true, Bool.not_eq_true']

variable (setup)

/-- The loop of a run does nothing to a session that may not go on. -/
theorem outcome_iterate_of_not (h : ¬s.mayContinue = true) (fuel : Nat) :
    (iterate setup fuel).outcome s = (.ok (), s) := by
  cases fuel with
  | zero => rfl
  | succ fuel =>
    rw [iterate, outcome_get_bind, if_neg h]
    rfl

/-- Nor does it do anything to one that has ended. -/
theorem outcome_iterate_of_stopped (hstopped : s.stopped = true) (fuel : Nat) :
    (iterate setup fuel).outcome s = (.ok (), s) := by
  refine outcome_iterate_of_not setup (fun h => ?_) fuel
  cases (mayContinue_eq_true_iff.mp h).1.symm.trans hstopped

/-- A turn of the loop is a step, the line about it and the rest of the loop. -/
theorem outcome_iterate_succ (h : s.mayContinue = true) (fuel : Nat) :
    (iterate setup (fuel + 1)).outcome s =
      (step setup >>= fun _ => progress setup >>= fun _ => iterate setup fuel).outcome s := by
  rw [iterate, outcome_get_bind, if_pos h]

variable {setup}

/-- In a loop that answers either no turn is taken, or every part of the first one answers. -/
theorem of_iterate_eq_ok (h : (iterate setup (fuel + 1)).outcome s = (.ok (), s')) :
    (¬s.mayContinue = true ∧ s' = s) ∨ (s.mayContinue = true ∧ ∃ s₁ s₂,
      (step setup).outcome s = (.ok (), s₁) ∧ (progress setup).outcome s₁ = (.ok (), s₂) ∧
      (iterate setup fuel).outcome s₂ = (.ok (), s')) := by
  by_cases hcontinue : s.mayContinue = true
  · rw [outcome_iterate_succ setup hcontinue] at h
    obtain ⟨_, s₁, hstep, h⟩ := outcome_bind_eq_ok.mp h
    obtain ⟨_, s₂, hprogress, hrest⟩ := outcome_bind_eq_ok.mp h
    exact .inr ⟨hcontinue, s₁, s₂, hstep, hprogress, hrest⟩
  · rw [outcome_iterate_of_not setup hcontinue] at h
    exact .inl ⟨hcontinue, (congrArg Prod.snd h).symm⟩

end

end Session

end QuasiNewton
