import QuasiNewton.Proofs.Attempts
import QuasiNewton.Proofs.Consistency
import QuasiNewton.Proofs.Stable

/-!
# What steps tell about the criterion

A step checks the criterion where it went. If it ends the solve as a success, the criterion holds
there; if the solve goes on, it does not. A step that fails makes no success.
-/

namespace QuasiNewton

open QuasiNewton.Action

variable {A : Arithmetic} {P : Type} {F : Tensor A → P → Attempt A (Tensor A)} {setup : Setup A P}

/-! ## What the second half of a step keeps of the first -/

namespace Workspace

variable {e : Engine} {w w' : Workspace A}

/-- Where a step went and what it evaluated there. -/
def reached (w : Workspace A) : Tensor A × Tensor A := (w.iterate, w.trial)

/-- A search direction leaves iterate and trial residual alone. -/
theorem reached_aim (h : w.aim e = .ok w') : w'.reached = w.reached := by
  cases e with
  | inPlace =>
    obtain ⟨v, -, h⟩ := Attempt.bind_eq_ok.mp h
    obtain ⟨d, -, h⟩ := Attempt.bind_eq_ok.mp h
    cases h
    rfl
  | rebuilding =>
    obtain ⟨v, -, h⟩ := Attempt.bind_eq_ok.mp h
    obtain ⟨d, -, h⟩ := Attempt.bind_eq_ok.mp h
    cases h
    rfl

/-- So does the change of the residual. -/
theorem reached_compare (h : w.compare e = .ok w') : w'.reached = w.reached := by
  obtain ⟨y, -, h⟩ := Attempt.bind_eq_ok.mp h
  cases e with
  | inPlace =>
    obtain ⟨c, -, h⟩ := Attempt.bind_eq_ok.mp h
    cases h
    rfl
  | rebuilding =>
    cases h
    rfl

/-- So does taking the trial residual for the residual. -/
theorem reached_commit (h : w.commit e = .ok w') : w'.reached = w.reached := by
  cases e with
  | inPlace =>
    obtain ⟨r, -, h⟩ := Attempt.bind_eq_ok.mp h
    cases h
    rfl
  | rebuilding =>
    cases h
    rfl

/-- So does a reset. -/
theorem reached_reset (h : w.reset e = .ok w') : w'.reached = w.reached := by
  cases e with
  | inPlace =>
    obtain ⟨m, -, h⟩ := Attempt.bind_eq_ok.mp h
    cases h
    rfl
  | rebuilding =>
    cases h
    rfl

/-- So does a correction. -/
theorem reached_correct {x : Workspace A × Bool} (h : w.correct e = .ok x) :
    x.1.reached = w.reached := by
  cases e with
  | inPlace =>
    obtain ⟨u, -, h⟩ := Attempt.bind_eq_ok.mp h
    obtain ⟨d, -, h⟩ := Attempt.bind_eq_ok.mp h
    cases h
    rfl
  | rebuilding =>
    obtain ⟨u, -, h⟩ := Attempt.bind_eq_ok.mp h
    obtain ⟨d, -, h⟩ := Attempt.bind_eq_ok.mp h
    cases h
    rfl

end Workspace

namespace Session

variable {b s s' : Session A P}

/-- Where a session is, what it evaluated there and with which parameter. -/
def reached (s : Session A P) : (Tensor A × Tensor A) × P := (s.work.reached, s.parameter)

/-- Where a session is, and the caller's array, with whether it shares its storage. -/
def reachedAndOrigin (s : Session A P) : ((Tensor A × Tensor A) × P) × Tensor A × Bool :=
  (s.reached, s.origin, s.shared)

/-- Arrays that are where they were leave the session where it is, and the caller's array. -/
theorem reachedAndOrigin_of_reached {w : Workspace A} (h : w.reached = s.work.reached) :
    reachedAndOrigin { s with work := w } = s.reachedAndOrigin := by
  change ((w.reached, s.parameter), s.origin, s.shared) = s.reachedAndOrigin
  rw [h]
  rfl

/-- A correction leaves a session where it is, and the caller's array. -/
theorem reachedAndOrigin_correct (setup : Setup A P) : (correct setup).Keeps reachedAndOrigin := by
  intro s
  unfold correct
  rw [outcome_get_bind, outcome_bind, outcome_attempt]
  rcases h : s.work.correct setup.engine with e | ⟨w, guarded⟩
  · rfl
  · have hrest : (if guarded then count .guards >>= fun _ => log setup .guarded
        else pure () : Action A P Unit).Keeps reachedAndOrigin := by
      split
      · exact .bind (.of_modify fun _ => rfl) fun _ => (keeps_log setup _).map reachedAndOrigin
      · exact .of_pure ()
    exact (hrest { s with work := w }).trans
      (reachedAndOrigin_of_reached (Workspace.reached_correct h))

/-- So does the second half of a step that goes on. -/
theorem reachedAndOrigin_refine (setup : Setup A P) : (refine setup).Keeps reachedAndOrigin := by
  have hlog (what : Event A.Real) : (log setup what).Keeps reachedAndOrigin :=
    (keeps_log setup what).map reachedAndOrigin
  refine .bind (.of_rework fun s w h => ?_) fun _ => .bind (.of_rework fun s w h => ?_) fun _ =>
    .get_bind fun s => .bind (.of_attempt _) fun small => ?_
  · exact reachedAndOrigin_of_reached (Workspace.reached_compare h)
  · exact reachedAndOrigin_of_reached (Workspace.reached_commit h)
  · split
    · refine .get_bind fun s => ?_
      split
      · exact .bind (.of_modify fun _ => rfl) fun _ => hlog _
      · refine .bind (.of_rework fun s w h => ?_) fun _ => .bind (.of_modify fun _ => rfl) fun _ =>
          .get_bind fun _ => hlog _
        exact reachedAndOrigin_of_reached (Workspace.reached_reset h)
    · exact reachedAndOrigin_correct setup

/-- So it stays where it is, with what it evaluated there. -/
theorem keeps_reached_refine (setup : Setup A P) : (refine setup).Keeps reached :=
  (reachedAndOrigin_refine setup).map Prod.fst

/-! ## Where a step went -/

/-- The residual evaluated last is the one at the iterate. -/
def Evaluated (F : Tensor A → P → Attempt A (Tensor A)) (s : Session A P) : Prop :=
  F s.work.iterate s.parameter = .ok s.work.trial

/-- The first half of a step evaluates the residual where it goes. If it fails, it has not gone
anywhere, or there is no residual. -/
theorem Ordered.probe (hR : setup.residual.Computes F) (hF : Residual.Conforms F)
    (hs : s.Ordered setup) :
    Upholds (fun _ s' => s'.Ordered setup ∧ s'.Evaluated F)
      (fun s' => s'.work.iterate = s.work.iterate ∨
        ∃ e, F s'.work.iterate s'.parameter = .error e) (Session.probe setup) s := by
  have hI := Workspace.stable_ordered setup
  refine .seq (m := fun _ s₁ => s₁.Ordered setup ∧ s₁.work.iterate = s.work.iterate)
    (.of_rework (fun w hw => ?_) fun _ _ => .inl rfl) fun _ s₁ h₁ => ?_
  · have hw' := hI.aim hs hw
    obtain ⟨_, _, -, -, rfl⟩ := Workspace.Ordered.of_aim hs hw
    exact ⟨hw', rfl⟩
  have hlength : (stepLength : Action A P A.Real).Keeps fun s => s.work :=
    keeps_stepLength fun _ _ => rfl
  refine .seq ((Upholds.of_keeps hlength fun s₂ h => h).mono (fun _ _ h => h) fun s₂ h => ?_)
    fun length s₂ h₂ => ?_
  · exact .inl ((congrArg Workspace.iterate h).trans h₁.2)
  have hiterate₂ : s₂.work.iterate = s.work.iterate := (congrArg Workspace.iterate h₂).trans h₁.2
  have h₂ : s₂.Ordered setup := by
    rw [Ordered, h₂]
    exact h₁.1
  refine .seq (m := fun _ => Ordered setup)
    (.of_rework (fun w hw => hI.advance h₂ hw) fun _ _ => .inl hiterate₂) fun _ s₃ h₃ => ?_
  refine .seq (m := fun _ => Ordered setup) ?_ fun _ s₄ h₄ => .get_seq ?_
  · obtain ⟨origin, shared, h⟩ := outcome_settleOrigin setup s₃
    refine .of_cases (fun _ s' h' => ?_) fun _ s' h' => ?_
    · cases h.symm.trans h'
      exact h₃
    · cases h.symm.trans h'
  have hframe (he : setup.engine = .inPlace) : s₄.work.trial.frame = s₄.work.iterate.frame := by
    obtain ⟨f, hf⟩ := h₄ he
    exact hf.trial.trans hf.iterate.symm
  refine .seq (m := fun v s' => F s₄.work.iterate s₄.parameter = .ok v ∧
    s' = { s₄ with evaluations := s₄.evaluations + 1 })
    (.of_cases (fun v s' h => ?_) fun e s' h => ?_) fun v s₅ h₅ => ?_
  · rw [outcome_evaluate_of_computes hR hF hframe] at h
    exact ⟨(Prod.mk.inj h).1, (Prod.mk.inj h).2.symm⟩
  · rw [outcome_evaluate_of_computes hR hF hframe] at h
    obtain ⟨he, rfl⟩ := Prod.mk.inj h
    exact .inr ⟨e, he⟩
  · obtain ⟨hv, rfl⟩ := h₅
    refine .modify_seq (.of_modify ⟨fun he => ?_, hv⟩)
    obtain ⟨f, hf⟩ := h₄ he
    exact ⟨f, { hf with trial := (hF _ _ _ hv).trans hf.iterate }⟩

/-! ## Steps that fail -/

/-- A session that is not marked as a success. -/
def Unsuccessful (s : Session A P) : Prop := s.status ≠ .success

/-- What keeps the settings and the verdict makes no success of a session. -/
theorem Unsuccessful.upheld {α : Type} {x : Action A P α} (hs : s.Unsuccessful)
    (hx : x.Keeps settingsAndVerdict) : Upholds (fun _ => Unsuccessful) Unsuccessful x s := by
  refine .of_keeps hx fun s' h => ?_
  have hstatus : s'.status = s.status := congrArg (·.2.1) h
  rw [Unsuccessful, hstatus]
  exact hs

/-- The second half of a step that goes on makes no success of a session. -/
theorem Unsuccessful.refine (hs : s.Unsuccessful) :
    Upholds (fun _ => Unsuccessful) Unsuccessful (Session.refine setup) s := by
  refine .seq (hs.upheld (.of_rework fun _ _ _ => rfl)) fun _ s₁ h₁ => ?_
  refine .seq (h₁.upheld (.of_rework fun _ _ _ => rfl)) fun _ s₂ h₂ => .get_seq ?_
  refine .attempt_seq (fun _ _ => h₂) fun small _ => ?_
  split
  · refine .get_seq ?_
    split
    · have hexhausted : ({ s₂ with status := .resetsExhausted, stopped := true } :
          Session A P).Unsuccessful := fun h => by cases h
      exact .modify_seq (hexhausted.upheld (settingsAndVerdict_of_mute (keeps_log setup _)))
    · refine .seq (h₂.upheld (.of_rework fun _ _ _ => rfl)) fun _ s₃ h₃ => ?_
      have hreset : ({ s₃ with resets := s₃.resets + 1 } : Session A P).Unsuccessful := h₃
      exact .modify_seq (.get_seq (hreset.upheld (settingsAndVerdict_of_mute (keeps_log setup _))))
  · exact h₂.upheld (settingsAndVerdict_correct setup)

/-! ## What a step tells about the criterion -/

/-- The criterion in effect, as it is checked. -/
def criterion (setup : Setup A P) (s : Session A P) (residual iterate : Tensor A) :
    Attempt A Bool :=
  s.monitor.condition.mode.holds setup.norm s.monitor.tolerances residual iterate

/-- The criterion is the same with the same settings. -/
theorem criterion_of_settings (h : s'.settings = s.settings) :
    s'.criterion setup = s.criterion setup := by
  unfold criterion
  rw [show s'.monitor.condition = s.monitor.condition from congrArg Settings.condition h,
    show s'.monitor.tolerances = s.monitor.tolerances from congrArg Settings.monitored h]

/-- The criterion in effect in one session does not hold where another is. -/
def Missed (F : Tensor A → P → Attempt A (Tensor A)) (setup : Setup A P) (s s' : Session A P) :
    Prop :=
  ∀ v, F s'.work.iterate s'.parameter = .ok v → s.criterion setup v s'.work.iterate ≠ .ok true

/-- It is enough to look at the residual evaluated last. -/
theorem Missed.of_evaluated (h : s'.Evaluated F)
    (hmisses : s.criterion setup s'.work.trial s'.work.iterate ≠ .ok true) :
    s.Missed F setup s' := by
  intro v hv
  obtain rfl := Except.ok.inj (h.symm.trans hv)
  exact hmisses

/-- Whether the criterion is missed depends on what a session has reached. -/
theorem Missed.of_reached {s'' : Session A P} (h : s.Missed F setup s')
    (hreached : s''.reached = s'.reached) : s.Missed F setup s'' := by
  obtain ⟨hwork, hparameter⟩ := Prod.mk.inj hreached
  have hiterate : s''.work.iterate = s'.work.iterate := congrArg Prod.fst hwork
  unfold Missed
  rw [hiterate, hparameter]
  exact h

/-- What a step of a session tells about the criterion when it answers. -/
structure Judged (F : Tensor A → P → Attempt A (Tensor A)) (setup : Setup A P)
    (s s' : Session A P) : Prop where
  success : s'.status = .success → s'.stopped = true ∧ s'.Consistent F ∧
    s.criterion setup s'.work.residual s'.work.iterate = .ok true
  going : s'.stopped = false → s.Missed F setup s'

/-- What a step of a session tells about the criterion when it fails. -/
structure Foiled (F : Tensor A → P → Attempt A (Tensor A)) (setup : Setup A P)
    (s s' : Session A P) : Prop where
  unsuccessful : s'.Unsuccessful
  going : s'.stopped = false → s'.work.iterate = s.work.iterate ∨ s.Missed F setup s'

/-- Between check and end of a step: what was evaluated, and what the check made of it. -/
structure Checked (F : Tensor A → P → Attempt A (Tensor A)) (setup : Setup A P) (s : Session A P)
    (stop : Bool) (s' : Session A P) : Prop where
  ordered : s'.Ordered setup
  evaluated : s'.Evaluated F
  unsuccessful : s'.Unsuccessful
  verdict : (s.criterion setup s'.work.trial s'.work.iterate = .ok true ∧ stop = true ∧
      s'.monitor.status = .success) ∨
    (s.criterion setup s'.work.trial s'.work.iterate = .ok false ∧
      (stop = true → s'.monitor.status.fallsBack = true))

/-- The check of a session that has gone somewhere. -/
theorem checked_consult (hs : s.Ordered setup ∧ s.Evaluated F) (hun : s.Unsuccessful) :
    Upholds (fun stop => Checked F setup s stop)
      (fun s' => s'.Unsuccessful ∧ s.Missed F setup s') (consult setup) s := by
  refine .of_cases (fun stop s' h => ?_) fun e s' h => ?_
  · rw [outcome_consult] at h
    obtain ⟨hstop, rfl⟩ := Prod.mk.inj h
    exact
      { ordered := hs.1
        evaluated := hs.2
        unsuccessful := hun
        verdict := (Monitor.check_eq_ok (Prod.ext hstop rfl)).imp
          (fun h => ⟨h.1, h.2.1, congrArg Monitor.status h.2.2⟩) fun h => h }
  · rw [outcome_consult] at h
    obtain ⟨hfails, rfl⟩ := Prod.mk.inj h
    refine ⟨hun, .of_evaluated hs.2 fun hholds => ?_⟩
    rw [Monitor.check_of_holds hholds] at hfails
    cases hfails

/-- If the check stops a step, it ends in success where the criterion holds, or it falls back. -/
theorem Checked.conclude (h : Checked F setup s true s') :
    Upholds (fun _ => Judged F setup s) (fun s₁ => s₁.Unsuccessful ∧ s₁.stopped = true)
      (Session.conclude setup) s' := by
  have hordered : ({ s' with status := s'.monitor.status, stopped := true } :
      Session A P).Ordered setup := h.ordered
  refine .modify_seq (.seq (m := fun _ s₁ => s₁ = { s' with
    status := s'.monitor.status
    stopped := true
    work := { s'.work with residual := s'.work.trial } })
    (.of_rework (fun w hw => ?_) fun e he => ?_) fun _ s₁ h₁ => .get_seq ?_)
  · rw [Except.ok.inj (hw.symm.trans hordered.commit)]
  · cases hordered.commit.symm.trans he
  · have hstatus : s₁.status = s'.monitor.status := congrArg Session.status h₁
    have hstopped : s₁.stopped = true := congrArg Session.stopped h₁
    split
    case isTrue hback =>
      have hkept : Upholds (fun _ s₂ => s₂.status.fallsBack = true ∧ s₂.stopped = true)
          (fun s₂ => s₂.status.fallsBack = true ∧ s₂.stopped = true) (restoreBest setup) s₁ :=
        .of_keeps (settingsAndVerdict_restoreBest setup) fun s₂ h₂ =>
          ⟨(congrArg (·.2.1.fallsBack) h₂).trans hback, (congrArg (·.2.2.1) h₂).trans hstopped⟩
      refine hkept.mono (fun _ s₂ h₂ => ⟨fun hsuccess => ?_, fun hgoing => ?_⟩)
        fun s₂ h₂ => ⟨fun hsuccess => ?_, h₂.2⟩
      · rw [hsuccess] at h₂
        cases h₂.1
      · cases hgoing.symm.trans h₂.2
      · rw [hsuccess] at h₂
        cases h₂.1
    case isFalse hback =>
      subst h₁
      refine .of_pure ⟨fun hsuccess => ?_, fun hgoing => by cases hgoing⟩
      rcases h.verdict with ⟨hholds, -, -⟩ | ⟨-, hfalls⟩
      · exact ⟨rfl, h.evaluated, hholds⟩
      · exact absurd (hfalls rfl) hback

/-- If the check does not stop a step, the criterion does not hold where it went. -/
theorem Checked.refine (h : Checked F setup s false s') :
    Upholds (fun _ => Judged F setup s) (fun s₁ => s₁.Unsuccessful ∧ s.Missed F setup s₁)
      (Session.refine setup) s' := by
  have hmissed : s.Missed F setup s' := by
    refine .of_evaluated h.evaluated ?_
    rcases h.verdict with ⟨-, hstop, -⟩ | ⟨hholds, -⟩
    · cases hstop
    · rw [hholds]
      exact fun hfalse => by cases hfalse
  have hreached : Upholds (fun _ => s.Missed F setup) (s.Missed F setup)
      (Session.refine setup) s' :=
    .of_keeps (keeps_reached_refine setup) fun _ => hmissed.of_reached
  exact (h.unsuccessful.refine.and hreached).mono
    (fun _ s₁ h₁ => ⟨fun hsuccess => absurd hsuccess h₁.1, fun _ => h₁.2⟩) fun _ h₁ => h₁

/-- What a step tells about the criterion. -/
theorem judged_advance (hR : setup.residual.Computes F) (hF : Residual.Conforms F)
    (hs : s.Ordered setup) (hun : s.Unsuccessful) :
    Upholds (fun _ => Judged F setup s) (Foiled F setup s) (advance setup) s := by
  obtain ⟨s₀, hs₀⟩ : ∃ s₀ : Session A P, s₀ = { s with statistics := s.statistics.bump .steps 1 } :=
    ⟨_, rfl⟩
  have hordered : s₀.Ordered setup := hs₀ ▸ hs
  have hun₀ : s₀.Unsuccessful := hs₀ ▸ hun
  have hsettings : s₀.settings = s.settings := hs₀ ▸ rfl
  have hiterate : s₀.work.iterate = s.work.iterate := hs₀ ▸ rfl
  refine .modify_seq ?_
  rw [← hs₀]
  have hsettled : Upholds (fun _ s₁ => s₁.settings = s.settings ∧ s₁.Unsuccessful)
      (fun s₁ => s₁.settings = s.settings ∧ s₁.Unsuccessful) (probe setup) s₀ :=
    .of_keeps (settingsAndVerdict_probe setup) fun s₁ h₁ => ⟨(congrArg (·.1) h₁).trans hsettings,
      fun hsuccess => hun₀ ((congrArg (·.2.1) h₁).symm.trans hsuccess)⟩
  refine .seq (((hordered.probe hR hF).and hsettled).mono (fun _ _ h => h) fun s₁ h₁ => ?_)
    fun _ s₁ h₁ => ?_
  · obtain ⟨hstays | ⟨e, he⟩, -, hun₁⟩ := h₁
    · exact ⟨hun₁, fun _ => .inl (hstays.trans hiterate)⟩
    · exact ⟨hun₁, fun _ => .inr fun v hv => by cases he.symm.trans hv⟩
  obtain ⟨hchecked, hsame, hun₁⟩ := h₁
  have hcriterion : s₁.criterion setup = s.criterion setup := criterion_of_settings hsame
  have hfoiled (s₂ : Session A P) (h : s₂.Unsuccessful ∧ s₁.Missed F setup s₂) :
      Foiled F setup s s₂ :=
    ⟨h.1, fun _ => .inr fun v hv => hcriterion ▸ h.2 v hv⟩
  refine .seq ((checked_consult hchecked hun₁).mono (fun _ _ h => h) hfoiled) fun stop s₂ h₂ => ?_
  have h₂' : Checked F setup s stop s₂ := { h₂ with verdict := hcriterion ▸ h₂.verdict }
  cases stop with
  | true =>
    exact h₂'.conclude.mono (fun _ _ h => h) fun s₃ h₃ =>
      ⟨h₃.1, fun hgoing => by cases hgoing.symm.trans h₃.2⟩
  | false => exact h₂'.refine.mono (fun _ _ h => h) fun s₃ h₃ => ⟨h₃.1, fun _ => .inr h₃.2⟩

/-! ## Attempts that end in success -/

section

variable {k : Nat}

/-- Attempts leave the arrays in order. -/
theorem ordered_attempts (hb : b.Ordered setup) (k : Nat) : (attempts setup b k).Ordered setup := by
  induction k with
  | zero => exact hb
  | succ k ih =>
    exact ((Workspace.stable_ordered setup).invariant.step ih).outcome_snd (fun _ _ h => h)
      fun _ h => h

/-- An attempt that makes a success is a step that answers. -/
theorem judged_of_success (hR : setup.residual.Computes F) (hF : Residual.Conforms F)
    (hs : s.Ordered setup) (hgoing : s.stopped = false) (hun : s.Unsuccessful)
    (h : ((step setup).outcome s).2.status = .success) :
    Judged F setup s ((step setup).outcome s).2 := by
  rw [outcome_step_of_not_stopped setup hgoing] at h ⊢
  have hjudged := judged_advance hR hF hs hun
  rcases hadvance : (advance setup).outcome s with ⟨e | _, s'⟩
  · rw [hadvance] at h
    exact absurd h (hjudged.of_error hadvance).unsuccessful
  · exact hjudged.of_ok hadvance

/-- As long as a session has not ended it is not marked as a success. -/
theorem unsuccessful_attempts (hR : setup.residual.Computes F) (hF : Residual.Conforms F)
    (hb : b.Ordered setup) (hun : b.Unsuccessful)
    (hgoing : ∀ j < k, (attempts setup b j).stopped = false) (j : Nat) (hj : j < k) :
    (attempts setup b j).Unsuccessful := by
  induction j with
  | zero => exact hun
  | succ j ih =>
    intro hsuccess
    have hj' : j < k := Nat.lt_of_succ_lt hj
    have hjudged := judged_of_success hR hF (ordered_attempts hb j) (hgoing j hj') (ih hj')
      hsuccess
    exact absurd ((hgoing (j + 1) hj).symm.trans (hjudged.success hsuccess).1) Bool.false_ne_true

/-- If attempts end in a success the criterion holds where the last one led. -/
theorem criterion_of_success (hR : setup.residual.Computes F) (hF : Residual.Conforms F)
    (hb : b.Ordered setup) (hun : b.Unsuccessful)
    (hgoing : ∀ j < k, (attempts setup b j).stopped = false)
    (hsuccess : (attempts setup b k).status = .success) :
    0 < k ∧ (attempts setup b k).Consistent F ∧
      b.criterion setup (attempts setup b k).work.residual (attempts setup b k).work.iterate =
        .ok true := by
  cases k with
  | zero => exact absurd hsuccess hun
  | succ k =>
    have hk := Nat.lt_succ_self k
    have hjudged := judged_of_success hR hF (ordered_attempts hb k) (hgoing k hk)
      (unsuccessful_attempts hR hF hb hun hgoing k hk) hsuccess
    obtain ⟨-, hconsistent, hholds⟩ := hjudged.success hsuccess
    rw [criterion_of_settings
      (settings_attempts (k := k) fun j hj => hgoing j (Nat.lt_succ_of_lt hj))] at hholds
    exact ⟨Nat.succ_pos k, hconsistent, hholds⟩

/-- Where an attempt that is not the last one led, the criterion does not hold; if it failed, it
may not have led anywhere. -/
theorem missed_of_going (hR : setup.residual.Computes F) (hF : Residual.Conforms F)
    (hb : b.Ordered setup) (hun : b.Unsuccessful)
    (hgoing : ∀ j < k, (attempts setup b j).stopped = false) {j : Nat} (hj : j + 1 < k) :
    (∀ v, F (attempts setup b (j + 1)).work.iterate b.parameter = .ok v →
      b.criterion setup v (attempts setup b (j + 1)).work.iterate ≠ .ok true) ∨
      ((∃ e, ((step setup).outcome (attempts setup b j)).1 = .error e) ∧
        (attempts setup b (j + 1)).work.iterate = (attempts setup b j).work.iterate) := by
  have hj' : j < k := Nat.lt_of_succ_lt hj
  have hcriterion : (attempts setup b j).criterion setup = b.criterion setup :=
    criterion_of_settings (settings_attempts fun i hi => hgoing i (Nat.lt_trans hi hj'))
  have hjudged := judged_advance hR hF (ordered_attempts hb j)
    (unsuccessful_attempts hR hF hb hun hgoing j hj')
  have hnext := hgoing (j + 1) hj
  have hparameter : (attempts setup b (j + 1)).parameter = b.parameter :=
    congrArg Settings.parameter (settings_attempts fun i hi => hgoing i (Nat.lt_trans hi hj))
  rw [← hparameter, ← hcriterion]
  rw [outcome_step_of_not_stopped setup (hgoing j hj')]
  rw [attempts_succ (hgoing j hj')] at hnext ⊢
  rcases hadvance : (advance setup).outcome (attempts setup b j) with ⟨e | _, c⟩
  · rw [hadvance] at hnext
    rcases (hjudged.of_error hadvance).going hnext with hstays | hmissed
    · exact .inr ⟨⟨e, rfl⟩, hstays⟩
    · exact .inl hmissed
  · rw [hadvance] at hnext
    exact .inl ((hjudged.of_ok hadvance).going hnext)

end

end Session

end QuasiNewton
