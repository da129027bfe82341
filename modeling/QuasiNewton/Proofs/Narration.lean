import QuasiNewton.Proofs.Counters
import QuasiNewton.Proofs.Verbosity

/-!
# What a step says

At a verbosity of two or more a step that resets the inverse Jacobian, replaces a denominator, gives
up or returns to the best iterate says so in one line, after it has counted it, and no other step
says anything. A step that fails has said nothing and counted neither a reset nor a replaced
denominator.
-/

namespace QuasiNewton

open QuasiNewton.Action

variable {A : Arithmetic} {P : Type} {setup : Setup A P}

namespace Workspace

/-- Arrays that are overwritten keep their frame. -/
theorem enduring_regular (he : setup.engine = .inPlace) (f : Frame A) :
    Enduring setup (Regular f) fun b => b.frame = f where
  iterate h := h.iterate
  aim h hw := (h.of_aim hw).1
  advance h hw := ((uniform_advance _).regular h hw).1
  trial h hv := by
    have hframe := Residual.frame_evaluate (Setup.writes_of_inPlace he) hv
    exact { h with trial := hframe.trans h.trial }
  compare h hw := (uniform_compare.regular h hw).1
  commit h hw := (uniform_commit.regular h hw).1
  reset h hw := (uniform_reset.regular h hw).1
  correct h hw := (h.of_correct hw).1
  moveTo h hpoint hw := (h.moveTo_regular (Tensor.shape_of_frame hpoint) hw).1
  residual h hv := by
    have hframe := Residual.frame_evaluate (Setup.writes_of_inPlace he) hv
    exact { h with residual := hframe.trans h.residual }

end Workspace

/-- An outcome that calls for no event: none yet, or success. -/
theorem Status.quiet {σ : Status} (h : σ = .running ∨ σ = .success) :
    σ ≠ .resetsExhausted ∧ σ.fallsBack = false := by
  rcases h with rfl | rfl <;> decide

namespace Session

variable {b c s s' : Session A P} {q : Quantity A.Real}

/-! ## The way back -/

/-- Arrays that are overwritten are regular, and the best iterate has their frame. -/
def Returnable (setup : Setup A P) (s : Session A P) : Prop :=
  setup.engine = .inPlace → ∃ f, s.work.Regular f ∧ s.monitor.bestIterate.frame = f

/-- A session that can return is in order. -/
theorem Returnable.ordered (h : s.Returnable setup) : s.Ordered setup := by
  intro he
  obtain ⟨f, hf, -⟩ := h he
  exact ⟨f, hf⟩

/-- Where arrays are overwritten, its best iterate is of the frame of the iterate. -/
theorem Returnable.frame (h : s.Returnable setup) (he : setup.engine = .inPlace) :
    s.monitor.bestIterate.frame = s.work.iterate.frame := by
  obtain ⟨f, hf, hbest⟩ := h he
  exact hbest.trans hf.iterate.symm

/-- A solve that has just begun can return to its first iterate. -/
theorem Cleared.returnable (h : s.Cleared) (hs : s.Ordered setup) : s.Returnable setup := by
  intro he
  obtain ⟨f, hf⟩ := hs he
  exact ⟨f, hf, (congrArg Tensor.frame h.point).trans hf.iterate⟩

/-- What sustains regular arrays and a best iterate of their frame leaves the way back open. -/
theorem Returnable.sustained {α : Type} {x : Action A P α} (h : s.Returnable setup)
    (hx : ∀ {f}, Workspace.Enduring setup (Workspace.Regular f) (fun b => b.frame = f) →
      s.Maintains (Workspace.Regular f) (fun b => b.frame = f) →
      Sustains (Workspace.Regular f) (fun b => b.frame = f) x s) :
    Upholds (fun _ => Returnable setup) (Returnable setup) x s := by
  refine .of_outcome_snd fun he => ?_
  obtain ⟨f, hf, hbest⟩ := h he
  obtain ⟨hf', hbest'⟩ := (hx (Workspace.enduring_regular he f) ⟨hf, hbest⟩).outcome_snd
    (fun _ _ h => h) fun _ h => h
  exact ⟨f, hf', hbest'⟩

/-- The first half of a step leaves it able to return. -/
theorem Returnable.probe (h : s.Returnable setup) :
    Upholds (fun _ => Returnable setup) (Returnable setup) (Session.probe setup) s :=
  h.sustained fun hI hs => hI.probe hs

/-- So does the monitor's answer. -/
theorem Returnable.consult (h : s.Returnable setup) :
    Upholds (fun _ => Returnable setup) (Returnable setup) (Session.consult setup) s :=
  h.sustained fun hI hs => hs.consult (hI.iterate hs.arrays)

/-- So does a whole step, whether it answers or fails. -/
theorem Returnable.advance (h : s.Returnable setup) :
    ((Session.advance setup).outcome s).2.Returnable setup :=
  (h.sustained fun hI hs => hI.session_advance hs).outcome_snd (fun _ _ h => h) fun _ h => h

/-! ## What a step notes -/

/-- The lines of a session, its resets and replaced denominators, and whether and why it has ended.
-/
def linesAndVerdict (s : Session A P) : List (Line A.Real) × Int × Int × Status × Bool :=
  (s.transcript, s.resets, s.statistics.guards, s.status, s.stopped)

/-- What keeps the monitor and the lines keeps the lines and the verdict. -/
theorem linesAndVerdict_of_lines {α : Type} {x : Action A P α} (h : x.Keeps monitorAndLines) :
    x.Keeps linesAndVerdict :=
  h.map fun v => (v.2.2, v.1.2.1, v.2.1, v.1.1.2.1, v.1.1.2.2.1)

/-- How the counters and the outcome of a session change by what is noted of a step. -/
inductive Noted (setup : Setup A P) (s s' : Session A P) : Option (Event A.Real) → Prop
  | silent (hresets : s'.resets = s.resets) (hguards : s'.statistics.guards = s.statistics.guards)
    (hstatus : s'.status = s.status ∧ s'.stopped = s.stopped ∨
      s'.status = .success ∧ s'.stopped = true) : Noted setup s s' none
  | reset (hresets : s'.resets = s.resets + 1)
    (hguards : s'.statistics.guards = s.statistics.guards) (hstatus : s'.status = s.status)
    (hstopped : s'.stopped = s.stopped) :
    Noted setup s s' (some (.reset s'.resets setup.options.resetBudget))
  | guarded (hresets : s'.resets = s.resets)
    (hguards : s'.statistics.guards = s.statistics.guards + 1) (hstatus : s'.status = s.status)
    (hstopped : s'.stopped = s.stopped) : Noted setup s s' (some .guarded)
  | exhausted (hresets : s'.resets = s.resets)
    (hguards : s'.statistics.guards = s.statistics.guards)
    (hstatus : s'.status = .resetsExhausted) (hstopped : s'.stopped = true) :
    Noted setup s s' (some (.exhausted setup.options.resetBudget))
  | restored (hresets : s'.resets = s.resets)
    (hguards : s'.statistics.guards = s.statistics.guards)
    (hback : s'.status.fallsBack = true) (hstopped : s'.stopped = true) :
    Noted setup s s' (some (.restored s'.status s'.monitor.best))

namespace Noted

variable {note : Option (Event A.Real)}

/-- A running session that has not ended since runs on. -/
theorem running (h : Noted setup s s' note) (hrunning : s.status = .running)
    (hgoing : s'.stopped = false) : s'.status = .running := by
  cases h with
  | silent _ _ hstatus =>
    rcases hstatus with ⟨hstatus, -⟩ | ⟨-, hstopped⟩
    · exact hstatus.trans hrunning
    · cases hgoing.symm.trans hstopped
  | reset _ _ hstatus => exact hstatus.trans hrunning
  | guarded _ _ hstatus => exact hstatus.trans hrunning
  | exhausted _ _ _ hstopped => cases hgoing.symm.trans hstopped
  | restored _ _ _ hstopped => cases hgoing.symm.trans hstopped

/-- A reset is noted if one was counted. -/
theorem resets_iff (h : Noted setup s s' note) : s'.resets = s.resets + 1 ↔
    note = some (.reset s'.resets setup.options.resetBudget) := by
  cases h with
  | reset hresets => exact ⟨fun _ => rfl, fun _ => hresets⟩
  | silent hkept => exact ⟨fun hresets => by omega, nofun⟩
  | guarded hkept => exact ⟨fun hresets => by omega, nofun⟩
  | exhausted hkept => exact ⟨fun hresets => by omega, nofun⟩
  | restored hkept => exact ⟨fun hresets => by omega, nofun⟩

/-- A replaced denominator is noted if one was counted. -/
theorem guards_iff (h : Noted setup s s' note) :
    s'.statistics.guards = s.statistics.guards + 1 ↔ note = some .guarded := by
  cases h with
  | guarded _ hguards => exact ⟨fun _ => rfl, fun _ => hguards⟩
  | silent _ hkept => exact ⟨fun hguards => by omega, nofun⟩
  | reset _ hkept => exact ⟨fun hguards => by omega, nofun⟩
  | exhausted _ hkept => exact ⟨fun hguards => by omega, nofun⟩
  | restored _ hkept => exact ⟨fun hguards => by omega, nofun⟩

/-- Of a session that was running the end of the budget of resets is noted if the outcome says so.
-/
theorem exhausted_iff (h : Noted setup s s' note) (hrunning : s.status = .running) :
    s'.status = .resetsExhausted ↔ note = some (.exhausted setup.options.resetBudget) := by
  cases h with
  | exhausted _ _ hstatus => exact ⟨fun _ => rfl, fun _ => hstatus⟩
  | silent _ _ hstatus =>
    have hquiet := Status.quiet (hstatus.imp (fun h => h.1.trans hrunning) And.left)
    exact ⟨fun h => absurd h hquiet.1, nofun⟩
  | reset _ _ hstatus =>
    exact ⟨fun h => absurd h (Status.quiet (.inl (hstatus.trans hrunning))).1, nofun⟩
  | guarded _ _ hstatus =>
    exact ⟨fun h => absurd h (Status.quiet (.inl (hstatus.trans hrunning))).1, nofun⟩
  | restored _ _ hback =>
    refine ⟨fun h => ?_, nofun⟩
    rw [h] at hback
    cases hback

/-- The return to the best iterate is noted if the outcome is one that falls back. -/
theorem fallsBack_iff (h : Noted setup s s' note) (hrunning : s.status = .running) :
    s'.status.fallsBack = true ↔ note = some (.restored s'.status s'.monitor.best) := by
  cases h with
  | restored _ _ hback => exact ⟨fun _ => rfl, fun _ => hback⟩
  | silent _ _ hstatus =>
    have hquiet := Status.quiet (hstatus.imp (fun h => h.1.trans hrunning) And.left)
    exact ⟨fun h => absurd (hquiet.2.symm.trans h) Bool.false_ne_true, nofun⟩
  | reset _ _ hstatus =>
    have hquiet := Status.quiet (.inl (hstatus.trans hrunning))
    exact ⟨fun h => absurd (hquiet.2.symm.trans h) Bool.false_ne_true, nofun⟩
  | guarded _ _ hstatus =>
    have hquiet := Status.quiet (.inl (hstatus.trans hrunning))
    exact ⟨fun h => absurd (hquiet.2.symm.trans h) Bool.false_ne_true, nofun⟩
  | exhausted _ _ hstatus =>
    refine ⟨fun h => ?_, nofun⟩
    rw [hstatus] at h
    cases h

end Noted

/-- One session has come from another by what is noted, and by nothing else that could be, and the
lines have grown by that. -/
def Recounts (setup : Setup A P) (s s' : Session A P) : Prop :=
  ∃ note, Noted setup s s' note ∧
    s'.transcript = s.transcript ++ note.toList.map (Line.event s'.statistics.steps)

/-- Nothing is noted if nothing was counted. -/
theorem Noted.of_linesAndVerdict (h : s'.linesAndVerdict = s.linesAndVerdict) :
    Noted setup s s' none := by
  simp only [linesAndVerdict, Prod.mk.injEq] at h
  obtain ⟨-, hresets, hguards, hstatus, hstopped⟩ := h
  exact .silent hresets hguards (.inl ⟨hstatus, hstopped⟩)

/-- Nothing is recounted if no line was added and nothing was counted. -/
theorem Recounts.of_linesAndVerdict (h : s'.linesAndVerdict = s.linesAndVerdict) :
    Recounts setup s s' := by
  have hlines : s'.transcript = s.transcript := congrArg Prod.fst h
  exact ⟨none, .of_linesAndVerdict h, by simp [hlines]⟩

/-- What is noted depends on the lines and the verdict only. -/
theorem Recounts.congr (h : Recounts setup s s') (hc : s.linesAndVerdict = c.linesAndVerdict) :
    Recounts setup c s' := by
  simp only [linesAndVerdict, Prod.mk.injEq] at hc
  obtain ⟨hlines, hresets, hguards, hstatus, hstopped⟩ := hc
  obtain ⟨note, hnote, hsaid⟩ := h
  rw [hlines] at hsaid
  refine ⟨note, ?_, hsaid⟩
  cases hnote with
  | silent h₁ h₂ h₃ =>
    rw [hstatus, hstopped] at h₃
    exact .silent (h₁.trans hresets) (h₂.trans hguards) h₃
  | reset h₁ h₂ h₃ h₄ =>
    rw [hresets] at h₁
    exact .reset h₁ (h₂.trans hguards) (h₃.trans hstatus) (h₄.trans hstopped)
  | guarded h₁ h₂ h₃ h₄ =>
    rw [hguards] at h₂
    exact .guarded (h₁.trans hresets) h₂ (h₃.trans hstatus) (h₄.trans hstopped)
  | exhausted h₁ h₂ h₃ h₄ => exact .exhausted (h₁.trans hresets) (h₂.trans hguards) h₃ h₄
  | restored h₁ h₂ h₃ h₄ => exact .restored (h₁.trans hresets) (h₂.trans hguards) h₃ h₄

/-- An action leads to a session whose lines tell what was done, and if it fails nothing was. -/
abbrev Narrates {α : Type} (x : Action A P α) (setup : Setup A P) (c s : Session A P) : Prop :=
  Upholds (fun _ => Recounts setup c) (fun s' => s'.linesAndVerdict = c.linesAndVerdict) x s

section

variable (hverbosity : setup.verbosity = .number q)
  (hq : q.reaches (M := A.toMagnitudes) 2 = true)

include hverbosity hq

/-- An event adds one line, with the number of the step, if its lines are wanted. -/
theorem outcome_log_of_reaches (what : Event A.Real) (s : Session A P) :
    (log setup what).outcome s = (.ok (),
      { s with transcript := s.transcript ++ [.event s.statistics.steps what] }) := by
  have hlog : (log (setup.saying q) what).outcome s = _ := outcome_log_saying q what s
  rwa [Quantity.utter, if_pos hq, Setup.saying_self hverbosity] at hlog

/-- An event that was noted is said. -/
theorem narrates_log {what : Event A.Real} (hlines : s.transcript = c.transcript)
    (h : ∀ transcript, Noted setup c { s with transcript } (some what)) :
    Narrates (log setup what) setup c s := by
  have hlog := outcome_log_of_reaches hverbosity hq what s
  refine .of_cases (fun _ s' h' => ?_) fun e s' h' => ?_
  · obtain rfl := (Prod.mk.inj (hlog.symm.trans h')).2
    exact ⟨some what, h _, by rw [hlines]; rfl⟩
  · cases hlog.symm.trans h'

/-- A reset is narrated, and so is the stop in its place. -/
theorem narrates_resetOrStop : Narrates (resetOrStop setup) setup s s := by
  refine .get_seq ?_
  by_cases hreached : setup.options.resetBudget.isReachedBy (M := A.toMagnitudes) s.resets = true
  · rw [if_pos hreached]
    exact .modify_seq (narrates_log hverbosity hq rfl fun _ => .exhausted rfl rfl rfl rfl)
  · rw [if_neg hreached]
    refine .seq (m := fun _ s₁ => ∃ w, s₁ = { s with work := w }) (.of_rework (fun w _ => ⟨w, rfl⟩)
      fun _ _ => rfl) fun _ s₁ ⟨w, hw⟩ => ?_
    subst hw
    exact .modify_seq (.get_seq (narrates_log hverbosity hq rfl fun _ => .reset rfl rfl rfl rfl))

/-- A correction is narrated if its denominator was replaced, and is silent otherwise. -/
theorem narrates_correct : Narrates (correct setup) setup s s := by
  refine .get_seq (.attempt_seq (fun _ _ => rfl) fun (w, guarded) _ => .modify_seq ?_)
  cases guarded with
  | true =>
    exact .modify_seq (narrates_log hverbosity hq rfl fun _ => .guarded rfl rfl rfl rfl)
  | false => exact .of_pure (.of_linesAndVerdict rfl)

/-- So is the second half of a step that goes on. -/
theorem narrates_refine : Narrates (refine setup) setup s s := by
  have hrework {g : Workspace A → Attempt A (Workspace A)} {s₁ : Session A P}
      (h₁ : s₁.linesAndVerdict = s.linesAndVerdict) :
      Upholds (fun _ s₂ => s₂.linesAndVerdict = s.linesAndVerdict)
        (fun s₂ => s₂.linesAndVerdict = s.linesAndVerdict) (rework g) s₁ :=
    .of_rework (fun _ _ => h₁) fun _ _ => h₁
  refine .seq (hrework rfl) fun _ s₁ h₁ => .seq (hrework h₁) fun _ s₂ h₂ => .get_seq ?_
  refine .attempt_seq (fun _ _ => h₂) fun small _ => ?_
  cases small with
  | true =>
    exact (narrates_resetOrStop hverbosity hq).mono (fun _ _ h => h.congr h₂) fun _ h => h.trans h₂
  | false =>
    exact (narrates_correct hverbosity hq).mono (fun _ _ h => h.congr h₂) fun _ h => h.trans h₂

variable (hR : ∀ n array u p, ∃ v, (setup.residual.evaluate n array u p).1 = .ok v)

include hR

omit hverbosity hq in
/-- Where the residual function answers, a session can go to every point that fits its arrays. -/
theorem upholds_moveTo (hs : s.Ordered setup) {point : Tensor A}
    (hpoint : setup.engine = .inPlace → point.frame = s.work.iterate.frame) :
    Upholds (fun _ s' => s'.linesAndVerdict = s.linesAndVerdict ∧ s'.monitor = s.monitor)
      (fun _ => False) (moveTo setup point) s := by
  have hanswers : (moveTo setup point).Answers s := by
    obtain ⟨w, hw⟩ := Workspace.Ordered.exists_moveTo hs hpoint
    refine .rework_bind hw (answers_settleOrigin_bind fun origin shared => ?_)
    obtain ⟨v, hv⟩ := hR s.evaluations w.residual w.iterate s.parameter
    exact answers_evaluate_bind hv ⟨(), _, rfl⟩
  obtain ⟨_, s', h⟩ := hanswers
  have hsame := linesAndVerdict_of_lines (monitorAndLines_moveTo setup point)
  have hmonitor : (moveTo setup point).Keeps fun s => s.monitor :=
    (monitorAndVerdict_moveTo setup point).map fun v => v.2.2
  refine .of_cases (fun _ s'' h' => ?_) fun _ s'' h' => ?_
  · exact ⟨hsame.eq_of_outcome h', hmonitor.eq_of_outcome h'⟩
  · cases h.symm.trans h'

/-- The end of a session is narrated if it returns to the best iterate, and is silent otherwise. -/
theorem narrates_conclude (hs : s.Returnable setup)
    (hknown : s.monitor.status = .success ∨ s.monitor.status.fallsBack = true) :
    Narrates (conclude setup) setup s s := by
  have hcommit := Workspace.Ordered.commit hs.ordered
  have hordered := (Workspace.stable_ordered setup).commit hs.ordered hcommit
  refine .modify_seq (.seq (m := fun _ s₂ => s₂ = { s with
    work := { s.work with residual := s.work.trial }
    status := s.monitor.status
    stopped := true }) (.of_rework (fun w hw => ?_) fun e he => ?_) fun _ s₂ h₂ => .get_seq ?_)
  · obtain rfl := Except.ok.inj (hcommit.symm.trans hw)
    rfl
  · cases hcommit.symm.trans he
  · subst h₂
    rcases hknown with hsuccess | hback
    · rw [if_neg (by rw [hsuccess]; exact Bool.false_ne_true)]
      exact .of_pure ⟨none, .silent rfl rfl (.inr ⟨hsuccess, rfl⟩), by simp⟩
    · rw [if_pos hback]
      refine .get_seq (.seq ((upholds_moveTo hR (by exact hordered) (by exact hs.frame)).mono
        (fun _ _ h => h) fun _ h => h.elim) fun _ s₃ h₃ => .modify_seq (.get_seq ?_))
      obtain ⟨hsame, hmonitor⟩ := h₃
      simp only [linesAndVerdict, Prod.mk.injEq] at hsame
      obtain ⟨hlines, hresets, hguards, hstatus, hstopped⟩ := hsame
      refine narrates_log hverbosity hq hlines fun _ => .restored hresets hguards ?_ hstopped
      rw [hstatus]
      exact hback

/-- A step says what is noted of it, wherever it ends. -/
theorem narrates_advance (hs : s.Returnable setup) : Narrates (advance setup) setup s s := by
  have hcounted : ({ s with statistics := s.statistics.bump .steps 1 } :
      Session A P).Returnable setup := hs
  have hprobe : Upholds (fun _ s₁ => s₁.Returnable setup ∧ s₁.linesAndVerdict = s.linesAndVerdict)
      (fun s₁ => s₁.linesAndVerdict = s.linesAndVerdict) (probe setup)
      { s with statistics := s.statistics.bump .steps 1 } := by
    have hsame : Upholds (fun _ s₁ => s₁.linesAndVerdict = s.linesAndVerdict)
        (fun s₁ => s₁.linesAndVerdict = s.linesAndVerdict) (probe setup)
        { s with statistics := s.statistics.bump .steps 1 } :=
      .of_keeps (linesAndVerdict_of_lines (monitorAndLines_probe setup)) fun _ h => h
    exact (hcounted.probe.and hsame).mono (fun _ _ h => h) fun _ h => h.2
  refine .modify_seq (.seq hprobe fun _ s₁ ⟨h₁, hsame⟩ => ?_)
  refine .seq (m := fun stop s₂ => ∃ m, s₁.monitor.check setup.norm s₁.work.trial
    s₁.work.iterate = (.ok stop, m) ∧ s₂ = { s₁ with monitor := m })
    (.of_cases (fun stop s₂ h₂ => ?_) fun e s₂ h₂ => ?_) fun stop s₂ ⟨m, hm, h₂⟩ => ?_
  · rw [outcome_consult] at h₂
    obtain ⟨hstop, rfl⟩ := Prod.mk.inj h₂
    exact ⟨_, Prod.ext hstop rfl, rfl⟩
  · rw [outcome_consult] at h₂
    obtain ⟨-, rfl⟩ := Prod.mk.inj h₂
    exact hsame
  · subst h₂
    have hconsult : (consult setup).outcome s₁ = (.ok stop, { s₁ with monitor := m }) := by
      rw [outcome_consult, hm]
    have hchecked := h₁.consult.of_ok hconsult
    have hsame : ({ s₁ with monitor := m } : Session A P).linesAndVerdict = s.linesAndVerdict :=
      hsame
    cases stop with
    | true =>
      have hknown : m.status = .success ∨ m.status.fallsBack = true := by
        rcases Monitor.check_eq_ok hm with ⟨-, -, hsuccess⟩ | ⟨-, hback⟩
        · exact .inl (congrArg Monitor.status hsuccess)
        · exact .inr (hback rfl)
      exact (narrates_conclude hverbosity hq hR hchecked hknown).mono (fun _ _ h => h.congr hsame)
        fun _ h => h.trans hsame
    | false =>
      exact (narrates_refine hverbosity hq).mono (fun _ _ h => h.congr hsame)
        fun _ h => h.trans hsame

end

end Session

end QuasiNewton
