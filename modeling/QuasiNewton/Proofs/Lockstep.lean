import QuasiNewton.Proofs.Parallel

/-!
# Steps in lockstep

Sessions that are alike answer every step alike and are alike after it, whether it answers or fails.
-/

namespace QuasiNewton.Session

open QuasiNewton.Action

variable {A : Arithmetic} {P : Type} {F : Tensor A → P → Attempt A (Tensor A)}
  {setup setup' : Setup A P} {τ : Tie A} {s t : Session A P}
  {fail : Session A P → Session A P → Prop}

/-! ## Going along the search direction -/

/-- Both sessions find the same direction: with two engines they are tied so that it takes rows. -/
theorem aim_agree (hs : Alike setup τ s t) (hu : τ.Usable setup setup')
    (hfail : ∀ s t, Alike setup τ s t → fail s t) :
    Agree (fun _ => Alike setup { τ with known := .direction :: τ.known }) fail
      (rework (Workspace.aim setup.engine)) (rework (Workspace.aim setup'.engine)) s t := by
  have hcorr := hs.work.aim setup.engine
  have hsame : t.work.aim setup.engine = t.work.aim setup'.engine := by
    rcases hu with he | ⟨hτ, f, hf, -⟩
    · rw [he]
    · exact (hs.regular_right f hf).aim_eq (hs.fillable_right f hf hτ) _ _
  rw [hsame] at hcorr
  exact rework_agree hs hfail hcorr fun f hf w hw => (hs.regular f hf).of_aim hw

/-- Sessions that are alike, with the direction known, find the same step length. -/
theorem stepLength_agree (hs : Alike setup τ s t) (hfail : ∀ s t, Alike setup τ s t → fail s t)
    (hd : .direction ∈ τ.known) :
    Agree (fun _ => Alike setup τ) fail stepLength stepLength s t := by
  have hdirection : s.work.direction = t.work.direction := hs.work.scratch _ hd
  have hlength := s.lineSearch.length_later τ.searches t.searches t.work.iterate t.work.direction
  rw [← hs.searches, ← hs.line] at hlength
  unfold Agree
  rw [outcome_stepLength, outcome_stepLength, hs.work.iterate, hdirection, hlength]
  have hnext (n : Nat) : Alike setup τ { s with searches := τ.searches + n }
      { t with searches := n } := { hs with searches := rfl }
  cases (t.lineSearch.length t.searches t.work.iterate t.work.direction).1 with
  | error e => exact ⟨rfl, hfail _ _ (hnext _)⟩
  | ok length => exact ⟨rfl, hnext _⟩

/-- A count is raised alike. -/
theorem count_agree (hs : Alike setup τ s t) (field : Statistics.Field) :
    Agree (fun _ => Alike setup τ) fail (count field) (count field) s t := by
  refine .of_modify { hs with statistics := ?_ }
  dsimp only
  rw [hs.statistics]

/-- The trial residual is evaluated alike, and is known after that. -/
theorem evaluateTrial_agree (hw : setup.Twins F setup') (hs : Alike setup τ s t)
    (hu : τ.Usable setup setup') (hfail : ∀ s t, Alike setup τ s t → fail s t) :
    Agree (fun _ => Alike setup { τ with known := .trial :: τ.known }) fail (evaluateTrial setup)
      (evaluateTrial setup') s t := by
  unfold evaluateTrial
  refine .get_seq (.seq (evaluate_agree hw hs hu hfail (hs.work.frames .trial)
    fun f hf => (hs.regular f hf).trial) fun v s' t' h => .modify_seq ?_)
  obtain ⟨hv, hs'⟩ := h
  exact count_agree (hs'.withWork (hs'.work.setScratch .trial v) fun f hf =>
    ⟨{ hs'.regular f hf with trial := hv f hf }, rfl⟩) _

/-- Before the monitor is asked both sessions know where they went and what the residual is there.
-/
theorem probe_agree (hw : setup.Twins F setup') (hs : Alike setup τ s t)
    (hu : τ.Usable setup setup') (hfail : ∀ s t, Alike setup τ s t → fail s t) :
    Agree (fun _ => Alike setup { τ with known := .trial :: .direction :: τ.known }) fail
      (probe setup) (probe setup') s t := by
  have hfail' : ∀ s t, Alike setup { τ with known := .direction :: τ.known } s t → fail s t :=
    fun s t h => hfail s t (h.forget (List.subset_cons_self _ _))
  have hd : Workspace.Scratch.direction ∈ Workspace.Scratch.direction :: τ.known :=
    List.mem_cons_self
  unfold probe
  refine .seq (aim_agree hs hu hfail) fun _ s₁ t₁ h₁ => ?_
  refine .seq (stepLength_agree h₁ hfail' hd) fun length s₂ t₂ h₂ => ?_
  refine .seq (move_agree h₂ hu hfail' _ (Workspace.uniform_advance length)
    fun e => h₂.work.advance e hd length) fun _ s₃ t₃ h₃ => ?_
  refine .seq (settleOrigin_agree h₃) fun _ s₄ t₄ h₄ => ?_
  exact evaluateTrial_agree hw h₄ hu hfail'

/-- The monitor is asked the same in both and answers the same. -/
theorem consult_agree (hw : setup.Twins F setup') (hs : Alike setup τ s t)
    (hfail : ∀ s t, Alike setup τ s t → fail s t) (hb : ∀ f ∈ τ.best, f ∈ τ.frame)
    (ht : .trial ∈ τ.known) :
    Agree (fun _ => Alike setup τ) fail (consult setup) (consult setup') s t := by
  have htrial : s.work.trial = t.work.trial := hs.work.scratch _ ht
  have hbest : ∀ f ∈ τ.best,
      (s.monitor.check setup.norm s.work.trial s.work.iterate).2.bestIterate.frame = f := by
    intro f hf
    rcases s.monitor.bestIterate_check setup.norm s.work.trial s.work.iterate with h | h
    · rw [h, hs.best f hf]
    · rw [h, (hs.regular f (hb f hf)).iterate]
  unfold Agree
  rw [outcome_consult, outcome_consult, ← hw.norm, ← hs.monitor, ← htrial, ← hs.work.iterate]
  have hnext : Alike setup τ
      { s with monitor := (s.monitor.check setup.norm s.work.trial s.work.iterate).2 }
      { t with monitor := (s.monitor.check setup.norm s.work.trial s.work.iterate).2 } :=
    { hs with monitor := rfl, best := hbest }
  cases (s.monitor.check setup.norm s.work.trial s.work.iterate).1 with
  | error e => exact ⟨rfl, hfail _ _ hnext⟩
  | ok stop => exact ⟨rfl, hnext⟩

/-! ## Stops -/

/-- A point for regular arrays is of their shape; with two engines it is also of their kind. -/
theorem moveTo_agree (hw : setup.Twins F setup') (hs : Alike setup τ s t)
    (hu : τ.Usable setup setup') (hfail : ∀ s t, Alike setup τ s t → fail s t) {point : Tensor A}
    (hshape : ∀ f ∈ τ.frame, point.shape = f.shape)
    (hkind : setup.engine = setup'.engine ∨ ∀ f ∈ τ.frame, point.frame = f) :
    Agree (fun _ => Alike setup τ) fail (moveTo setup point) (moveTo setup' point) s t := by
  have hcorr : Attempt.Corresponds (Workspace.Alike τ.known) (s.work.moveTo setup.engine point)
      (t.work.moveTo setup'.engine point) := by
    have hmove := hs.work.moveTo setup.engine point
    by_cases he : setup.engine = setup'.engine
    · rwa [← he]
    · obtain ⟨-, f, hf, -⟩ := hu.resolve_left he
      have hpoint := hkind.resolve_left he f hf
      have ht := hs.regular_right f hf
      rwa [ht.moveTo hpoint setup'.engine, ← ht.moveTo hpoint setup.engine]
  have hregular : ∀ f ∈ τ.frame, ∀ w, s.work.moveTo setup.engine point = .ok w →
      w.Regular f ∧ w.fillable = s.work.fillable :=
    fun f hf w hw => (hs.regular f hf).moveTo_regular (hshape f hf) hw
  unfold moveTo
  refine .seq (rework_agree hs hfail hcorr hregular) fun _ s₁ t₁ h₁ => ?_
  refine .seq (settleOrigin_agree h₁) fun _ s₂ t₂ h₂ => .get_seq ?_
  have hframes : s₂.work.residual.frame = t₂.work.residual.frame := by rw [h₂.work.residual]
  refine .seq (evaluate_agree hw h₂ hu hfail hframes fun f hf => (h₂.regular f hf).residual)
    fun v s₃ t₃ h₃ => ?_
  obtain ⟨hv, h₃⟩ := h₃
  exact .of_modify (h₃.withWork (h₃.work.withResidual rfl) fun f hf =>
    ⟨{ h₃.regular f hf with residual := hv f hf }, rfl⟩)

/-- The return to the best iterate leaves sessions alike, if that is of the frame of the arrays. -/
theorem restoreBest_agree (hw : setup.Twins F setup') (hs : Alike setup τ s t)
    (hu : τ.Usable setup setup') (hfail : ∀ s t, Alike setup τ s t → fail s t)
    (hb : τ.best = τ.frame) :
    Agree (fun _ => Alike setup τ) fail (restoreBest setup) (restoreBest setup') s t := by
  have hbest : ∀ f ∈ τ.frame, s.monitor.bestIterate.frame = f := fun f hf => hs.best f (hb ▸ hf)
  unfold restoreBest
  refine .get_seq ?_
  rw [← hs.monitor]
  refine .seq (moveTo_agree hw hs hu hfail (fun f hf => Tensor.shape_of_frame (hbest f hf))
    (.inr hbest)) fun _ s₁ t₁ h₁ => ?_
  refine .seq (count_agree h₁ _) fun _ s₂ t₂ h₂ => .get_seq ?_
  exact log_agree hw h₂ hfail (by rw [h₂.status, h₂.monitor])

/-- The end of a session leaves sessions alike, with or without a return. -/
theorem conclude_agree (hw : setup.Twins F setup') (hs : Alike setup τ s t)
    (hu : τ.Usable setup setup') (hfail : ∀ s t, Alike setup τ s t → fail s t)
    (hb : τ.best = τ.frame) (ht : .trial ∈ τ.known) :
    Agree (fun _ => Alike setup τ) fail (conclude setup) (conclude setup') s t := by
  unfold conclude
  have h₁ : Alike setup τ { s with status := s.monitor.status, stopped := true }
      { t with status := t.monitor.status, stopped := true } :=
    { hs with status := congrArg Monitor.status hs.monitor, stopped := rfl }
  refine .modify_seq (.seq (move_agree h₁ hu hfail _ Workspace.uniform_commit
    fun e => h₁.work.commit e ht) fun _ s₂ t₂ h₂ => .get_seq ?_)
  rw [← h₂.status]
  split
  · exact restoreBest_agree hw h₂ hu hfail hb
  · exact .of_pure rfl h₂

/-! ## Going on -/

/-- So does a reset, or the stop in its place. -/
theorem resetOrStop_agree (hw : setup.Twins F setup') (hs : Alike setup τ s t)
    (hu : τ.Usable setup setup') (hfail : ∀ s t, Alike setup τ s t → fail s t) :
    Agree (fun _ => Alike setup τ) fail (resetOrStop setup) (resetOrStop setup') s t := by
  unfold resetOrStop
  rw [← hw.resetBudget]
  refine .get_seq ?_
  rw [← hs.resets]
  split
  · have h₁ : Alike setup τ { s with status := .resetsExhausted, stopped := true }
        { t with status := .resetsExhausted, stopped := true } :=
      { hs with status := rfl, stopped := rfl }
    exact .modify_seq (log_agree hw h₁ hfail rfl)
  · refine .seq (move_agree hs hu hfail _ Workspace.uniform_reset hs.work.reset)
      fun _ s₁ t₁ h₁ => ?_
    have h₂ : Alike setup τ { s₁ with resets := s₁.resets + 1 }
        { t₁ with resets := t₁.resets + 1 } :=
      { h₁ with resets := congrArg (· + 1) h₁.resets }
    exact .modify_seq (.get_seq (log_agree hw h₂ hfail (by rw [h₂.resets])))

/-- So does a correction, if direction and change are known. -/
theorem correct_agree (hw : setup.Twins F setup') (hs : Alike setup τ s t)
    (hu : τ.Usable setup setup') (hfail : ∀ s t, Alike setup τ s t → fail s t)
    (hd : .direction ∈ τ.known) (hc : .change ∈ τ.known) :
    Agree (fun _ => Alike setup τ) fail (correct setup) (correct setup') s t := by
  have hcorr := hs.work.correct setup.engine hd hc
  have hsame : t.work.correct setup'.engine = t.work.correct setup.engine := by
    rcases hu with he | ⟨hτ, f, hf, hA⟩
    · rw [he]
    · exact (hs.regular_right f hf).correct_eq (hs.fillable_right f hf hτ) hA _ _
  rw [← hsame] at hcorr
  unfold correct
  refine .get_seq (.attempt_seq hcorr (hfail s t hs) fun x y hx _ hxy => ?_)
  obtain ⟨w, guarded⟩ := x
  obtain ⟨w', guarded'⟩ := y
  obtain ⟨hww, rfl⟩ : w.Alike _ w' ∧ guarded = guarded' := hxy
  have h₁ : Alike setup τ { s with work := w } { t with work := w' } := by
    refine hs.withWork (hww.mono fun a ha => ?_) fun f hf => (hs.regular f hf).of_correct hx
    exact List.mem_cons_of_mem _ (List.mem_cons_of_mem _ (List.mem_cons_of_mem _ ha))
  refine .modify_seq ?_
  split
  · exact .seq (count_agree h₁ _) fun _ s₂ t₂ h₂ => log_agree hw h₂ hfail rfl
  · exact .of_pure rfl h₁

/-- So does the second half of a step that goes on. -/
theorem refine_agree (hw : setup.Twins F setup') (hs : Alike setup τ s t)
    (hu : τ.Usable setup setup') (hfail : ∀ s t, Alike setup τ s t → fail s t)
    (hd : .direction ∈ τ.known) (ht : .trial ∈ τ.known) :
    Agree (fun _ => Alike setup τ) fail (refine setup) (refine setup') s t := by
  have hfail' : ∀ s t, Alike setup { τ with known := .change :: τ.known } s t → fail s t :=
    fun s t h => hfail s t (h.forget (List.subset_cons_self _ _))
  unfold refine
  refine .seq (move_agree hs hu hfail _ Workspace.uniform_compare
    fun e => hs.work.compare e ht) fun _ s₁ t₁ h₁ => ?_
  refine .seq (move_agree h₁ hu hfail' _ Workspace.uniform_commit
    fun e => h₁.work.commit e (List.mem_cons_of_mem _ ht)) fun _ s₂ t₂ h₂ => .get_seq ?_
  have hdirection : s₂.work.direction = t₂.work.direction :=
    h₂.work.scratch _ (List.mem_cons_of_mem _ hd)
  have hchange : s₂.work.change = t₂.work.change := h₂.work.scratch _ List.mem_cons_self
  rw [← h₂.resetCheck, ← hdirection, ← hchange]
  refine .seq (.of_attempt rfl (fun _ _ => h₂) (hfail' _ _ h₂)) fun b s₃ t₃ h₃ => ?_
  have hend : Agree (fun _ => Alike setup { τ with known := .change :: τ.known }) fail
      (if b then resetOrStop setup else correct setup)
      (if b then resetOrStop setup' else correct setup') s₃ t₃ := by
    split
    · exact resetOrStop_agree hw h₃ hu hfail'
    · exact correct_agree hw h₃ hu hfail' (List.mem_cons_of_mem _ hd) List.mem_cons_self
  exact hend.mono (fun _ _ _ h => h.forget (List.subset_cons_self _ _)) fun _ _ h => h

/-! ## Whole steps -/

/-- So does a whole step, which answers the same. -/
theorem advance_agree (hw : setup.Twins F setup') (hs : Alike setup τ s t)
    (hu : τ.Usable setup setup') (hfail : ∀ s t, Alike setup τ s t → fail s t)
    (hb : τ.best = τ.frame) :
    Agree (fun _ => Alike setup τ) fail (advance setup) (advance setup') s t := by
  have hsub : τ.known ⊆ Workspace.Scratch.trial :: .direction :: τ.known := fun a ha =>
    List.mem_cons_of_mem _ (List.mem_cons_of_mem _ ha)
  have hfail' : ∀ s t, Alike setup { τ with known := .trial :: .direction :: τ.known } s t →
      fail s t := fun s t h => hfail s t (h.forget hsub)
  have ht : Workspace.Scratch.trial ∈ Workspace.Scratch.trial :: .direction :: τ.known :=
    List.mem_cons_self
  have hd : Workspace.Scratch.direction ∈ Workspace.Scratch.trial :: .direction :: τ.known :=
    List.mem_cons_of_mem _ List.mem_cons_self
  have hbest : ∀ f ∈ τ.best, f ∈ τ.frame := fun f hf => hb ▸ hf
  unfold advance
  refine .seq (count_agree hs _) fun _ s₁ t₁ h₁ => ?_
  refine .seq (probe_agree hw h₁ hu hfail) fun _ s₂ t₂ h₂ => ?_
  refine .seq (consult_agree hw h₂ hfail' hbest ht) fun stop s₃ t₃ h₃ => ?_
  have hend : Agree (fun _ => Alike setup { τ with known := .trial :: .direction :: τ.known }) fail
      (if stop then conclude setup else refine setup)
      (if stop then conclude setup' else refine setup') s₃ t₃ := by
    split
    · exact conclude_agree hw h₃ hu hfail' hb ht
    · exact refine_agree hw h₃ hu hfail' hd ht
  exact hend.mono (fun _ _ _ h => h.forget hsub) fun _ _ h => h

/-- Sessions that are alike are alike after a step. -/
theorem step_agree (hw : setup.Twins F setup') (hs : Alike setup τ s t)
    (hu : τ.Usable setup setup') (hfail : ∀ s t, Alike setup τ s t → fail s t)
    (hb : τ.best = τ.frame) :
    Agree (fun _ => Alike setup τ) fail (step setup) (step setup') s t := by
  unfold step
  refine .get_seq ?_
  rw [← hs.stopped]
  split
  · exact .of_pure rfl hs
  · exact advance_agree hw hs hu hfail hb

end QuasiNewton.Session
