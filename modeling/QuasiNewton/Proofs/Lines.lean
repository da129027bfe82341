import QuasiNewton.Proofs.Attempts

/-!
# Lines are not read

No step looks at the lines reported before it: with other lines in front of it, it answers the same
and leads to the same session but for the lines.
-/

namespace QuasiNewton

variable {A : Arithmetic} {P : Type} {α β : Type}

namespace Action

/-- With other lines the action answers the same and leads to the same session but for the lines. -/
def IgnoresLines (x : Action A P α) : Prop :=
  ∀ s transcript, ∃ transcript',
    x.outcome { s with transcript } =
      ((x.outcome s).1, { (x.outcome s).2 with transcript := transcript' })

namespace IgnoresLines

variable {x : Action A P α} {f : α → Action A P β}

/-- An action that does nothing reads no lines. -/
theorem of_pure (a : α) : (pure a : Action A P α).IgnoresLines := fun _ l => ⟨l, rfl⟩

/-- Nor does an attempt. -/
theorem of_attempt (y : Attempt A α) : (Session.attempt y : Action A P α).IgnoresLines := by
  intro s l
  rw [Session.outcome_attempt, Session.outcome_attempt]
  exact ⟨l, rfl⟩

/-- A change reads no lines if with other lines it leads to the same but for the lines. -/
theorem of_modify {g : Session A P → Session A P}
    (h : ∀ s transcript, ∃ transcript',
      g { s with transcript } = { g s with transcript := transcript' }) :
    (modify g : Action A P Unit).IgnoresLines := by
  intro s l
  obtain ⟨l', hl'⟩ := h s l
  exact ⟨l', congrArg (Prod.mk (Except.ok ())) hl'⟩

/-- Two actions in a row read no lines if neither does. -/
theorem bind (hx : x.IgnoresLines) (hf : ∀ a, (f a).IgnoresLines) : (x >>= f).IgnoresLines := by
  intro s l
  obtain ⟨l₁, h₁⟩ := hx s l
  rw [outcome_bind, outcome_bind, h₁]
  rcases x.outcome s with ⟨e | a, s₁⟩
  · exact ⟨l₁, rfl⟩
  · exact hf a s₁ l₁

/-- What follows a look at the session reads no lines if it is the same for all lines. -/
theorem get_bind {f : Session A P → Action A P β} (hf : ∀ s, (f s).IgnoresLines)
    (hread : ∀ s transcript, f { s with transcript } = f s) : (get >>= f).IgnoresLines := by
  intro s l
  change ∃ l', (f { s with transcript := l }).outcome { s with transcript := l } = _
  rw [hread]
  exact hf s s l

/-- A change of the arrays reads no lines. -/
theorem of_rework (g : Workspace A → Attempt A (Workspace A)) :
    (Session.rework g : Action A P Unit).IgnoresLines := by
  refine .get_bind (fun _ => ?_) fun _ _ => rfl
  exact .bind (.of_attempt _) fun _ => .of_modify fun _ l => ⟨l, rfl⟩

end IgnoresLines

end Action

namespace Session

open QuasiNewton.Action

/-! ## Parts of a step -/

/-- A search for a step length reads no lines. -/
theorem ignoresLines_stepLength : (stepLength : Action A P A.Real).IgnoresLines := by
  refine .get_bind (fun _ => ?_) fun _ _ => rfl
  exact .bind (.of_modify fun _ l => ⟨l, rfl⟩) fun _ => .of_attempt _

/-- Nor does a count. -/
theorem ignoresLines_count (field : Statistics.Field) :
    (count field : Action A P Unit).IgnoresLines :=
  .of_modify fun _ l => ⟨l, rfl⟩

variable (setup : Setup A P)

/-- A line about an event is added whatever lines there are. -/
theorem ignoresLines_log (what : Event A.Real) : (log setup what).IgnoresLines := by
  have hspeaks : (speaks setup 2).IgnoresLines := .bind (.of_attempt _) fun _ => .of_pure _
  refine .bind hspeaks fun b => ?_
  split
  · exact .get_bind (fun s => .of_modify fun _ l => ⟨_, rfl⟩) fun _ _ => rfl
  · exact .of_pure ()

/-- The caller's array is settled whatever lines there are. -/
theorem ignoresLines_settleOrigin : (settleOrigin setup).IgnoresLines := by
  refine .of_modify fun s l => ⟨l, ?_⟩
  cases setup.engine with
  | inPlace =>
    dsimp only
    split <;> rfl
  | rebuilding => rfl

/-- An evaluation reads no lines. -/
theorem ignoresLines_evaluate (array : Tensor A) : (evaluate setup array).IgnoresLines := by
  refine .get_bind (fun _ => ?_) fun _ _ => rfl
  exact .bind (.of_modify fun _ l => ⟨l, rfl⟩) fun _ => .of_attempt _

/-- Nor does the evaluation at the point just reached. -/
theorem ignoresLines_evaluateTrial : (evaluateTrial setup).IgnoresLines := by
  refine .get_bind (fun _ => ?_) fun _ _ => rfl
  refine .bind (ignoresLines_evaluate setup _) fun _ => ?_
  exact .bind (.of_modify fun _ l => ⟨l, rfl⟩) fun _ => ignoresLines_count _

/-- A move to a point reads no lines. -/
theorem ignoresLines_moveTo (point : Tensor A) : (moveTo setup point).IgnoresLines := by
  refine .bind (.of_rework _) fun _ => .bind (ignoresLines_settleOrigin setup) fun _ => ?_
  refine .get_bind (fun _ => ?_) fun _ _ => rfl
  exact .bind (ignoresLines_evaluate setup _) fun _ => .of_modify fun _ l => ⟨l, rfl⟩

/-- The first half of a step reads no lines. -/
theorem ignoresLines_probe : (probe setup).IgnoresLines := by
  refine .bind (.of_rework _) fun _ => .bind ignoresLines_stepLength fun length => ?_
  refine .bind (.of_rework _) fun _ => .bind (ignoresLines_settleOrigin setup) fun _ => ?_
  exact ignoresLines_evaluateTrial setup

/-- A check reads no lines. -/
theorem ignoresLines_consult : (consult setup).IgnoresLines := by
  refine .get_bind (fun _ => ?_) fun _ _ => rfl
  exact .bind (.of_modify fun _ l => ⟨l, rfl⟩) fun _ => .of_attempt _

/-- The return to the best iterate reads no lines. -/
theorem ignoresLines_restoreBest : (restoreBest setup).IgnoresLines := by
  refine .get_bind (fun _ => ?_) fun _ _ => rfl
  refine .bind (ignoresLines_moveTo setup _) fun _ => .bind (ignoresLines_count _) fun _ => ?_
  exact .get_bind (fun _ => ignoresLines_log setup _) fun _ _ => rfl

/-- The end of a solve reads no lines. -/
theorem ignoresLines_conclude : (conclude setup).IgnoresLines := by
  have hend : (modify fun s => { s with status := s.monitor.status, stopped := true } :
      Action A P Unit).IgnoresLines := .of_modify fun _ l => ⟨l, rfl⟩
  refine .bind hend fun _ => .bind (.of_rework _) fun _ => .get_bind (fun s => ?_) fun _ _ => rfl
  split
  · exact ignoresLines_restoreBest setup
  · exact .of_pure ()

/-- A reset, or the stop in its place, reads no lines. -/
theorem ignoresLines_resetOrStop : (resetOrStop setup).IgnoresLines := by
  refine .get_bind (fun s => ?_) fun _ _ => rfl
  split
  · exact .bind (.of_modify fun _ l => ⟨l, rfl⟩) fun _ => ignoresLines_log setup _
  · refine .bind (.of_rework _) fun _ => .bind (.of_modify fun _ l => ⟨l, rfl⟩) fun _ => ?_
    exact .get_bind (fun _ => ignoresLines_log setup _) fun _ _ => rfl

/-- A correction reads no lines. -/
theorem ignoresLines_correct : (correct setup).IgnoresLines := by
  refine .get_bind (fun s => ?_) fun _ _ => rfl
  refine .bind (.of_attempt _) fun (_, guarded) => ?_
  refine .bind (.of_modify fun _ l => ⟨l, rfl⟩) fun _ => ?_
  split
  · exact .bind (ignoresLines_count _) fun _ => ignoresLines_log setup _
  · exact .of_pure ()

/-- The second half of a step that goes on reads no lines. -/
theorem ignoresLines_refine : (refine setup).IgnoresLines := by
  refine .bind (.of_rework _) fun _ => .bind (.of_rework _) fun _ => ?_
  refine .get_bind (fun s => .bind (.of_attempt _) fun small => ?_) fun _ _ => rfl
  split
  · exact ignoresLines_resetOrStop setup
  · exact ignoresLines_correct setup

/-- A step that is taken reads no lines. -/
theorem ignoresLines_advance : (advance setup).IgnoresLines := by
  refine .bind (ignoresLines_count _) fun _ => .bind (ignoresLines_probe setup) fun _ => ?_
  refine .bind (ignoresLines_consult setup) fun stop => ?_
  split
  · exact ignoresLines_conclude setup
  · exact ignoresLines_refine setup

/-- A step reads no lines. -/
theorem ignoresLines_step : (step setup).IgnoresLines := by
  refine .get_bind (fun s => ?_) fun _ _ => rfl
  split
  · exact .of_pure ()
  · exact ignoresLines_advance setup

/-! ## Steps in a row -/

/-- With other lines in front of them, the sessions that steps lead to are the same but for the
lines. -/
theorem attempts_lines (s : Session A P) (transcript : List (Line A.Real)) (k : Nat) :
    ∃ transcript', attempts setup { s with transcript } k =
      { attempts setup s k with transcript := transcript' } := by
  induction k with
  | zero => exact ⟨transcript, rfl⟩
  | succ k ih =>
    obtain ⟨l, hl⟩ := ih
    obtain ⟨l', hl'⟩ := ignoresLines_step setup (attempts setup s k) l
    refine ⟨l', ?_⟩
    rw [attempts, hl, hl']
    rfl

variable {setup}

/-- Steps of a session are those of the session that its first step leads to. -/
theorem attempts_succ_left (s : Session A P) (k : Nat) :
    attempts setup s (k + 1) = attempts setup ((step setup).outcome s).2 k := by
  induction k with
  | zero => rfl
  | succ k ih => rw [attempts, ih, attempts]

/-- A session that has ended stays as it is. -/
theorem attempts_of_stopped {s : Session A P} (h : s.stopped = true) (k : Nat) :
    attempts setup s k = s := by
  induction k with
  | zero => rfl
  | succ k ih => rw [attempts, ih, outcome_step_of_stopped setup h]

end Session

end QuasiNewton
