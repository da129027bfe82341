import QuasiNewton.Proofs.Invariants

/-!
# Attempted steps

Steps and runs, whether they answer or fail, take a session through the sessions that single steps
lead to, each tried once. Only at the end of a budget a session leaves them.
-/

namespace QuasiNewton

open QuasiNewton.Action

variable {A : Arithmetic} {P : Type} {F : Tensor A → P → Attempt A (Tensor A)} {setup : Setup A P}

/-- The tie of sessions that differ in their lines only. -/
def Tie.lines : Tie A where
  known := Workspace.Scratch.all
  searches := 0
  calls := 0
  earlier := none
  frame := none
  best := none
  fillable := false

namespace Session

variable {b s : Session A P} {k : Nat}

/-- The session after a number of steps, each tried once. -/
def attempts (setup : Setup A P) (b : Session A P) : Nat → Session A P
  | 0 => b
  | k + 1 => ((step setup).outcome (attempts setup b k)).2

/-- A step of a session that has not ended is an advance. -/
theorem attempts_succ (h : (attempts setup b k).stopped = false) :
    attempts setup b (k + 1) = ((advance setup).outcome (attempts setup b k)).2 :=
  congrArg Prod.snd (outcome_step_of_not_stopped setup h)

/-- As long as no session on the way has ended, every attempt counts as a step and keeps the
settings. -/
theorem settingsAndSteps_attempts (h : ∀ j < k, (attempts setup b j).stopped = false) :
    (attempts setup b k).settingsAndSteps = (b.settings, b.statistics.steps + k) := by
  induction k with
  | zero => simp [attempts, settingsAndSteps]
  | succ k ih =>
    obtain ⟨hsettings, hsteps⟩ := Prod.mk.inj (ih fun j hj => h j (Nat.lt_succ_of_lt hj))
    rw [attempts_succ (h k (Nat.lt_succ_self k)), settingsAndSteps_advance, hsettings, hsteps,
      Int.add_assoc]
    rfl

/-- The settings at the start are those all the way. -/
theorem settings_attempts (h : ∀ j < k, (attempts setup b j).stopped = false) :
    (attempts setup b k).settings = b.settings :=
  (Prod.mk.inj (settingsAndSteps_attempts h)).1

/-- A session has come from another by a number of steps, but for the lines reported. -/
structure Follows (setup : Setup A P) (b : Session A P) (k : Nat) (s : Session A P) : Prop where
  going : ∀ j < k, (attempts setup b j).stopped = false
  alike : Alike setup Tie.lines s (attempts setup b k)

/-- It has kept the settings and counted the steps. -/
theorem Follows.settingsAndSteps (h : Follows setup b k s) :
    s.settingsAndSteps = (b.settings, b.statistics.steps + k) := by
  have hline : (attempts setup b k).lineSearch = s.lineSearch :=
    h.alike.line.trans s.lineSearch.later_zero
  rw [← settingsAndSteps_attempts h.going]
  unfold Session.settingsAndSteps settings
  rw [h.alike.parameter, h.alike.resetCheck, hline, h.alike.monitor, h.alike.tolerances,
    h.alike.budget, h.alike.statistics]

/-- A session has come from another by steps, or has used up its budget. -/
def Course (setup : Setup A P) (b s : Session A P) : Prop :=
  (∃ k, Follows setup b k s) ∨ (s.stopped = true ∧ s.status = .iterationsExhausted)

/-- After every history of a session that was started a course can begin. -/
theorem follows_zero (hR : setup.residual.Computes F) (hF : Residual.Conforms F)
    {request : Request A P} {n : Nat} (hstart : start setup request = (.ok s, n))
    (ops : List (Operation A P)) :
    Follows setup (after setup s ops) 0 (after setup s ops) where
  going := fun j hj => absurd hj (Nat.not_lt_zero j)
  alike := by
    have hitself := (regular_iff_alike.mp (regular_start hR hF hstart)).loosen
    have hafter := (after_agree_loose (.refl hR hF) rfl hitself ops).2
    exact
      { hafter with
        transcript := fun l hl => by cases hl
        fillable := fun f hf => by cases hf }

/-- Steps and runs keep to a course, whether they answer or fail. -/
theorem invariant_course (hR : setup.residual.Computes F) (hF : Residual.Conforms F)
    (b : Session A P) : Invariant setup (Course setup b) (Course setup b) where
  advance := by
    rintro s (⟨k, hgoing, halike⟩ | ⟨hstopped, -⟩) hs
    · have hadvance := advance_agree (.refl hR hF) halike (.inl rfl) (fun _ _ h => h) rfl
      have hnext : Course setup b ((advance setup).outcome s).2 := by
        refine .inl ⟨k + 1, fun j hj => ?_, ?_⟩
        · rcases Nat.lt_succ_iff_lt_or_eq.mp hj with hj | rfl
          · exact hgoing j hj
          · exact halike.stopped.symm.trans hs
        · rw [attempts_succ (halike.stopped.symm.trans hs)]
          exact hadvance.after (fun _ _ _ h => h) fun _ _ h => h
      refine .of_cases (fun _ s' h => ?_) fun _ s' h => ?_
      · rw [h] at hnext
        exact hnext
      · rw [h] at hnext
        exact hnext
    · exact absurd (hs.symm.trans hstopped) Bool.false_ne_true
  exhaust := fun _ _ => .inr ⟨rfl, rfl⟩
  lines := by
    rintro s transcript (⟨k, hgoing, halike⟩ | hspent)
    · exact .inl ⟨k, hgoing, { halike with transcript := fun l hl => by cases hl }⟩
    · exact .inr hspent
  weaken := fun h => h

end Session

end QuasiNewton
