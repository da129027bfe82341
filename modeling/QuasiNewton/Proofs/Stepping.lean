import QuasiNewton.Proofs.Allowances
import QuasiNewton.Proofs.Renewal

/-!
# Steps taken by hand

A caller who takes steps by hand before a run, within the budget of steps, gets the same answer and
the same session but for the lines as with the run alone, unless the run alone fails in reporting
its progress, which steps by hand do not report. Reporting asks the norm for the residual of the
moment; as norms keep no count of their calls, it matters only where the norm refuses. Together with
larger budgets: neither budgets that are not used up nor the style of stepping change an answer.
-/

namespace QuasiNewton

open QuasiNewton.Action

variable {A : Arithmetic} {P : Type} {α : Type} {setup : Setup A P} {s s' : Session A P}

namespace Action.IgnoresLines

/-- What does not read where a session is cut does not read its lines. -/
theorem of_oblivious {x : Action A P α} (h : ∀ s : Session A P, Oblivious s.cut x x s) :
    x.IgnoresLines := by
  intro s l
  obtain ⟨l', hl'⟩ := h s l
  have hcut : (x.outcome s).2.cut = s.cut := (h s).cut_eq rfl
  refine ⟨l', hl'.trans ?_⟩
  rw [← hcut]
  rfl

end Action.IgnoresLines

namespace Session

/-- The lines about the progress of a run do not read the lines before them. -/
theorem ignoresLines_progress (setup : Setup A P) : (progress setup).IgnoresLines :=
  .of_oblivious fun _ => oblivious_progress setup

/-- Nor does the loop of a run. -/
theorem ignoresLines_iterate (setup : Setup A P) (fuel : Nat) :
    (iterate setup fuel).IgnoresLines := by
  induction fuel with
  | zero => exact .of_pure ()
  | succ fuel ih =>
    refine .get_bind (fun s => ?_) fun _ _ => rfl
    split
    · exact .bind (ignoresLines_step setup) fun _ => .bind (ignoresLines_progress setup) fun _ => ih
    · exact .of_pure ()

/-- Nor does any number of steps. -/
theorem ignoresLines_steps (setup : Setup A P) (n : Nat) : (steps setup n).IgnoresLines := by
  induction n with
  | zero => exact .of_pure ()
  | succ n ih => exact .bind (ignoresLines_step setup) fun _ => ih

/-- The loop of a run, the end of its budget and its report. -/
def finish (setup : Setup A P) (fuel : Nat) : Action A P (Report A) := do
  iterate setup fuel
  exhaust
  close setup

/-- They read no lines. -/
theorem ignoresLines_finish (setup : Setup A P) (fuel : Nat) : (finish setup fuel).IgnoresLines :=
  .bind (ignoresLines_iterate setup fuel) fun _ => .bind
    (.of_modify fun s l => ⟨l, by dsimp only; split <;> rfl⟩) fun _ => ignoresLines_close setup

/-- A run that can be announced goes on from the session with the lines of that. -/
theorem outcome_run (h : (announce setup).outcome s = (.ok (), s')) :
    (run setup).outcome s = (finish setup (s.budget.ceiling (M := A.toMagnitudes))).outcome s' := by
  have hsettings := ((keeps_announce setup).map settings).eq_of_outcome h
  rw [run, outcome_bind, h]
  dsimp only
  rw [outcome_get_bind, show s'.budget = s.budget from congrArg Settings.budget hsettings]
  rfl

/-- A turn of the loop is a step, the line about it and the rest of the loop. -/
theorem outcome_finish_succ (hcontinue : s.mayContinue = true) (fuel : Nat) :
    (finish setup (fuel + 1)).outcome s =
      (step setup >>= fun _ => progress setup >>= fun _ => finish setup fuel).outcome s := by
  rw [finish, outcome_bind, outcome_iterate_succ setup hcontinue, ← outcome_bind]
  simp only [bind_assoc, finish]

/-- The norm answers wherever a run reports its progress: after every tenth of its steps. -/
def Measured (setup : Setup A P) (s : Session A P) : Prop :=
  ∀ k, (∀ j ≤ k, (attempts setup s j).mayContinue = true ∧
      ((step setup).outcome (attempts setup s j)).1 = .ok ()) →
    (attempts setup s (k + 1)).statistics.steps % 10 = 0 →
    ∃ x, setup.norm (attempts setup s (k + 1)).work.residual = .ok x

/-- Whether the norm answers does not depend on the lines. -/
theorem Measured.lines (hs : Measured setup s) (transcript : List (Line A.Real)) :
    Measured setup { s with transcript } := by
  intro k hgoes hdue
  obtain ⟨l, hl⟩ := attempts_lines setup s transcript (k + 1)
  rw [hl] at hdue ⊢
  refine hs k (fun j hj => ?_) hdue
  obtain ⟨l', hl'⟩ := attempts_lines setup s transcript j
  obtain ⟨hgoing, hanswers⟩ := hgoes j hj
  obtain ⟨l₁, h₁⟩ := ignoresLines_step setup (attempts setup s j) l'
  rw [hl'] at hgoing hanswers
  rw [h₁] at hanswers
  exact ⟨hgoing, hanswers⟩

/-- It answers after the first step that a run takes. -/
theorem Measured.first (hs : Measured setup s) (hcontinue : s.mayContinue = true)
    (hstep : (step setup).outcome s = (.ok (), s')) (hdue : s'.statistics.steps % 10 = 0) :
    ∃ x, setup.norm s'.work.residual = .ok x := by
  have hfirst : attempts setup s 1 = s' := congrArg Prod.snd hstep
  rw [← hfirst] at hdue ⊢
  refine hs 0 (fun j hj => ?_) hdue
  obtain rfl := Nat.le_zero.mp hj
  exact ⟨hcontinue, congrArg Prod.fst hstep⟩

/-- The norm goes on answering where a run reports its progress. -/
theorem Measured.next (hs : Measured setup s) (hcontinue : s.mayContinue = true)
    (hstep : (step setup).outcome s = (.ok (), s')) : Measured setup s' := by
  have hnext (k : Nat) : attempts setup s (k + 1) = attempts setup s' k := by
    rw [attempts_succ_left, hstep]
  intro k hgoes hdue
  rw [← hnext] at hdue ⊢
  refine hs (k + 1) (fun j hj => ?_) hdue
  cases j with
  | zero => exact ⟨hcontinue, congrArg Prod.fst hstep⟩
  | succ j =>
    rw [hnext]
    exact hgoes j (by omega)

/-- The answer is a result, or the progress can be reported all along: the verbosity is a number,
and if it wants the lines about the progress, the norm answers wherever one of them is due. -/
def Speaking (setup : Setup A P) (s : Session A P) (answer : Attempt A α) : Prop :=
  (∃ r, answer = .ok r) ∨ ∃ v, setup.verbosity = .number v ∧
    (v.reaches (M := A.toMagnitudes) 1 = false ∨ Measured setup s)

/-- What can be reported of a session can be reported after a step of it. -/
theorem Speaking.next {answer : Attempt A α} (h : Speaking setup s answer)
    (hcontinue : s.mayContinue = true) (hstep : (step setup).outcome s = (.ok (), s')) :
    Speaking setup s' answer :=
  h.imp_right fun ⟨v, hv, hsaid⟩ => ⟨v, hv, hsaid.imp_right fun hs => hs.next hcontinue hstep⟩

section

variable {m : Int}

/-- Fuel that covers the steps left is as good as more of it. -/
theorem outcome_iterate_of_fuel (hbudget : s.budget.integer? = some m) {fuel fuel' : Nat}
    (hleft : m - s.statistics.steps ≤ fuel) (hfuel : fuel ≤ fuel') :
    (iterate setup fuel').outcome s = (iterate setup fuel).outcome s := by
  induction fuel generalizing s fuel' with
  | zero =>
    have hends : ¬s.mayContinue = true := fun h => by
      have hless := ((mayContinue_iff hbudget).mp h).2
      omega
    rw [outcome_iterate_of_not setup hends, outcome_iterate_of_not setup hends]
  | succ fuel ih =>
    obtain ⟨fuel', rfl⟩ : ∃ n, fuel' = n + 1 := ⟨fuel' - 1, by omega⟩
    by_cases hcontinue : s.mayContinue = true
    · rw [outcome_iterate_succ setup hcontinue, outcome_iterate_succ setup hcontinue, outcome_bind,
        outcome_bind]
      have hgoing := ((mayContinue_iff hbudget).mp hcontinue).1
      rcases hstep : (step setup).outcome s with ⟨e | a, s₁⟩
      · rfl
      · dsimp only
        obtain ⟨hsettings, hsteps⟩ := of_step_eq_ok hgoing hstep
        rw [outcome_bind, outcome_bind]
        rcases hprogress : (progress setup).outcome s₁ with ⟨e | a, s₂⟩
        · rfl
        · dsimp only
          have hs₂ : s₂ = { s₁ with transcript := s₂.transcript } :=
            eq_of_mute ((keeps_progress setup).eq_of_outcome hprogress)
          have hbudget₂ : s₂.budget = s.budget :=
            (congrArg Session.budget hs₂).trans (congrArg Settings.budget hsettings)
          have hsteps₂ : s₂.statistics.steps = s.statistics.steps + 1 :=
            (congrArg (fun s : Session A P => s.statistics.steps) hs₂).trans hsteps
          exact ih (hbudget₂ ▸ hbudget) (by omega) (by omega)
    · rw [outcome_iterate_of_not setup hcontinue, outcome_iterate_of_not setup hcontinue]

/-- The line about a step is reported: the run would else have failed there. -/
theorem exists_progress {x : Action A P α} {answer : Attempt A α} {u : Session A P}
    {l : List (Line A.Real)} (hspeaking : Speaking setup s answer)
    (hcontinue : s.mayContinue = true) (hstep : (step setup).outcome s = (.ok (), u))
    (h : (progress setup >>= fun _ => x).outcome { u with transcript := l } = (answer, s')) :
    ∃ l', (progress setup).outcome { u with transcript := l } =
      (.ok (), { u with transcript := l' }) := by
  rcases hspeaking with ⟨r, rfl⟩ | ⟨v, hv, hsaid⟩
  · obtain ⟨_, t, ht, -⟩ := outcome_bind_eq_ok.mp h
    have hsame := eq_of_mute ((keeps_progress setup).eq_of_outcome ht)
    exact ⟨t.transcript, hsame ▸ ht⟩
  · have hanswers : (progress setup).Answers { u with transcript := l } := by
      refine answers_progress_of_norm hv fun hwanted hdue => ?_
      rcases hsaid with hsilent | hmeasured
      · cases hsilent.symm.trans hwanted
      · have hnorm := hmeasured.first hcontinue hstep
        exact hnorm hdue
    obtain ⟨_, l', h'⟩ := exists_lines (keeps_progress setup) hanswers
    exact ⟨l', h'⟩

/-- The budget of steps is one of the settings. -/
theorem budget_of_settings (hsettings : s'.settings = s.settings)
    (hbudget : s.budget.integer? = some m) : s'.budget.integer? = some m :=
  (congrArg (fun c : Settings A P => c.budget.integer?) hsettings).trans hbudget

/-- A run that can be announced answers as the rest of one from other lines, with fuel that covers
the steps left. -/
theorem run_of_finish (hbudget : s.budget.integer? = some m) {fuel : Nat}
    (hleft : m - s.statistics.steps ≤ fuel)
    (hfuel : fuel ≤ s.budget.ceiling (M := A.toMagnitudes))
    (hannounce : (announce setup).Answers s) {answer : Attempt A (Report A)}
    {l : List (Line A.Real)}
    (h : (finish setup fuel).outcome { s with transcript := l } = (answer, s')) :
    ∃ transcript, (run setup).outcome s = (answer, { s' with transcript }) := by
  obtain ⟨_, l₁, h₁⟩ := exists_lines (keeps_announce setup) hannounce
  obtain ⟨l₂, h₂⟩ := ignoresLines_finish setup fuel { s with transcript := l } l₁
  rw [h] at h₂
  refine ⟨l₂, ?_⟩
  rw [outcome_run h₁, finish, outcome_bind, outcome_iterate_of_fuel
    (s := { s with transcript := l₁ }) hbudget hleft hfuel, ← outcome_bind]
  exact h₂

/-- Where a session may go on, a run answers the same after a step taken by hand. -/
theorem outcome_step_run (hbudget : s.budget.integer? = some m) (hcounted : 0 ≤ s.statistics.steps)
    (hcontinue : s.mayContinue = true) (hannounce : (announce setup).Answers s)
    {answer : Attempt A (Report A)} (h : (run setup).outcome s = (answer, s'))
    (hspeaking : Speaking setup s answer) : ∃ transcript,
      (step setup >>= fun _ => run setup).outcome s = (answer, { s' with transcript }) := by
  obtain ⟨hgoing, hless⟩ := (mayContinue_iff hbudget).mp hcontinue
  obtain ⟨_, l, hl⟩ := exists_lines (keeps_announce setup) hannounce
  obtain ⟨fuel, hfuel⟩ : ∃ n, s.budget.ceiling (M := A.toMagnitudes) = n + 1 := by
    refine ⟨m.toNat - 1, ?_⟩
    rw [Quantity.ceiling_of_integer? (M := A.toMagnitudes) hbudget]
    omega
  rw [outcome_run hl, hfuel, outcome_finish_succ (by exact hcontinue), outcome_bind] at h
  obtain ⟨l₁, h₁⟩ := ignoresLines_step setup s l
  rw [outcome_bind]
  rcases hstep : (step setup).outcome s with ⟨e | a, u⟩
  · rw [h₁, hstep] at h
    cases h
    exact ⟨u.transcript, rfl⟩
  · rw [h₁, hstep] at h
    dsimp only at h ⊢
    obtain ⟨hsettings, hsteps⟩ := of_step_eq_ok hgoing hstep
    obtain ⟨l₂, h₂⟩ := exists_progress hspeaking hcontinue hstep h
    rw [outcome_bind, h₂] at h
    obtain ⟨_, t, ht⟩ := hannounce
    have hceiling : u.budget.ceiling (M := A.toMagnitudes) = fuel + 1 :=
      (congrArg (fun c : Settings A P => c.budget.ceiling (M := A.toMagnitudes)) hsettings).trans
        hfuel
    have hm := Quantity.ceiling_of_integer? (M := A.toMagnitudes) hbudget
    exact run_of_finish (budget_of_settings hsettings hbudget) (by omega) (by omega)
      (announce_again ht (congrArg Settings.tolerances hsettings)) h

/-- Within its budget of steps, a run answers the same after any number of steps taken by hand. -/
theorem outcome_steps_run (k : Nat) (hbudget : s.budget.integer? = some m)
    (hcounted : 0 ≤ s.statistics.steps)
    (hwithin : s.stopped = false → s.statistics.steps + k ≤ m)
    (hannounce : (announce setup).Answers s) {answer : Attempt A (Report A)}
    (h : (run setup).outcome s = (answer, s')) (hspeaking : Speaking setup s answer) :
    ∃ transcript, (steps setup k >>= fun _ => run setup).outcome s =
      (answer, { s' with transcript }) := by
  induction k generalizing s s' with
  | zero =>
    rw [steps, pure_bind]
    exact ⟨s'.transcript, h⟩
  | succ k ih =>
    cases hstopped : s.stopped with
    | true =>
      refine ⟨s'.transcript, ?_⟩
      rw [outcome_bind, outcome_steps_of_stopped setup hstopped]
      exact h
    | false =>
      have hleft := hwithin hstopped
      have hcontinue : s.mayContinue = true :=
        (mayContinue_iff hbudget).mpr ⟨hstopped, by omega⟩
      obtain ⟨l, hl⟩ := outcome_step_run hbudget hcounted hcontinue hannounce h hspeaking
      rw [steps, bind_assoc, outcome_bind]
      rw [outcome_bind] at hl
      rcases hstep : (step setup).outcome s with ⟨e | a, u⟩
      · rw [hstep] at hl
        exact ⟨l, hl⟩
      · rw [hstep] at hl
        dsimp only at hl ⊢
        obtain ⟨hsettings, hsteps⟩ := of_step_eq_ok hstopped hstep
        obtain ⟨_, t, ht⟩ := hannounce
        obtain ⟨l', hl'⟩ := ih
          (budget_of_settings hsettings hbudget) (by omega) (fun _ => by omega)
          (announce_again ht (congrArg Settings.tolerances hsettings)) hl
          (hspeaking.next hcontinue hstep)
        exact ⟨l', hl'⟩

end

/-! ## Solves -/

/-- A session that was started has tolerances that can be reported. -/
theorem reportable_of_start {request : Request A P} {n : Nat}
    (h : start setup request = (.ok s, n)) :
    ∃ a b, reportable s.tolerances.absolute = .ok a ∧ reportable s.tolerances.relative = .ok b := by
  obtain ⟨_, _, _, tolerances, _, _, _, -, hmake, rfl⟩ := of_start h
  obtain ⟨a, b, rfl⟩ := Tolerances.eq_of_areChecked (Tolerances.areChecked_of_make hmake)
  exact ⟨.real a, .real b, rfl, rfl⟩

/-- A session that was started can be announced, if the verbosity is a number. -/
theorem answers_announce_of_start {request : Request A P} {n : Nat} {v : Quantity A.Real}
    (hverbosity : setup.verbosity = .number v) (h : start setup request = (.ok s, n)) :
    (announce setup).Answers s := by
  obtain ⟨a, b, ha, hb⟩ := reportable_of_start h
  exact answers_announce_of_reportable hverbosity ha hb

/-- Where no further step may be taken, the rest of a run is its report. -/
theorem exists_report_of_not {v : Quantity A.Real} (hverbosity : setup.verbosity = .number v)
    (hnorm : ∃ x, setup.norm s.work.residual = .ok x) (hends : ¬s.mayContinue = true)
    (fuel : Nat) :
    ∃ r transcript, (finish setup fuel).outcome s = (.ok r, { s.spent with transcript }) := by
  have hnorm' : ∃ x, setup.norm s.spent.work.residual = .ok x := by
    rw [show s.spent.work = s.work by unfold spent; split <;> rfl]
    exact hnorm
  obtain ⟨r, l, hclose⟩ := exists_lines (keeps_close setup)
    (answers_close_of_norm hverbosity hnorm')
  refine ⟨r, l, ?_⟩
  rw [finish, outcome_bind, outcome_iterate_of_not setup hends]
  dsimp only
  rw [exhaust, outcome_modify_bind]
  exact hclose

/-- The rest of a run reports from the session that the steps it may take lead to, if that has ended
or its budget is used up. -/
theorem exists_finish {m : Int} {v : Quantity A.Real} {t : Session A P} (k : Nat) {fuel : Nat}
    (hbudget : s.budget.integer? = some m) (hverbosity : setup.verbosity = .number v)
    (hnorm : ∀ j ≤ k, ∃ x, setup.norm (attempts setup s j).work.residual = .ok x)
    (hwithin : s.stopped = false → s.statistics.steps + k ≤ m) (hfuel : k ≤ fuel)
    (hsteps : (steps setup k).outcome s = (.ok (), t))
    (hended : t.stopped = true ∨ m ≤ s.statistics.steps + k) :
    ∃ r transcript, (finish setup fuel).outcome s = (.ok r, { t.spent with transcript }) := by
  -- An ended session is closed; else the first step and the line about it are taken off the loop.
  induction k generalizing s t fuel with
  | zero =>
    obtain rfl : s = t := congrArg Prod.snd hsteps
    have hends : ¬s.mayContinue = true := fun h => by
      obtain ⟨hgoing, hless⟩ := (mayContinue_iff hbudget).mp h
      rcases hended with hstopped | hspent
      · cases hgoing.symm.trans hstopped
      · omega
    exact exists_report_of_not hverbosity (hnorm 0 (Nat.le_refl 0)) hends fuel
  | succ k ih =>
    cases hstopped : s.stopped with
    | true =>
      rw [outcome_steps_of_stopped setup hstopped] at hsteps
      refine ih hbudget (fun j hj => hnorm j (Nat.le_succ_of_le hj)) (fun h => ?_) (by omega) ?_
        (.inl ?_)
      · cases hstopped.symm.trans h
      · rw [outcome_steps_of_stopped setup hstopped]
        exact hsteps
      · exact (Prod.mk.inj hsteps).2 ▸ hstopped
    | false =>
      obtain ⟨fuel, rfl⟩ : ∃ n, fuel = n + 1 := ⟨fuel - 1, by omega⟩
      obtain ⟨_, u, hstep, hrest⟩ := outcome_bind_eq_ok.mp hsteps
      obtain ⟨hsettings, hcount⟩ := of_step_eq_ok hstopped hstep
      have hleft := hwithin hstopped
      have hattempts (j : Nat) : attempts setup s (j + 1) = attempts setup u j := by
        rw [attempts_succ_left, hstep]
      have hfirst : ∃ x, setup.norm (attempts setup u 0).work.residual = .ok x :=
        hattempts 0 ▸ hnorm 1 (by omega)
      obtain ⟨_, l, hprogress⟩ := exists_lines (s := u) (keeps_progress setup)
        (answers_progress_of_norm hverbosity fun _ _ => hfirst)
      obtain ⟨l₁, h₁⟩ := ignoresLines_steps setup k u l
      rw [hrest] at h₁
      obtain ⟨r, l₂, h₂⟩ := ih (s := { u with transcript := l }) (t := { t with transcript := l₁ })
        (budget_of_settings hsettings hbudget)
        (fun j hj => by
          obtain ⟨l', hl'⟩ := attempts_lines setup u l j
          rw [hl']
          exact hattempts j ▸ hnorm (j + 1) (by omega))
        (fun _ => by dsimp only; omega) (Nat.le_of_succ_le_succ hfuel) h₁
        (hended.imp_right fun h => by dsimp only; omega)
      rw [spent_lines] at h₂
      refine ⟨r, l₂, ?_⟩
      rw [outcome_finish_succ ((mayContinue_iff hbudget).mpr ⟨hstopped, by omega⟩),
        outcome_bind, hstep]
      dsimp only
      rw [outcome_bind, hprogress]
      exact h₂

/-- Attempts that answer are steps. -/
theorem outcome_steps_of_attempts {k : Nat}
    (h : ∀ i < k, ((step setup).outcome (attempts setup s i)).1 = .ok ()) :
    (steps setup k).outcome s = (.ok (), attempts setup s k) := by
  induction k with
  | zero => rfl
  | succ k ih =>
    rw [outcome_steps_add setup k 1, outcome_bind, ih fun i hi => h i (Nat.lt_succ_of_lt hi)]
    exact outcome_bind_eq_ok.mpr ⟨(), _, Prod.ext (h k (Nat.lt_succ_self k)) rfl, rfl⟩

/-- A solve whose steps lead to an ended session within its budget, or use up its budget, reports
from there. -/
theorem solve_of_steps {request : Request A P} {n k : Nat} {m : Int} {v : Quantity A.Real}
    {t : Session A P} (hstart : start setup request = (.ok s, n))
    (hbudget : s.budget.integer? = some m) (hk : (k : Int) ≤ m)
    (hverbosity : setup.verbosity = .number v)
    (hnorm : ∀ j ≤ k, ∃ x, setup.norm (attempts setup s j).work.residual = .ok x)
    (hsteps : (steps setup k).outcome s = (.ok (), t)) (hended : t.stopped = true ∨ m ≤ k) :
    ∃ norm, (solve setup request).1 = .ok (t.spent.summary norm) := by
  have hcounted : s.statistics.steps = 0 := by
    obtain ⟨_, _, _, _, _, _, _, -, -, rfl⟩ := of_start hstart
    rfl
  obtain ⟨_, l, hannounce⟩ :=
    exists_lines (keeps_announce setup) (answers_announce_of_start hverbosity hstart)
  obtain ⟨l₁, h₁⟩ := ignoresLines_steps setup k s l
  rw [hsteps] at h₁
  have hfuel : k ≤ s.budget.ceiling (M := A.toMagnitudes) := by
    rw [Quantity.ceiling_of_integer? (M := A.toMagnitudes) hbudget]
    omega
  obtain ⟨r, l₂, h₂⟩ := exists_finish (s := { s with transcript := l }) k hbudget hverbosity
    (fun j hj => by
      obtain ⟨l', hl'⟩ := attempts_lines setup s l j
      rw [hl']
      exact hnorm j hj)
    (fun _ => by dsimp only; omega) hfuel h₁ (hended.imp_right fun h => by dsimp only; omega)
  rw [spent_lines] at h₂
  have hrun : (run setup).outcome s = (.ok r, { t.spent with transcript := l₂ }) :=
    (outcome_run hannounce).trans h₂
  obtain ⟨norm, -, rfl⟩ := of_run hrun
  exact ⟨norm, solve_eq_ok.mpr ⟨s, n, _, hstart, hrun⟩⟩

/-- Budgets and the style of stepping do not change an answer. A solve that does not end with its
budget of steps used up reports the same within every larger one, and so does a solve that does not
end with its budget of resets used up. Steps taken by hand within the budget of steps, and then a
run, answer as the run alone and lead to the same session but for the lines: if the run gives a
report, and also if it fails, as long as it does not fail in reporting its progress. Residual
function and line search may go by the number of the call; the norm is a function of the residual.
-/
theorem answers_within_budgets (setup : Setup A P) (request : Request A P) :
    (∀ (b b' : Quantity A.Real) (m m' : Int) (r : Report A), b.integer? = some m →
      b'.integer? = some m' → m ≤ m' →
      (solve setup { request with budget := .number b }).1 = .ok r →
      r.status ≠ .iterationsExhausted →
      (solve setup { request with budget := .number b' }).1 = .ok r) ∧
    (∀ (q : Quantity A.Real) (k k' : Int) (r : Report A),
      Quantity.StandsFor (M := A.toMagnitudes) setup.options.resetBudget k →
      Quantity.StandsFor (M := A.toMagnitudes) q k' → k ≤ k' →
      (solve setup request).1 = .ok r → r.status ≠ .resetsExhausted →
      (solve (setup.allowing q) request).1 = .ok r) ∧
    (∀ (s s' : Session A P) (n : Nat) (m : Int) (k : Nat) (answer : Attempt A (Report A)),
      start setup request = (.ok s, n) → s.budget.integer? = some m → (k : Int) ≤ m →
      (run setup).outcome s = (answer, s') → Speaking setup s answer →
      ∃ transcript, (steps setup k >>= fun _ => run setup).outcome s =
        (answer, { s' with transcript })) := by
  refine ⟨fun b b' m m' r hb hb' hm h hr => solve_of_larger_budget hb hb' hm h hr,
    fun q k k' r hk hk' hle h hr => solve_allowing hk hk' hle h hr, ?_⟩
  intro s s' n m k answer hstart hbudget hk hrun hspeaking
  have hcounted : s.statistics.steps = 0 := by
    obtain ⟨_, _, _, _, _, _, _, -, -, rfl⟩ := of_start hstart
    rfl
  have hannounce : (announce setup).Answers s := by
    rcases hspeaking with ⟨r, rfl⟩ | ⟨v, hv, -⟩
    · obtain ⟨_, t, ht, -⟩ := outcome_bind_eq_ok.mp hrun
      exact ⟨_, t, ht⟩
    · exact answers_announce_of_start hv hstart
  exact outcome_steps_run k hbudget (by omega) (fun _ => by omega) hannounce hrun hspeaking

open QuasiNewton.Affine in
/-- The affine problem is solved with one report under two budgets of steps, under a larger budget
of resets, and after a step by hand. -/
theorem answers_within_budgets_affine :
    ∃ r s s' n transcript, r.status = .success ∧
      (solve problem { request with budget := .number (.whole 1000) }).1 = .ok r ∧
      (solve problem { request with budget := .number (.whole 2000) }).1 = .ok r ∧
      (solve (problem.allowing (.whole 4)) request).1 = .ok r ∧
      start problem request = (.ok s, n) ∧ (run problem).outcome s = (.ok r, s') ∧
      (steps problem 1 >>= fun _ => run problem).outcome s =
        (.ok r, { s' with transcript }) := by
  obtain ⟨r, hsolve, hr⟩ := exists_solved problem request (fun r => r.status = .success)
    (by decide +kernel)
  obtain ⟨s, n, s', hstart, hrun⟩ := solve_eq_ok.mp hsolve
  have hbudget : s.budget = .whole 1000 := (Except.ok.inj (budget_of_start hstart)).symm
  obtain ⟨hsteps, hresets, hstepping⟩ := answers_within_budgets problem request
  obtain ⟨transcript, hmanual⟩ :=
    hstepping s s' n 1000 1 (.ok r) hstart (by rw [hbudget]; rfl) (by decide) hrun (.inl ⟨r, rfl⟩)
  refine ⟨r, s, s', n, transcript, hr, hsolve, ?_, ?_, hstart, hrun, hmanual⟩
  · exact hsteps (.whole 1000) (.whole 2000) 1000 2000 r rfl rfl (by decide) hsolve (hr ▸ nofun)
  · exact hresets (.whole 4) 3 4 r (Quantity.standsFor_of_integer? rfl)
      (Quantity.standsFor_of_integer? rfl) (by decide) hsolve (hr ▸ nofun)

end Session

namespace Affine

/-- A whole number until the iterate is far below zero, and zero from there: the square of the
number wraps below zero. -/
def falling : Setup Machine.arithmetic Int where
  residual := .returning fun _ u _ => .ok (.ofFn Machine.Kind.integer u.shape fun i =>
    Machine.arithmetic.ofWhole Machine.Kind.integer
      (if Machine.arithmetic.elemLe double (u.elem i)
        (Machine.arithmetic.ofWhole double (-31888505250)) then 0 else 3037000500))
  options := { Options.standard with resetBudget := .whole 20 }
  norm := .euclidean
  verbosity := .number (.whole 0)

/-- A start at zero with a bound of every component. -/
def fallingRequest : Request Machine.arithmetic Int :=
  { startAt double [0] 0 with condition := .setting (.text "abs") }

/-- The same with lines about the progress. -/
def talkative : Setup Machine.arithmetic Int := { falling with verbosity := .number (.whole 1) }

end Affine

namespace Session

open QuasiNewton.Affine in
/-- A run that fails in reporting its progress: the residual after ten steps has no norm. Ten steps
taken by hand report no progress, and the run after them succeeds. -/
theorem succeeds_after_steps_only :
    ∃ s n, start talkative fallingRequest = (.ok s, n) ∧ s.budget.integer? = some 1000 ∧
      (∃ e, ((run talkative).outcome s).1 = .error e) ∧
      (∃ r, ((steps talkative 10 >>= fun _ => run talkative).outcome s).1 = .ok r ∧
        r.success = true) ∧
      ¬∃ transcript, (steps talkative 10 >>= fun _ => run talkative).outcome s =
        (((run talkative).outcome s).1, { ((run talkative).outcome s).2 with transcript }) := by
  obtain ⟨s, n, hstart, hbudget, hfails, hsucceeds⟩ := exists_started talkative fallingRequest
    (fun s => s.budget.integer? = some 1000 ∧
      ((run talkative).outcome s).1.toOption.isNone = true ∧
      ((steps talkative 10 >>= fun _ => run talkative).outcome s).1.toOption.any (·.success) = true)
    (by decide +kernel)
  refine ⟨s, n, hstart, hbudget, ?_⟩
  rcases hrun : ((run talkative).outcome s).1 with e | r
  · rcases hmanual : ((steps talkative 10 >>= fun _ => run talkative).outcome s).1 with e' | r'
    · rw [hmanual] at hsucceeds
      cases hsucceeds
    · rw [hmanual] at hsucceeds
      refine ⟨⟨e, rfl⟩, ⟨r', rfl, hsucceeds⟩, fun ⟨l, hl⟩ => ?_⟩
      cases hmanual.symm.trans (congrArg Prod.fst hl)
  · rw [hrun] at hfails
    cases hfails

end Session

end QuasiNewton
