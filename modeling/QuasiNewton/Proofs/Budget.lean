import QuasiNewton.Proofs.Affine
import QuasiNewton.Proofs.Lines
import QuasiNewton.Proofs.Progress
import QuasiNewton.Proofs.Wholes

/-!
# Runs end within their budget

A run of a workable session answers. But for the lines it is as many steps as the budget has left,
and then the end of the budget, if none of them ended the session. So it counts no more steps and
evaluations than the budget allows, and it ends with a reason. Sessions stay workable as long as no
step starts after a failed restart that left a best iterate of another shape.
-/

namespace QuasiNewton

open QuasiNewton.Action

variable {A : Arithmetic} {P : Type} {setup : Setup A P}

namespace Session

variable {s s' t : Session A P}

/-! ## What steps count -/

/-- A session after a number of tries to step: how far it has counted at most, how far it has
counted if it goes on, and what it has not ended for if it has ended. -/
structure Advanced (s : Session A P) (k : Nat) (t : Session A P) : Prop where
  steps : t.statistics.steps ≤ s.statistics.steps + k
  evaluations : t.evaluations ≤ s.evaluations + k + 1
  going : t.stopped = false →
    t.statistics.steps = s.statistics.steps + k ∧ t.evaluations = s.evaluations + k
  ended : t.stopped = true → t.status ≠ .iterationsExhausted

/-- A session that goes on is no step further than itself. -/
theorem advanced_zero (h : s.stopped = false) : Advanced s 0 s where
  steps := Int.le_of_eq (Int.add_zero _).symm
  evaluations := Nat.le_succ _
  going := fun _ => ⟨(Int.add_zero _).symm, rfl⟩
  ended := fun hstopped => absurd (h.symm.trans hstopped) Bool.false_ne_true

/-- A step counts itself and one evaluation, and another one only if it ends the session, which it
never does for the budget of steps. -/
theorem Stepped.advanced (h : Stepped setup s s') (hgoing : s.stopped = false) :
    Advanced s 1 s' := by
  have hended : s.stopped = true → s.status ≠ .iterationsExhausted := fun h =>
    absurd (hgoing.symm.trans h) Bool.false_ne_true
  cases h with
  | @concluded x m _ hx hm hend =>
    have hstatus : m.status ≠ .iterationsExhausted := Monitor.status_ne_of_check hm nofun rfl
    cases hend with
    | stayed => exact ⟨Int.le_refl _, Nat.le_succ _, nofun, fun _ => hstatus⟩
    | restored => exact ⟨Int.le_refl _, Nat.le_refl _, nofun, fun _ => hstatus⟩
  | @refined x m _ hx hm hrest =>
    cases hrest with
    | exhausted => exact ⟨Int.le_refl _, Nat.le_succ _, nofun, fun _ => nofun⟩
    | reset => exact ⟨Int.le_refl _, Nat.le_succ _, fun _ => ⟨rfl, rfl⟩, hended⟩
    | @corrected y d inverse u =>
      have hcount : (if u.guarded = true then (s.probed x).statistics.bump .guards 1
          else (s.probed x).statistics).steps = s.statistics.steps + 1 := by
        split <;> rfl
      exact ⟨Int.le_of_eq hcount, Nat.le_succ _, fun _ => ⟨hcount, rfl⟩, hended⟩

/-- One more step of a session that goes on. -/
theorem Advanced.next {k : Nat} (h : Advanced s k t) (hgoing : t.stopped = false)
    (hstep : Advanced t 1 s') : Advanced s (k + 1) s' := by
  obtain ⟨hsteps, hevaluations⟩ := h.going hgoing
  obtain ⟨hsteps', hevaluations', hgoing', hended⟩ := hstep
  rw [hsteps] at hsteps' hgoing'
  rw [hevaluations] at hevaluations' hgoing'
  refine ⟨by omega, by omega, fun h => ?_, hended⟩
  obtain ⟨h₁, h₂⟩ := hgoing' h
  exact ⟨by omega, by omega⟩

/-! ## Steps of workable sessions -/

/-- A step keeps the settings, whether it answers or fails. -/
theorem settings_step (setup : Setup A P) (s : Session A P) :
    ((step setup).outcome s).2.settings = s.settings := by
  cases hstopped : s.stopped with
  | true => rw [outcome_step_of_stopped setup hstopped]
  | false =>
    rw [outcome_step_of_not_stopped setup hstopped]
    exact settings_advance setup s

/-- A step that answers counts itself and keeps the settings. -/
theorem of_step_eq_ok (hgoing : s.stopped = false) (h : (step setup).outcome s = (.ok (), s')) :
    s'.settings = s.settings ∧ s'.statistics.steps = s.statistics.steps + 1 := by
  have hsettings := settings_advance setup s
  have hsteps := steps_advance setup s
  rw [← outcome_step_of_not_stopped setup hgoing, h] at hsettings hsteps
  exact ⟨hsettings, hsteps⟩

/-- A step of a workable session answers and leaves it workable. -/
theorem Workable.step (hA : A.JoinsSigned) (hsetup : setup.Answers) (hs : s.Workable setup)
    (hc : s.settings.InRange) :
    ∃ s', (step setup).outcome s = (.ok (), s') ∧ s'.Workable setup ∧ s'.settings = s.settings := by
  have hsettings := settings_step setup s
  cases hstopped : s.stopped with
  | true => exact ⟨s, outcome_step_of_stopped setup hstopped, hs, rfl⟩
  | false =>
    obtain ⟨_, s', hadvance⟩ := answers_advance hA hsetup hs hc
    have hstep := (outcome_step_of_not_stopped setup hstopped).trans hadvance
    rw [hstep] at hsettings
    exact ⟨s', hstep, hs.of_advance hA (hsetup.residual.like _) hadvance, hsettings⟩

/-- All attempts of a workable session answer. -/
theorem Workable.attempts (hA : A.JoinsSigned) (hsetup : setup.Answers) (hs : s.Workable setup)
    (hc : s.settings.InRange) (k : Nat) :
    (attempts setup s k).Workable setup ∧ (attempts setup s k).settings = s.settings := by
  induction k with
  | zero => exact ⟨hs, rfl⟩
  | succ k ih =>
    obtain ⟨hworkable, hsettings⟩ := ih
    obtain ⟨s', hstep, hworkable', hsettings'⟩ := hworkable.step hA hsetup (hsettings ▸ hc)
    rw [Session.attempts, hstep]
    exact ⟨hworkable', hsettings'.trans hsettings⟩

/-- Attempts of a workable session that goes on count steps and evaluations. -/
theorem Workable.advanced_attempts (hA : A.JoinsSigned) (hsetup : setup.Answers)
    (hs : s.Workable setup) (hc : s.settings.InRange) (hgoing : s.stopped = false) (k : Nat) :
    Advanced s k (Session.attempts setup s k) := by
  induction k with
  | zero => exact advanced_zero hgoing
  | succ k ih =>
    obtain ⟨hworkable, hsettings⟩ := hs.attempts hA hsetup hc k
    cases hstopped : (Session.attempts setup s k).stopped with
    | true =>
      rw [Session.attempts, outcome_step_of_stopped setup hstopped]
      change Advanced s (k + 1) (Session.attempts setup s k)
      have hsteps := ih.steps
      have hevaluations := ih.evaluations
      exact ⟨by omega, by omega, fun h => absurd (h.symm.trans hstopped) Bool.false_ne_true,
        ih.ended⟩
    | false =>
      obtain ⟨_, s', hadvance⟩ := answers_advance hA hsetup hworkable (hsettings ▸ hc)
      have hstepped := Session.of_advance hworkable.arrays.ordered hadvance
      rw [attempts_succ hstopped, hadvance]
      exact ih.next hstopped (hstepped.advanced hstopped)

/-! ## Runs -/

/-- A report of a workable session answers and changes the lines only. -/
theorem exists_lines {α : Type} {x : Action A P α} (hx : x.Keeps mute) (hanswers : x.Answers s) :
    ∃ a transcript, x.outcome s = (.ok a, { s with transcript }) := by
  obtain ⟨a, s', h⟩ := hanswers
  refine ⟨a, s'.transcript, ?_⟩
  rw [← eq_of_mute (hx.eq_of_outcome h), h]

/-- The residual of a workable session has a norm. -/
theorem Workable.exists_norm (hsetup : setup.Answers) (hs : s.Workable setup) :
    ∃ norm, setup.norm s.work.residual = .ok norm :=
  hsetup.norm _ fun h => hs.arrays.nonempty ((congrArg Shape.size hs.arrays.residual).symm.trans h)

/-- The progress of a workable session can be reported. -/
theorem Workable.answers_progress (hsetup : setup.Answers) (hs : s.Workable setup) :
    (progress setup).Answers s := by
  obtain ⟨q, hq⟩ := hsetup.verbosity
  exact answers_progress_of_norm hq fun _ _ => hs.exists_norm hsetup

/-- A tolerance in range can be reported. -/
theorem reportable_of_inRange {x : Setting A.Real} (h : Setting.InRange A x) :
    ∃ q, reportable x = .ok q := by
  obtain ⟨q, rfl, hq⟩ := h
  obtain ⟨y, hy⟩ := hq.magnitude
  exact ⟨q, by rw [reportable, hy]; rfl⟩

/-- The start of a run can be reported if the settings are in range. -/
theorem answers_announce (hsetup : setup.Answers) (hc : s.settings.InRange) :
    (announce setup).Answers s := by
  obtain ⟨q, hq⟩ := hsetup.verbosity
  obtain ⟨absolute, habsolute⟩ := reportable_of_inRange hc.tolerances.1
  obtain ⟨relative, hrelative⟩ := reportable_of_inRange hc.tolerances.2
  exact answers_announce_of_reportable hq habsolute hrelative

/-- The end of a run can be reported, and its result produced. -/
theorem Workable.answers_close (hsetup : setup.Answers) (hs : s.Workable setup) :
    (close setup).Answers s := by
  obtain ⟨q, hq⟩ := hsetup.verbosity
  exact answers_close_of_norm hq (hs.exists_norm hsetup)

/-- Another step may be taken as long as the session goes on and has counted fewer than its budget.
-/
theorem mayContinue_iff {m : Int} (hbudget : s.budget.integer? = some m) :
    s.mayContinue = true ↔ s.stopped = false ∧ s.statistics.steps < m := by
  rw [mayContinue_eq_true_iff,
    (Quantity.standsFor_of_integer? (M := A.toMagnitudes) hbudget).isAbove_iff]

/-- The loop of a run is as many steps as the budget has left, but for the lines. -/
theorem Workable.iterate (hA : A.JoinsSigned) (hsetup : setup.Answers) (hs : s.Workable setup)
    (hc : s.settings.InRange) {m : Int} (hbudget : s.budget = .whole m) (fuel : Nat)
    (hfuel : (m - s.statistics.steps).toNat ≤ fuel) :
    ∃ transcript, (iterate setup fuel).outcome s =
      (.ok (), { Session.attempts setup s (m - s.statistics.steps).toNat with transcript }) := by
  induction fuel generalizing s with
  | zero =>
    rw [Nat.le_zero.mp hfuel]
    exact ⟨s.transcript, rfl⟩
  | succ fuel ih =>
    by_cases hcontinue : s.mayContinue = true
    case pos =>
      -- Each turn counts one step, so the budget has one step less left for the rest of the loop,
      -- which starts with other lines than the steps are tried with.
      obtain ⟨hgoing, hleft⟩ := (mayContinue_iff (congrArg Quantity.integer? hbudget)).mp hcontinue
      obtain ⟨s₁, hstep, hworkable, hsettings⟩ := hs.step hA hsetup hc
      obtain ⟨_, l, hprogress⟩ :=
        exists_lines (keeps_progress setup) (hworkable.answers_progress hsetup)
      have hsteps := (of_step_eq_ok hgoing hstep).2
      have hleft' : (m - s.statistics.steps).toNat = (m - s₁.statistics.steps).toNat + 1 := by omega
      have hfuel' : (m - s₁.statistics.steps).toNat ≤ fuel := by omega
      obtain ⟨l', hiterate⟩ := ih (s := { s₁ with transcript := l })
        ((invariant_workable hA hsetup.residual).lines l hworkable) (hsettings.symm ▸ hc)
        ((congrArg Settings.budget hsettings).trans hbudget) hfuel'
      obtain ⟨l'', hlines⟩ := attempts_lines setup s₁ l (m - s₁.statistics.steps).toNat
      refine ⟨l', ?_⟩
      rw [outcome_iterate_succ setup hcontinue, outcome_bind, hstep]
      dsimp only
      rw [outcome_bind, hprogress]
      refine hiterate.trans ?_
      rw [hleft', attempts_succ_left, hstep]
      exact congrArg (fun t : Session A P => (Except.ok (), { t with transcript := l' })) hlines
    case neg =>
      refine ⟨s.transcript, ?_⟩
      rw [outcome_iterate_of_not setup hcontinue]
      have hends := hcontinue
      rw [mayContinue_iff (congrArg Quantity.integer? hbudget), not_and, Bool.eq_false_iff] at hends
      have hsame : Session.attempts setup s (m - s.statistics.steps).toNat = s := by
        by_cases hstopped : s.stopped = true
        · exact attempts_of_stopped hstopped _
        · have hspent := hends hstopped
          rw [show (m - s.statistics.steps).toNat = 0 by omega]
          rfl
      rw [hsame]

/-- A session whose budget is used up has ended for that, unless it has ended before. -/
def spent (s : Session A P) : Session A P :=
  if s.stopped then s else { s with status := .iterationsExhausted, stopped := true }

/-- A session that has ended is left as it is. -/
theorem spent_of_stopped (h : s.stopped = true) : s.spent = s := if_pos h

/-- A session that goes on ends for its budget. -/
theorem spent_of_going (h : s.stopped = false) :
    s.spent = { s with status := .iterationsExhausted, stopped := true } :=
  if_neg (Bool.eq_false_iff.mp h)

/-- The lines of a session make no difference to that. -/
theorem spent_lines (s : Session A P) (transcript : List (Line A.Real)) :
    ({ s with transcript } : Session A P).spent = { s.spent with transcript } := by
  unfold spent
  dsimp only
  split <;> rfl

/-- A run of a workable session answers. But for the lines it is as many steps as the budget has
left, and the end of the budget. -/
theorem Workable.run (hA : A.JoinsSigned) (hsetup : setup.Answers) (hs : s.Workable setup)
    (hc : s.settings.InRange) {m : Int} (hbudget : s.budget = .whole m) :
    ∃ r transcript, (run setup).outcome s = (.ok r,
        { (Session.attempts setup s (m - s.statistics.steps).toNat).spent with transcript }) ∧
      r.status = (Session.attempts setup s (m - s.statistics.steps).toNat).spent.status := by
  have hI : Invariant setup (Workable setup) fun _ => True :=
    invariant_workable hA hsetup.residual
  obtain ⟨_, l₁, hannounce⟩ := exists_lines (keeps_announce setup) (answers_announce hsetup hc)
  have hfuel : (m - s.statistics.steps).toNat ≤ s.budget.ceiling (M := A.toMagnitudes) := by
    have hsteps := hs.steps
    rw [hbudget, Quantity.ceiling]
    omega
  obtain ⟨l₂, hiterate⟩ := (hI.lines l₁ hs).iterate hA hsetup hc hbudget _ hfuel
  obtain ⟨l₃, hlines⟩ := attempts_lines setup s l₁ (m - s.statistics.steps).toNat
  rw [hlines] at hiterate
  generalize ht : Session.attempts setup s (m - s.statistics.steps).toNat = t at hiterate
  have hworkable : t.Workable setup := ht ▸ (hs.attempts hA hsetup hc _).1
  have hspent : t.spent.Workable setup := by
    cases hstopped : t.stopped with
    | true => rwa [spent_of_stopped hstopped]
    | false =>
      rw [spent_of_going hstopped]
      exact hI.exhaust hworkable hstopped
  obtain ⟨r, l₄, hclose⟩ := exists_lines (s := { t.spent with transcript := l₂ })
    (keeps_close setup) ((hI.lines l₂ hspent).answers_close hsetup)
  refine ⟨r, l₄, ?_, ?_⟩
  · rw [Session.run, outcome_bind, hannounce]
    dsimp only
    rw [outcome_get_bind, outcome_bind, hiterate]
    dsimp only
    rw [exhaust, outcome_modify_bind]
    refine Eq.trans ?_ hclose
    exact congrArg (close setup).outcome (spent_lines t l₂)
  · obtain ⟨norm, -, rfl⟩ := of_close hclose
    rfl

/-- How a run within a budget of `m` steps ends in `s'`, when it starts in `s` and its steps lead to
`t`. -/
structure Finished (m : Int) (s t s' : Session A P) : Prop where
  steps : s'.statistics.steps ≤ max s.statistics.steps m
  evaluations : (s'.evaluations : Int) ≤ s.evaluations + max (m - s.statistics.steps) 0 + 1
  stopped : s'.stopped = true
  verdict : s'.status ≠ .running
  idle : s.stopped = true → s' = { s with transcript := s'.transcript }
  exhausted : s.stopped = false → (s'.status = .iterationsExhausted ↔ t.stopped = false)
  spent : s.stopped = false → t.stopped = false → s'.statistics.steps = max s.statistics.steps m
  earlier : s.stopped = false → t.stopped = true → s' = { t with transcript := s'.transcript }

/-- A session that has ended is how every run from it ends. -/
theorem Workable.finished_of_stopped (hs : s.Workable setup) (hstopped : s.stopped = true) (m : Int)
    (transcript : List (Line A.Real)) : Finished m s s { s with transcript } where
  steps := Int.le_max_left _ _
  evaluations := by dsimp only; omega
  stopped := hstopped
  verdict := hs.verdict hstopped
  idle := fun _ => rfl
  exhausted := fun h => absurd (h.symm.trans hstopped) Bool.false_ne_true
  spent := fun h => absurd (h.symm.trans hstopped) Bool.false_ne_true
  earlier := fun _ _ => rfl

/-- The session that the steps of a budget lead to is how a run ends, once the budget is used up. -/
theorem Advanced.finished {m : Int} (h : Advanced s (m - s.statistics.steps).toNat t)
    (hverdict : t.stopped = true → t.status ≠ .running) (hs : s.stopped = false)
    (transcript : List (Line A.Real)) : Finished m s t { t.spent with transcript } := by
  obtain ⟨hsteps, hevaluations, hgoing, hended⟩ := h
  have hidle (h : s.stopped = true) (p : Prop) : p :=
    absurd (hs.symm.trans h) Bool.false_ne_true
  cases ht : t.stopped with
  | true =>
    rw [spent_of_stopped ht]
    exact
      { steps := by dsimp only; omega
        evaluations := by dsimp only; omega
        stopped := ht
        verdict := hverdict ht
        idle := fun h => hidle h _
        exhausted := fun _ => ⟨fun h => absurd h (hended ht), fun h => nomatch ht.symm.trans h⟩
        spent := fun _ h => nomatch ht.symm.trans h
        earlier := fun _ _ => rfl }
  | false =>
    rw [spent_of_going ht]
    obtain ⟨hsteps', hevaluations'⟩ := hgoing ht
    exact
      { steps := by dsimp only; omega
        evaluations := by dsimp only; omega
        stopped := rfl
        verdict := nofun
        idle := fun h => hidle h _
        exhausted := fun _ => ⟨fun _ => ht, fun _ => rfl⟩
        spent := fun _ _ => by dsimp only; omega
        earlier := fun _ h => nomatch ht.symm.trans h }

/-! ## Histories -/

/-- Steps and runs start where the best iterate can take the place of the iterate, with numbers in
range and a whole budget; restarts may fail. -/
def Steady (setup : Setup A P) : Session A P → List (Operation A P) → Prop
  | _, [] => True
  | s, op :: ops =>
    (op.TakesSteps → s.Restorable setup ∧ s.settings.InRange ∧ ∃ m, s.budget = .whole m) ∧
      Steady setup (next setup s op) ops

/-- Steps of a workable session answer, and lead where its attempts lead. -/
theorem Workable.outcome_steps (hA : A.JoinsSigned) (hsetup : setup.Answers)
    (hs : s.Workable setup) (hc : s.settings.InRange) (n : Nat) :
    (steps setup n).outcome s = (.ok (), Session.attempts setup s n) := by
  induction n generalizing s with
  | zero => rfl
  | succ n ih =>
    obtain ⟨s', hstep, hworkable, hsettings⟩ := hs.step hA hsetup hc
    rw [Session.steps, outcome_bind, hstep, attempts_succ_left, hstep]
    exact ih hworkable (hsettings.symm ▸ hc)

/-- Steps and runs of a workable session leave it workable. -/
theorem Workable.next (hA : A.JoinsSigned) (hsetup : setup.Answers) (hs : s.Workable setup)
    (hc : s.settings.InRange) {m : Int} (hbudget : s.budget = .whole m) {op : Operation A P}
    (hop : op.TakesSteps) : (next setup s op).Workable setup := by
  cases op with
  | steps n =>
    rw [Session.next, perform, outcome_bind, hs.outcome_steps hA hsetup hc]
    exact (hs.attempts hA hsetup hc n).1
  | run =>
    obtain ⟨r, transcript, hrun, -⟩ := hs.run hA hsetup hc hbudget
    rw [Session.next, perform, outcome_bind, hrun]
    exact ((invariant_workable hA hsetup.residual).run hs).of_ok hrun
  | restart r => exact hop.elim
  | setResidual t => exact hop.elim
  | setInverse t => exact hop.elim
  | setStopped b => exact hop.elim

/-- Over a steady history a session stays equipped. -/
theorem Equipped.after (hA : A.JoinsSigned) (hsetup : setup.Answers) (hs : s.Equipped setup)
    {ops : List (Operation A P)} (hops : ∀ op ∈ ops, op.IsSolving) (hsteady : Steady setup s ops) :
    (after setup s ops).Equipped setup := by
  induction ops generalizing s with
  | nil => exact hs
  | cons op ops ih =>
    refine ih ?_ (fun op' h => hops op' (List.mem_cons_of_mem _ h)) hsteady.2
    have hsolving := hops op List.mem_cons_self
    -- Only a restart may fail, and a failed one harms the best iterate only, of which nothing is
    -- asked until the next step.
    by_cases hop : op.TakesSteps
    · obtain ⟨hrestorable, hc, m, hbudget⟩ := hsteady.1 hop
      have hworkable : s.Workable setup := { hs, hrestorable with }
      exact (hworkable.next hA hsetup hc hbudget hop).toEquipped
    · cases op with
      | restart r =>
        have hrestart := (hs.restart hA hsetup.residual r).mono (fun _ _ h => h.toEquipped)
          fun _ h => h
        exact (hrestart.seq fun _ _ h => .of_pure h : Upholds (fun _ => Equipped setup)
          (Equipped setup) (perform setup (.restart r)) s).outcome_snd (fun _ _ h => h) fun _ h => h
      | steps n => exact absurd trivial hop
      | run => exact absurd trivial hop
      | setResidual t => exact hsolving.elim
      | setInverse t => exact hsolving.elim
      | setStopped b => exact hsolving.elim

/-- A session is workable after every history of steps, runs and restarts that answer, and also if
restarts fail, as long as steps and runs start where the best iterate can take the place of the
iterate. A run of a workable session within a budget of steps answers, and ends. Nothing is asked of
the norm, a function of the residual alone, but that it answers. -/
theorem run_ends (hA : A.JoinsSigned) (hsetup : setup.Answers) {request : Request A P}
    {s₀ : Session A P} {n : Nat} (hstart : start setup request = (.ok s₀, n))
    {ops : List (Operation A P)} (hops : ∀ op ∈ ops, op.IsSolving) (hs : s = after setup s₀ ops) :
    (Completes setup s₀ ops → s.Workable setup) ∧
      (Steady setup s₀ ops → s.Restorable setup → s.Workable setup) ∧
      (s.Workable setup → s.settings.InRange → ∀ m, s.budget = .whole m →
        ∃ r s', (run setup).outcome s = (.ok r, s') ∧ r.status = s'.status ∧
          Finished m s (attempts setup s (m - s.statistics.steps).toNat) s') := by
  have hworkable₀ := workable_start hA hstart
  refine ⟨fun hanswer => ?_, fun hsteady hrestorable => ?_, fun hworkable hc m hbudget => ?_⟩
  · have hrestart (s : Session A P) (r : Restart A P) (hs : s.Workable setup) :=
      (hs.toEquipped.restart hA hsetup.residual r).mono (fun _ _ h => h) fun _ _ => trivial
    rw [hs]
    exact (invariant_workable hA hsetup.residual).after hops hrestart hanswer hworkable₀
  · have hequipped := hworkable₀.toEquipped.after hA hsetup hops hsteady
    rw [← hs] at hequipped
    exact { hequipped, hrestorable with }
  · obtain ⟨r, transcript, hrun, hstatus⟩ := hworkable.run hA hsetup hc hbudget
    refine ⟨r, _, hrun, hstatus, ?_⟩
    cases hstopped : s.stopped with
    | true =>
      rw [attempts_of_stopped hstopped, spent_of_stopped hstopped]
      exact hworkable.finished_of_stopped hstopped m transcript
    | false =>
      have hverdict := (hworkable.attempts hA hsetup hc (m - s.statistics.steps).toNat).1.verdict
      exact (hworkable.advanced_attempts hA hsetup hc hstopped _).finished hverdict hstopped
        transcript

open QuasiNewton.Affine in
/-- Over the restart at two elements, a run of the affine problem answers within its budget and ends
where its attempts do. -/
theorem run_ends_affine :
    ∃ s₀ n r s', start problem request = (.ok s₀, n) ∧
      (run problem).outcome (after problem s₀ detour) = (.ok r, s') ∧
      r.status = s'.status ∧
      Finished 1000 (after problem s₀ detour) (attempts problem (after problem s₀ detour)
        (1000 - (after problem s₀ detour).statistics.steps).toNat) s' := by
  obtain ⟨s₀, n, hstart, hanswer, hplain, hbudget⟩ := exists_started problem request
    (fun s => Completes problem s detour ∧ (after problem s detour).settings.isPlain = true ∧
      (after problem s detour).budget.integer? = some 1000) (by decide +kernel)
  have hwhole : (after problem s₀ detour).budget = .whole 1000 := by
    cases hq : (after problem s₀ detour).budget with
    | whole m =>
      rw [hq] at hbudget
      exact congrArg Quantity.whole (Option.some.inj hbudget)
    | flag b =>
      rw [hq] at hbudget
      cases b <;> cases hbudget
    | real x =>
      rw [hq] at hbudget
      cases hbudget
  have hops : ∀ op ∈ detour, op.IsSolving := by decide
  obtain ⟨hworkable, -, hends⟩ := run_ends Machine.joinsSigned (answers_setup 2) hstart hops rfl
  obtain ⟨r, s', hrun, hstatus, hended⟩ :=
    hends (hworkable hanswer) (Settings.inRange_of_isPlain hplain) 1000 hwhole
  exact ⟨s₀, n, r, s', hstart, hrun, hstatus, hended⟩

end Session

end QuasiNewton
