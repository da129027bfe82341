import QuasiNewton.Proofs.Averages
import QuasiNewton.Proofs.Conditions
import QuasiNewton.Proofs.Sizes
import QuasiNewton.Proofs.Stepping

/-!
# The condition cuts the trajectory

Without rounding the root mean square of the components is bounded by every bound of the components,
so a solve that ends under a bound of every component has met that of the norm before, or meets it
then. This is how the condition decides where a trajectory is cut, and it decides no more.
-/

namespace QuasiNewton

open QuasiNewton.Action

/-- A mode that bounds every component, and the one that bounds the norm in the same way. -/
def Mode.Averaged (mode mode' : Mode) : Prop :=
  mode = .absolute ∧ mode' = .absoluteNorm ∨ mode = .relative ∧ mode' = .relativeNorm

/-! ## Success -/

namespace Session

section

variable {A : Arithmetic} {P : Type} {setup : Setup A P} {request : Request A P}
  {s s' : Session A P}

/-- A check without a watch answers what the criterion answers. -/
theorem check_of_unwatched {m : Monitor A} {norm : Norm A} {v u : Tensor A}
    (hm : m.condition.mode.watchesBest = false) {stop : Bool} :
    (m.check norm v u).1 = .ok stop ↔
      m.condition.mode.holds norm m.tolerances v u = .ok stop := by
  unfold Monitor.check
  cases m.condition.mode.holds norm m.tolerances v u with
  | error e => simp
  | ok p => cases p <;> simp [hm]

/-- A session that is concluded with success stays where it is. -/
theorem outcome_conclude_of_success (hs : s.Ordered setup) (hstatus : s.monitor.status = .success) :
    (conclude setup).outcome s = (.ok (), { s with
      work := { s.work with residual := s.work.trial }
      status := .success
      stopped := true }) := by
  have hcommit : (rework (Workspace.commit setup.engine) : Action A P Unit).outcome
      { s with status := .success, stopped := true } = (.ok (), { s with
        work := { s.work with residual := s.work.trial }
        status := .success
        stopped := true }) := by
    rw [outcome_rework, Workspace.Ordered.commit hs]
  rw [conclude, outcome_modify_bind, hstatus, outcome_bind, hcommit]
  rfl

/-- A step whose probe leads where the criterion holds ends with success. -/
theorem outcome_advance_of_holds {p : Session A P} (hp : p.Ordered setup)
    (hprobe : (probe setup).outcome { s with statistics := s.statistics.bump .steps 1 } =
      (.ok (), p))
    (hholds : p.monitor.condition.mode.holds setup.norm p.monitor.tolerances p.work.trial
      p.work.iterate = .ok true) :
    ∃ t, (advance setup).outcome s = (.ok (), t) ∧ t.stopped = true ∧ t.status = .success := by
  refine ⟨_, outcome_advance_eq_ok.mpr ⟨p, true, _, hprobe, Monitor.check_of_holds hholds,
    outcome_conclude_of_success (by exact hp) rfl⟩, rfl, rfl⟩

/-- A session that was going before its check and has not failed goes on after it, if it did not
stop then. -/
theorem going_of_refine (hs : s.Ordered setup) (h : (refine setup).outcome s = (.ok (), s'))
    (hgoing : s.stopped = false) (hgood : s'.stopped = true → s'.status = .success) :
    s'.stopped = false := by
  cases of_refine hs h with
  | exhausted => exact nomatch hgood rfl
  | reset => exact hgoing
  | corrected => exact hgoing

/-- The loop of a run never takes steps back. -/
theorem steps_le_of_iterate {fuel : ℕ} (h : (iterate setup fuel).outcome s = (.ok (), s')) :
    s.statistics.steps ≤ s'.statistics.steps := by
  have hI : Invariant setup (fun t => s.statistics.steps ≤ t.statistics.steps)
      fun t => s.statistics.steps ≤ t.statistics.steps :=
    { advance := fun {t} ht _ => .of_outcome_snd
        (ht.trans ((Int.le_add_one (Int.le_refl _)).trans_eq (steps_advance setup t).symm))
      exhaust := fun ht _ => ht
      lines := fun _ ht => ht
      weaken := fun ht => ht }
  exact (hI.iterate fuel (Int.le_refl _)).of_ok h

/-- A run that reports success ends its loop with that, after the steps that it reports. -/
theorem of_run_of_success {r : Report A} (h : (run setup).outcome s = (.ok r, s'))
    (hr : r.status = .success) :
    ∃ s₁ s₂ v, setup.verbosity = .number v ∧ (announce setup).outcome s = (.ok (), s₁) ∧
      (iterate setup (s.budget.ceiling (M := A.toMagnitudes))).outcome s₁ = (.ok (), s₂) ∧
      s₂.stopped = true ∧ s₂.status = .success ∧ r.steps = s₂.statistics.steps := by
  obtain ⟨norm, -, rfl⟩ := of_run h
  obtain ⟨_, s₁, hannounce, -⟩ := outcome_bind_eq_ok.mp h
  obtain ⟨_, _, hspeaks, -⟩ := outcome_bind_eq_ok.mp hannounce
  obtain ⟨v, hverbosity⟩ := verbosity_of_speaks hspeaks
  rw [outcome_run hannounce] at h
  obtain ⟨_, s₂, hiterate, h⟩ := outcome_bind_eq_ok.mp h
  rw [exhaust, outcome_modify_bind] at h
  change (close setup).outcome s₂.spent = _ at h
  have hclosed : s'.mute = s₂.spent.mute := (keeps_close setup).eq_of_outcome h
  have hsuccess : s₂.spent.status = .success := (congrArg Session.status hclosed).symm.trans hr
  -- a session that has used up its budget has not ended with success
  have hstopped : s₂.stopped = true := by
    cases hgoing : s₂.stopped with
    | true => rfl
    | false =>
      rw [spent_of_going hgoing] at hsuccess
      cases hsuccess
  rw [spent_of_stopped hstopped] at hsuccess hclosed
  exact ⟨s₁, s₂, v, hverbosity, hannounce, hiterate, hstopped, hsuccess,
    congrArg (fun s => s.statistics.steps) hclosed⟩

/-- A run whose loop ends the session reports from there, if its residual has a norm. -/
theorem exists_report_of_iterate {v : Quantity A.Real} (hverbosity : setup.verbosity = .number v)
    {s₁ s₂ : Session A P} (hnorm : ∃ x, setup.norm s₂.work.residual = .ok x)
    (hannounce : (announce setup).outcome s = (.ok (), s₁))
    (hiterate : (iterate setup (s.budget.ceiling (M := A.toMagnitudes))).outcome s₁ =
      (.ok (), s₂)) (hstopped : s₂.stopped = true) :
    ∃ r s', (run setup).outcome s = (.ok r, s') ∧ r.status = s₂.status ∧
      r.steps = s₂.statistics.steps := by
  obtain ⟨r, s', hclose⟩ := answers_close_of_norm hverbosity hnorm
  have hrun : (run setup).outcome s = (.ok r, s') := by
    refine (outcome_run hannounce).trans (outcome_bind_eq_ok.mpr ⟨(), s₂, hiterate, ?_⟩)
    rw [exhaust, outcome_modify_bind, if_pos hstopped]
    exact hclose
  obtain ⟨norm, -, rfl⟩ := of_close hclose
  have hmute := (keeps_close setup).eq_of_outcome hclose
  have hstatus := congrArg Session.status hmute
  have hsteps := congrArg (fun s => s.statistics.steps) hmute
  exact ⟨_, s', hrun, hstatus, hsteps⟩

/-- A solve whose first step leads where the criterion holds reports success. -/
theorem exists_solved_of_probe {p : Session A P} {n : ℕ} {m : ℤ} {v : Quantity A.Real}
    (hstart : start setup request = (.ok s, n)) (hbudget : s.budget.integer? = some m)
    (hm : 1 ≤ m) (hverbosity : setup.verbosity = .number v)
    (hnorm : ∀ t, ∃ x, setup.norm t = .ok x)
    (hprobe : (probe setup).outcome { s with statistics := s.statistics.bump .steps 1 } =
      (.ok (), p))
    (hholds : s.monitor.condition.mode.holds setup.norm s.monitor.tolerances p.work.trial
      p.work.iterate = .ok true) :
    ∃ r, (solve setup request).1 = .ok r ∧ r.status = .success := by
  have hI := Workspace.stable_ordered setup
  have hordered : s.Ordered setup := hI.start hstart
  have hprobed : p.Ordered setup := (hI.probe (by exact hordered)).of_ok hprobe
  have hmonitor : p.monitor = s.monitor := congrArg Cut.monitor (of_probe_eq_ok hprobe).1
  rw [← hmonitor] at hholds
  obtain ⟨t, hadvance, hstopped, hsuccess⟩ := outcome_advance_of_holds hprobed hprobe hholds
  have hstep := (outcome_step_of_not_stopped setup (cleared_start hstart).1.stopped).trans hadvance
  obtain ⟨norm, hsolve⟩ := solve_of_steps (k := 1) hstart hbudget hm hverbosity
    (fun _ _ => hnorm _) (outcome_bind_eq_ok.mpr ⟨(), _, hstep, rfl⟩) (.inl hstopped)
  rw [spent_of_stopped hstopped] at hsolve
  exact ⟨_, hsolve, hsuccess⟩

end

end Session

/-! ## On the average -/

section

variable {𝕜 : Type} [Field 𝕜] [StarRing 𝕜] [DecidableEq 𝕜] {S : Scalars 𝕜 ℝ} {P : Type}
  {setup : Setup S.arithmetic P}

/-- Where the bound of every component is checked, so is that of the norm, which follows from it. -/
theorem Mode.Averaged.holds {mode mode' : Mode} (h : mode.Averaged mode')
    (hroot : S.root = Real.sqrt) {t : Tolerances S.arithmetic} (ht : t.areChecked = true)
    {v u : Tensor S.arithmetic} (hu : u.size ≠ 0) {p : Bool}
    (hp : mode.holds Norm.rms t v u = .ok p) :
    ∃ p', mode'.holds Norm.rms t v u = .ok p' ∧ (p = true → p' = true) := by
  obtain ⟨a, b, ha, hb, rfl⟩ := Tolerances.nonneg_of_areChecked ht
  rcases h with ⟨rfl, rfl⟩ | ⟨rfl, rfl⟩
  · exact holds_absoluteNorm hroot rfl ha hp
  · exact holds_relativeNorm hroot rfl hb hu hp

/-- Neither watches the best norm. -/
theorem Mode.Averaged.watchesBest {mode mode' : Mode} (h : mode.Averaged mode') :
    mode.watchesBest = false ∧ mode'.watchesBest = false := by
  rcases h with ⟨rfl, rfl⟩ | ⟨rfl, rfl⟩ <;> exact ⟨rfl, rfl⟩

namespace Session

variable {c : Cut S.arithmetic} {s s' : Session S.arithmetic P}

/-- A session that is in order and has not ended, with tolerances that were checked, and a cut that
asks of the norm what it asks of every component. -/
structure Averaged (setup : Setup S.arithmetic P) (s : Session S.arithmetic P)
    (c : Cut S.arithmetic) : Prop where
  ordered : s.Ordered setup
  populated : s.Populated
  going : s.stopped = false
  mode : s.monitor.condition.mode.Averaged c.monitor.condition.mode
  checked : s.monitor.tolerances.areChecked = true
  monitored : c.monitor.tolerances = s.monitor.tolerances
  tolerances : c.tolerances = s.tolerances
  budget : c.budget = s.budget

/-- It stays so as long as the settings do. -/
theorem Averaged.next (h : Averaged setup s c) (hordered : s'.Ordered setup)
    (hpopulated : s'.Populated) (hgoing : s'.stopped = false)
    (hsettings : s'.settings = s.settings) : Averaged setup s' c where
  ordered := hordered
  populated := hpopulated
  going := hgoing
  mode := by
    rw [show s'.monitor.condition = s.monitor.condition from congrArg Settings.condition hsettings]
    exact h.mode
  checked := by
    rw [show s'.monitor.tolerances = s.monitor.tolerances from
      congrArg Settings.monitored hsettings]
    exact h.checked
  monitored := h.monitored.trans (congrArg Settings.monitored hsettings).symm
  tolerances := h.tolerances.trans (congrArg Settings.tolerances hsettings).symm
  budget := h.budget.trans (congrArg Settings.budget hsettings).symm

/-- It does not depend on the lines. -/
theorem Averaged.of_mute (h : Averaged setup s c) (hmute : s'.mute = s.mute) :
    Averaged setup s' c := by
  rw [eq_of_mute hmute]
  exact h.next h.ordered ⟨h.populated.iterate, h.populated.best⟩ h.going rfl

/-- A step of a session that goes on, or ends with success, answers under the other cut, too: there
it ends with success, or it goes on as well. -/
theorem Averaged.advance (hroot : S.root = Real.sqrt) (hnorm : setup.norm = Norm.rms)
    (h : Averaged setup s c) (hs : (Session.advance setup).outcome s = (.ok (), s'))
    (hgood : s'.stopped = true → s'.status = .success) (l : List (Line ℝ)) :
    ∃ t', (Session.advance setup).outcome (s.under c l) = (.ok (), t') ∧
      ((t'.stopped = true ∧ t'.status = .success) ∨
        ∃ l', t' = s'.under c l' ∧ Averaged setup s' c) := by
  have hI := Workspace.stable_ordered setup
  obtain ⟨p, stop, m, hprobe, hcheck, hlast⟩ := outcome_advance_eq_ok.mp hs
  have hmonitor : p.monitor = s.monitor := congrArg Cut.monitor (of_probe_eq_ok hprobe).1
  have hordered : p.Ordered setup := (hI.probe (by exact h.ordered)).of_ok hprobe
  have hcounted : ({ s with statistics := s.statistics.bump .steps 1 } :
      Session S.arithmetic P).Populated := ⟨h.populated.iterate, h.populated.best⟩
  have hpopulated : p.Populated := (hcounted.probe (by exact h.ordered)).of_ok hprobe
  obtain ⟨l₁, h₁⟩ :=
    (oblivious_probe setup (q := setup.options.resetBudget) (c := c)).of_ok hprobe l
  -- The norm is bounded wherever every component is.
  rw [hmonitor] at hcheck
  have hholds := (check_of_unwatched h.mode.watchesBest.1).mp (congrArg Prod.fst hcheck)
  rw [hnorm] at hholds
  obtain ⟨stop', hholds', hstop⟩ := h.mode.holds hroot h.checked hpopulated.iterate hholds
  rw [← hnorm, ← h.monitored] at hholds'
  cases stop' with
  | true =>
    obtain ⟨t', ht, hended⟩ := outcome_advance_of_holds (s := s.under c l) (p := p.under c l₁)
      (by exact hordered) h₁ hholds'
    exact ⟨t', ht, .inl hended⟩
  | false =>
    obtain rfl : stop = false := Bool.eq_false_iff.mpr fun h => nomatch hstop h
    have hcheck' : c.monitor.check setup.norm p.work.trial p.work.iterate =
        (.ok false, c.monitor) := by
      unfold Monitor.check
      rw [hholds', h.mode.watchesBest.2]
      rfl
    obtain ⟨l₂, h₂⟩ := (oblivious_refine setup (c := c) (s := { p with monitor := m })).of_ok
      hlast l₁
    have hgoing : s'.stopped = false :=
      going_of_refine (by exact hordered) hlast ((of_probe_eq_ok hprobe).2.2.1.trans h.going) hgood
    have hsettings := settings_advance setup s
    rw [hs] at hsettings
    refine ⟨_, outcome_advance_eq_ok.mpr ⟨p.under c l₁, false, c.monitor, h₁, hcheck', h₂⟩,
      .inr ⟨l₂, rfl, ?_⟩⟩
    exact h.next ((hI.session_advance h.ordered).of_ok hs)
      ((h.populated.advance h.ordered).of_ok hs) hgoing hsettings

/-- Where the loop of a run leads to success, the loop under the other cut does so no later. -/
theorem Averaged.iterate (hroot : S.root = Real.sqrt) (hnorm : setup.norm = Norm.rms)
    (h : Averaged setup s c) {v : Quantity ℝ} (hverbosity : setup.verbosity = .number v)
    {fuel : ℕ} (hs : (Session.iterate setup fuel).outcome s = (.ok (), s'))
    (hstopped : s'.stopped = true) (hsuccess : s'.status = .success) (l : List (Line ℝ)) :
    ∃ t', (Session.iterate setup fuel).outcome (s.under c l) = (.ok (), t') ∧
      t'.stopped = true ∧ t'.status = .success ∧
      t'.statistics.steps ≤ s'.statistics.steps := by
  induction fuel generalizing s c l with
  | zero =>
    obtain rfl := congrArg Prod.snd hs
    exact nomatch h.going.symm.trans hstopped
  | succ fuel ih =>
    rcases of_iterate_eq_ok hs with ⟨-, rfl⟩ | ⟨hcontinue, s₁, s₂, hstep, hprogress, hrest⟩
    · exact nomatch h.going.symm.trans hstopped
    · rw [outcome_step_of_not_stopped setup h.going] at hstep
      have hmute := (keeps_progress setup).eq_of_outcome hprogress
      have hgood : s₁.stopped = true → s₁.status = .success := by
        intro hended
        have hended₂ : s₂.stopped = true := (congrArg Session.stopped hmute).trans hended
        rw [outcome_iterate_of_stopped setup hended₂] at hrest
        obtain rfl := congrArg Prod.snd hrest
        exact (congrArg Session.status hmute).symm.trans hsuccess
      obtain ⟨t₁, ht₁, hnext⟩ := h.advance hroot hnorm hstep hgood l
      have hcontinue' : (s.under c l).mayContinue = true := by
        rw [mayContinue, show (s.under c l).budget = s.budget from h.budget]
        exact hcontinue
      rw [outcome_iterate_succ setup hcontinue', outcome_bind,
        outcome_step_of_not_stopped setup (by exact h.going), ht₁]
      dsimp only
      rw [outcome_bind]
      rcases hnext with ⟨hended, hsuccess'⟩ | ⟨l₁, rfl, hnext⟩
      · -- the other session has met its criterion
        have hanswers : (progress setup).Answers t₁ :=
          answers_progress_of_norm hverbosity fun _ _ => hnorm ▸ ⟨_, rfl⟩
        obtain ⟨_, l₂, h₂⟩ := exists_lines (keeps_progress setup) hanswers
        rw [h₂]
        dsimp only
        refine ⟨_, outcome_iterate_of_stopped setup (by exact hended) fuel, hended, hsuccess', ?_⟩
        -- as many steps are counted in both
        have hcount := steps_advance setup s
        have hcount' := steps_advance setup (s.under c l)
        rw [hstep] at hcount
        rw [ht₁] at hcount'
        have hsteps : s₂.statistics.steps = s₁.statistics.steps :=
          congrArg (fun s => s.statistics.steps) hmute
        calc t₁.statistics.steps = s.statistics.steps + 1 := hcount'
          _ = s₂.statistics.steps := (hsteps.trans hcount).symm
          _ ≤ s'.statistics.steps := steps_le_of_iterate hrest
      · obtain ⟨l₂, h₂⟩ :=
          (oblivious_progress setup (q := setup.options.resetBudget)).of_ok hprogress l₁
        rw [show (progress setup).outcome (s₁.under c l₁) = (.ok (), s₂.under c l₂) from h₂]
        exact ih (hnext.of_mute hmute) hrest l₂

/-- A session that was started under a bound of every component, and the cut for that of the norm.
-/
theorem averaged_start {request : Request S.arithmetic P} {n : ℕ} {κ κ' : Condition S.magnitudes}
    (h : start setup request = (.ok s, n)) (hκ : Condition.ofChoice request.condition = .ok κ)
    (hmode : κ.mode.Averaged κ'.mode) :
    Averaged setup s { s.cut with monitor := { s.monitor with condition := κ' } } where
  ordered := (Workspace.stable_ordered setup).start h
  populated := populated_start h
  going := (cleared_start h).1.stopped
  mode := by
    rw [Except.ok.inj ((condition_of_start h).symm.trans hκ)]
    exact hmode
  checked := by
    obtain ⟨_, _, _, _, _, _, _, -, ht, rfl⟩ := of_start h
    exact Tolerances.areChecked_of_make ht
  monitored := rfl
  tolerances := rfl
  budget := rfl

/-- A solve that reports success under a bound of every component reports success, no later, under
the bound of the norm. -/
theorem solve_averaged (hroot : S.root = Real.sqrt) (hnorm : setup.norm = Norm.rms)
    {request : Request S.arithmetic P} {choice choice' : Condition.Choice S.magnitudes}
    {κ κ' : Condition S.magnitudes} (hκ : Condition.ofChoice choice = .ok κ)
    (hκ' : Condition.ofChoice choice' = .ok κ') (hmode : κ.mode.Averaged κ'.mode)
    {r : Report S.arithmetic} (h : (solve setup { request with condition := choice }).1 = .ok r)
    (hr : r.status = .success) :
    ∃ r', (solve setup { request with condition := choice' }).1 = .ok r' ∧
      r'.status = .success ∧ r'.steps ≤ r.steps := by
  obtain ⟨s, n, s', hstart, hrun⟩ := solve_eq_ok.mp h
  have hstart' := start_of_condition { request with condition := choice } hstart hκ'
  have haveraged := averaged_start hstart hκ hmode
  obtain ⟨s₁, s₂, v, hverbosity, hannounce, hiterate, hstopped, hsuccess, hsteps⟩ :=
    of_run_of_success hrun hr
  obtain ⟨l₁, h₁⟩ := (oblivious_announce setup (q := setup.options.resetBudget)
    (c := { s.cut with monitor := { s.monitor with condition := κ' } }) rfl).of_ok hannounce
      s.transcript
  obtain ⟨t₂, ht₂, hended, hended', hle⟩ :=
    (haveraged.of_mute ((keeps_announce setup).eq_of_outcome hannounce)).iterate hroot hnorm
      hverbosity hiterate hstopped hsuccess l₁
  obtain ⟨r', t', hrun', hstatus', hsteps'⟩ :=
    exists_report_of_iterate hverbosity (hnorm ▸ ⟨_, rfl⟩) h₁ ht₂ hended
  refine ⟨r', solve_eq_ok.mpr ⟨_, n, t', hstart', hrun'⟩, hstatus'.trans hended', ?_⟩
  rw [hsteps, hsteps']
  exact hle

end Session

end

/-! ## The trajectory -/

namespace Session

/-- The condition only decides where a trajectory is cut, if the norm is a function of the residual
and so has no part in the steps. (1) Solves from one starting point with
any conditions, tolerances and budgets hold the same arrays, resets and counters after the same
number of steps, as long as neither has ended. (2) Over the reals and the complex numbers, without
rounding, a solve that succeeds with a bound of every component succeeds with that bound of the root
mean square after no more steps. (3) A solve that succeeds while it watches the best norm reports
the same without the watch. -/
theorem condition_cuts_trajectory :
    (∀ {A : Arithmetic} {P : Type} (setup : Setup A P) (request request' : Request A P)
      (s s' t t' : Session A P) (n n' k : ℕ), request'.origin = request.origin →
      request'.parameter = request.parameter → start setup request = (.ok s, n) →
      start setup request' = (.ok t, n') → (steps setup k).outcome s = (.ok (), s') →
      (steps setup k).outcome t = (.ok (), t') → s'.stopped = false → t'.stopped = false →
      t'.work = s'.work ∧ t'.resets = s'.resets ∧ t'.statistics = s'.statistics) ∧
    (∀ {𝕜 P : Type} [Field 𝕜] [StarRing 𝕜] [DecidableEq 𝕜] (S : Scalars 𝕜 ℝ)
      (setup : Setup S.arithmetic P) (request : Request S.arithmetic P)
      (choice choice' : Condition.Choice S.magnitudes) (κ κ' : Condition S.magnitudes)
      (r : Report S.arithmetic), S.root = Real.sqrt → setup.norm = Norm.rms →
      Condition.ofChoice choice = .ok κ → Condition.ofChoice choice' = .ok κ' →
      κ.mode.Averaged κ'.mode → (solve setup { request with condition := choice }).1 = .ok r →
      r.status = .success →
      ∃ r', (solve setup { request with condition := choice' }).1 = .ok r' ∧
        r'.status = .success ∧ r'.steps ≤ r.steps) ∧
    (∀ {A : Arithmetic} {P : Type} (setup : Setup A P) (request : Request A P)
      (choice choice' : Condition.Choice A.toMagnitudes) (κ κ' : Condition A.toMagnitudes)
      (r : Report A), Condition.ofChoice choice = .ok κ → Condition.ofChoice choice' = .ok κ' →
      κ.mode.Unwatched κ'.mode → (solve setup { request with condition := choice }).1 = .ok r →
      r.status = .success → (solve setup { request with condition := choice' }).1 = .ok r) := by
  refine ⟨?_, fun S setup request choice choice' κ κ' r hroot hnorm hκ hκ' hmode h hr =>
    solve_averaged hroot hnorm hκ hκ' hmode h hr,
    fun setup request choice choice' κ κ' r hκ hκ' hmode h hr =>
      solve_unwatched hκ hκ' hmode h hr⟩
  intro A P setup request request' s s' t t' n n' k horigin hparameter hs ht hsteps hsteps' hgoing
    hgoing'
  rw [start_abreast horigin hparameter hs ht] at hsteps'
  obtain ⟨c, l, rfl⟩ := steps_abreast hsteps hsteps' hgoing hgoing'
  exact ⟨rfl, rfl, rfl⟩

end Session

namespace Affine

/-- The real numbers with default tolerances of zero and one. -/
noncomputable def reals : Scalars ℝ ℝ := .ofRCLike ℝ (fun _ => none) 0 1 one_pos

/-- A residual function that is zero everywhere. -/
noncomputable def still : Setup reals.arithmetic Int := setup reals.arithmetic 0

/-- A start at a single element. -/
noncomputable def stillRequest : Request reals.arithmetic Int := startAt () [1] 0

end Affine

namespace Session

open QuasiNewton.Affine

/-- The first step ends a solve of a residual that is zero everywhere. -/
theorem exists_solved_still : ∃ r, (solve still { stillRequest with
    condition := .condition (.ofMode .absolute) }).1 = .ok r ∧ r.status = .success := by
  have htolerances : Tolerances.make (A := reals.arithmetic) () .absent .absent =
      .ok ⟨.number (.real (0 : ℝ)), .number (.real (0 : ℝ))⟩ := by
    have hnonneg : Tolerances.isNegative (A := reals.arithmetic) (0 : ℝ) = false := by
      change (some (compare (0 : ℝ) ((0 : ℤ) : ℝ)) == some .lt) = false
      rw [Int.cast_zero, compare_eq_iff_eq.mpr rfl]
      rfl
    change (if Tolerances.isNegative (A := reals.arithmetic) (0 : ℝ) ||
      Tolerances.isNegative (A := reals.arithmetic) (0 : ℝ) then _ else _) = _
    rw [hnonneg]
    rfl
  have hcheck : ResetCheck.forKind (A := reals.arithmetic) () .absent = .ok ⟨.real (1 : ℝ)⟩ := by
    refine if_pos (beq_iff_eq.mpr (congrArg some (compare_gt_iff_gt.mpr ?_)))
    rw [Int.cast_zero]
    exact one_pos
  have hstart : start still { stillRequest with condition := .condition (.ofMode .absolute) } =
      (.ok _, 1) :=
    start_eq_ok_iff.mpr ⟨_, _, _, _, _, rfl, rfl,
      Monitor.make_eq_ok.mpr ⟨_, _, _, rfl, htolerances, rfl, rfl⟩, hcheck, rfl, rfl⟩
  refine exists_solved_of_probe hstart rfl (by decide) rfl (fun _ => ⟨_, rfl⟩) rfl ?_
  refine (Tensor.allWithin_real _ _).mpr fun i hi => ?_
  have hzero (x : ℝ) : ((0 : ℤ) : ℝ) * x - ((0 : ℤ) : ℝ) = 0 := by simp
  refine (congrArg (fun x : ℝ => Real.sqrt (RCLike.normSq x))
    ((Tensor.elem_ofFn _ _ _ hi).trans (hzero _))).trans_le ?_
  rw [map_zero, Real.sqrt_zero]

/-- A step of the affine problem is the same under an absolute and a relative condition. A problem
that is at rest succeeds under a bound of the norm no later than under that of every component. The
affine problem has the same report with and without the watch. -/
theorem condition_cuts_trajectory_affine :
    (∃ s t n n' s' t', start problem request = (.ok s, n) ∧
      start problem { request with condition := .setting (.text "rel") } = (.ok t, n') ∧
      (steps problem 1).outcome s = (.ok (), s') ∧ (steps problem 1).outcome t = (.ok (), t') ∧
      t'.work = s'.work ∧ t'.resets = s'.resets ∧ t'.statistics = s'.statistics) ∧
    (∃ r r', (solve still { stillRequest with condition := .condition (.ofMode .absolute) }).1 =
        .ok r ∧
      (solve still { stillRequest with condition := .condition (.ofMode .absoluteNorm) }).1 =
        .ok r' ∧ r'.status = .success ∧ r'.steps ≤ r.steps) ∧
    ∃ r, r.status = .success ∧
      (solve problem { request with condition := .setting (.text "abs_safe_best") }).1 = .ok r ∧
      (solve problem { request with condition := .setting (.text "abs_norm") }).1 = .ok r := by
  obtain ⟨habreast, haveraged, hunwatched⟩ := condition_cuts_trajectory
  refine ⟨?_, ?_, ?_⟩
  · obtain ⟨s, n, hs, ⟨_, hsteps⟩, hgoing⟩ := exists_started problem request
      (fun s => (∃ a, ((steps problem 1).outcome s).1 = .ok a) ∧
        ((steps problem 1).outcome s).2.stopped = false) (by decide +kernel)
    obtain ⟨t, n', ht, ⟨_, hsteps'⟩, hgoing'⟩ := exists_started problem
      { request with condition := .setting (.text "rel") }
      (fun s => (∃ a, ((steps problem 1).outcome s).1 = .ok a) ∧
        ((steps problem 1).outcome s).2.stopped = false) (by decide +kernel)
    exact ⟨s, t, n, n', _, _, hs, ht, Prod.ext hsteps rfl, Prod.ext hsteps' rfl,
      habreast problem _ _ s _ t _ n n' 1 (by exact rfl) (by exact rfl) hs ht (Prod.ext hsteps rfl)
        (Prod.ext hsteps' rfl) hgoing hgoing'⟩
  · obtain ⟨r, hsolve, hr⟩ := exists_solved_still
    obtain ⟨r', hsolve', hr', hle⟩ := haveraged reals still stillRequest
      (.condition (.ofMode .absolute)) (.condition (.ofMode .absoluteNorm)) _ _ r rfl rfl rfl rfl
      (.inl ⟨rfl, rfl⟩) hsolve hr
    exact ⟨r, r', hsolve, hsolve', hr', hle⟩
  · obtain ⟨r, hsolve, hr⟩ := exists_solved problem
      { request with condition := .setting (.text "abs_safe_best") }
      (fun r => r.status = .success) (by decide +kernel)
    exact ⟨r, hr, hsolve, hunwatched problem request _ _ _ _ r rfl rfl (.inl ⟨rfl, rfl⟩) hsolve hr⟩

end Session

end QuasiNewton
