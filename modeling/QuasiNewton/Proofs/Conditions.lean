import QuasiNewton.Proofs.Pursuits
import QuasiNewton.Proofs.Solves

/-!
# Solves under other conditions

Whatever the termination condition is, a solve goes through the same arrays until it is cut. A mode
that watches the best norm reports what the one without the watch reports, wherever it reports
success.
-/

namespace QuasiNewton

open QuasiNewton.Action

variable {A : Arithmetic} {P : Type} {setup : Setup A P}

namespace Mode

/-- A mode that watches the best norm, and the one with the same criterion that does not. -/
def Unwatched (mode mode' : Mode) : Prop :=
  mode = .absoluteBest ∧ mode' = .absoluteNorm ∨ mode = .relativeBest ∧ mode' = .relativeNorm

end Mode

namespace Session

variable {c : Cut A} {s s' t' : Session A P} {l : List (Line A.Real)}

/-! ## Trajectories -/

/-- Steps that go on, of sessions that are abreast, leave them abreast. -/
theorem advance_abreast (hs : (advance setup).outcome s = (.ok (), s'))
    (ht : (advance setup).outcome (s.under c l) = (.ok (), t')) (hs' : s'.stopped = false)
    (ht' : t'.stopped = false) : ∃ c' l', t' = s'.under c' l' := by
  obtain ⟨s₁, stop, m, hprobe, -, hs⟩ := outcome_advance_eq_ok.mp hs
  obtain ⟨t₁, stop', m', hprobe', -, ht⟩ := outcome_advance_eq_ok.mp ht
  obtain ⟨l₁, h₁⟩ :=
    (oblivious_probe setup (q := setup.options.resetBudget) (c := c)).of_ok hprobe l
  obtain rfl : t₁ = s₁.under c l₁ := congrArg Prod.snd (hprobe'.symm.trans h₁)
  cases stop with
  | true => exact nomatch hs'.symm.trans (of_conclude_eq_ok hs).1
  | false =>
    cases stop' with
    | true => exact nomatch ht'.symm.trans (of_conclude_eq_ok ht).1
    | false =>
      obtain ⟨l₂, h₂⟩ := (oblivious_refine setup (c := { c with monitor := m' })).of_ok hs l₁
      exact ⟨_, l₂, congrArg Prod.snd (ht.symm.trans h₂)⟩

/-- A session that goes on after a number of steps has gone on after every one. -/
theorem going_of_steps {k : Nat} (hs : (steps setup k).outcome s = (.ok (), s'))
    (hs' : s'.stopped = false) : s.stopped = false := by
  cases hstopped : s.stopped with
  | false => rfl
  | true =>
    rw [outcome_steps_of_stopped setup hstopped] at hs
    obtain rfl := congrArg Prod.snd hs
    exact hstopped.symm.trans hs'

/-- As long as neither session has ended, steps leave sessions abreast that were. -/
theorem steps_abreast {k : Nat} (hs : (steps setup k).outcome s = (.ok (), s'))
    (ht : (steps setup k).outcome (s.under c l) = (.ok (), t')) (hs' : s'.stopped = false)
    (ht' : t'.stopped = false) : ∃ c' l', t' = s'.under c' l' := by
  induction k generalizing s c l with
  | zero =>
    obtain rfl := congrArg Prod.snd hs
    exact ⟨c, l, (congrArg Prod.snd ht).symm⟩
  | succ k ih =>
    have hgoing : s.stopped = false := going_of_steps hs hs'
    obtain ⟨_, s₁, hstep, hs⟩ := outcome_bind_eq_ok.mp hs
    obtain ⟨_, t₁, hstep', ht⟩ := outcome_bind_eq_ok.mp ht
    rw [outcome_step_of_not_stopped setup hgoing] at hstep
    rw [outcome_step_of_not_stopped setup (by exact hgoing)] at hstep'
    obtain ⟨c₁, l₁, rfl⟩ :=
      advance_abreast hstep hstep' (going_of_steps hs hs') (going_of_steps ht ht')
    exact ih hs ht

/-- Solves that differ in their conditions and tolerances start abreast. -/
theorem start_abreast {request request' : Request A P} {t : Session A P} {n n' : Nat}
    (horigin : request'.origin = request.origin) (hparameter : request'.parameter =
      request.parameter) (hs : start setup request = (.ok s, n))
    (ht : start setup request' = (.ok t, n')) : t = s.under t.cut t.transcript := by
  obtain ⟨_, ready, m, check, rule, -, hready, -, hc, hr, rfl⟩ := start_eq_ok_iff.mp hs
  obtain ⟨b', ready', m', check', rule', -, hready', -, hc', hr', rfl⟩ := start_eq_ok_iff.mp ht
  rw [horigin, hparameter, hready, Prod.mk.injEq, Except.ok.injEq] at hready'
  obtain ⟨rfl, rfl⟩ := hready'
  obtain rfl := Except.ok.inj (hc.symm.trans hc')
  obtain rfl := Except.ok.inj (hr.symm.trans hr')
  unfold opened
  rw [horigin, hparameter]
  rfl

/-- The condition of a session that was started is the one that was asked for. -/
theorem condition_of_start {request : Request A P} {n : Nat}
    (h : start setup request = (.ok s, n)) :
    Condition.ofChoice request.condition = .ok s.monitor.condition := by
  obtain ⟨_, _, _, _, _, -, -, hm, -, -, rfl⟩ := start_eq_ok_iff.mp h
  obtain ⟨_, _, _, hκ, -, -, rfl⟩ := Monitor.make_eq_ok.mp hm
  exact hκ

/-- With another condition a solve starts where the norm answers as before. -/
theorem start_of_condition (request : Request A P) {n : Nat}
    {choice : Condition.Choice A.toMagnitudes} {condition : Condition A.toMagnitudes}
    (h : start setup request = (.ok s, n)) (hchoice : Condition.ofChoice choice = .ok condition) :
    start setup { request with condition := choice } =
      (.ok { s with monitor := { s.monitor with condition } }, n) := by
  obtain ⟨b, ready, m, check, rule, hb, hready, hm, hc, hr, rfl⟩ := start_eq_ok_iff.mp h
  obtain ⟨_, tolerances, objective, -, ht, ho, rfl⟩ := Monitor.make_eq_ok.mp hm
  exact start_eq_ok_iff.mpr ⟨b, ready, Monitor.start condition tolerances objective ready.iterate,
    check, rule, hb, hready,
    Monitor.make_eq_ok.mpr ⟨condition, tolerances, objective, hchoice, ht, ho, rfl⟩, hc, hr, rfl⟩

/-! ## Without the watch -/

/-- A cut with the same criterion and budget that does not watch the best norm. -/
structure Unwatched (s : Session A P) (c : Cut A) : Prop where
  mode : s.monitor.condition.mode.Unwatched c.monitor.condition.mode
  monitored : c.monitor.tolerances = s.monitor.tolerances
  tolerances : c.tolerances = s.tolerances
  budget : c.budget = s.budget

/-- The criterion is the same. -/
theorem Unwatched.holds_eq (h : Unwatched s c) (norm : Norm A) (v u : Tensor A) :
    c.monitor.condition.mode.holds norm c.monitor.tolerances v u =
      s.monitor.condition.mode.holds norm s.monitor.tolerances v u := by
  rw [h.monitored]
  rcases h.mode with ⟨hs, hc⟩ | ⟨hs, hc⟩
  · rw [hs, hc]
    rfl
  · rw [hs, hc]
    rfl

/-- Nothing is watched. -/
theorem Unwatched.watchesBest (h : Unwatched s c) :
    c.monitor.condition.mode.watchesBest = false := by
  rcases h.mode with ⟨-, hc⟩ | ⟨-, hc⟩ <;> rw [hc] <;> rfl

/-- What a step keeps of the settings keeps the relation. -/
theorem Unwatched.of_settings (h : Unwatched s c) (hs : s'.settings = s.settings)
    (status : Status) : Unwatched s' { c with monitor := { c.monitor with status } } where
  mode := by
    rw [show s'.monitor.condition = s.monitor.condition from congrArg Settings.condition hs]
    exact h.mode
  monitored := h.monitored.trans (congrArg Settings.monitored hs).symm
  tolerances := h.tolerances.trans (congrArg Settings.tolerances hs).symm
  budget := h.budget.trans (congrArg Settings.budget hs).symm

/-- Without the watch a session pursues one with it, until that one ends without success. -/
theorem pursuit_unwatched : Pursuit setup setup.options.resetBudget Unwatched (· ≠ .success) where
  advance := by
    intro s c s' hc hgoing h
    have hsettings := settings_advance setup s
    rw [h] at hsettings
    obtain ⟨s₁, stop, m, hprobe, hcheck, hlast⟩ := outcome_advance_eq_ok.mp h
    have hmonitor : s₁.monitor = s.monitor := congrArg Cut.monitor (of_probe_eq_ok hprobe).1
    have hprobed (l : List (Line A.Real)) :=
      (oblivious_probe setup (q := setup.options.resetBudget) (c := c)).of_ok hprobe l
    rw [hmonitor] at hcheck
    have hsame := hc.holds_eq setup.norm s₁.work.trial s₁.work.iterate
    rcases Monitor.check_eq_ok hcheck with ⟨hholds, rfl, rfl⟩ | ⟨hholds, hback⟩
    · -- the criterion holds for both
      rw [← hsame] at hholds
      refine .inr ⟨_, hc.of_settings hsettings .success, fun l => ?_⟩
      obtain ⟨l₁, h₁⟩ := hprobed l
      obtain ⟨l₂, h₂⟩ := (oblivious_conclude setup (q := setup.options.resetBudget)
        (c := { c with monitor := { c.monitor with status := .success } })
        (s := { s₁ with monitor := { s.monitor with status := .success } }) rfl nofun).of_ok
          hlast l₁
      exact ⟨l₂, outcome_advance_eq_ok.mpr
        ⟨_, true, _, h₁, Monitor.check_of_holds hholds, h₂⟩⟩
    · cases stop with
      | true =>
        obtain ⟨hstopped, hstatus, -⟩ := of_conclude_eq_ok hlast
        refine .inl ⟨hstopped, fun hsuccess => ?_⟩
        have hfalls : s'.status.fallsBack = true := hstatus ▸ hback rfl
        rw [hsuccess] at hfalls
        cases hfalls
      | false =>
        rw [← hsame] at hholds
        refine .inr ⟨_, hc.of_settings hsettings c.monitor.status, fun l => ?_⟩
        obtain ⟨l₁, h₁⟩ := hprobed l
        have hcheck' : c.monitor.check setup.norm s₁.work.trial s₁.work.iterate =
            (.ok false, c.monitor) := by
          unfold Monitor.check
          rw [hholds, hc.watchesBest]
          rfl
        obtain ⟨l₂, h₂⟩ :=
          (oblivious_refine setup (c := c) (s := { s₁ with monitor := m })).of_ok hlast l₁
        exact ⟨l₂, outcome_advance_eq_ok.mpr ⟨_, false, _, h₁, hcheck', h₂⟩⟩
  lines := fun _ h => { h with }
  continues := by
    intro s c h hcontinue
    rw [mayContinue, Bool.and_eq_true] at hcontinue
    rw [h.budget]
    exact hcontinue.2
  ceiling := fun h => Nat.le_of_eq (congrArg (Quantity.ceiling (M := A.toMagnitudes)) h.budget).symm
  tolerances := fun h => h.tolerances

/-- A solve that watches the best norm and reports success reports the same without the watch. -/
theorem solve_unwatched {request : Request A P}
    {choice choice' : Condition.Choice A.toMagnitudes} {κ κ' : Condition A.toMagnitudes}
    (hκ : Condition.ofChoice choice = .ok κ) (hκ' : Condition.ofChoice choice' = .ok κ')
    (hmode : κ.mode.Unwatched κ'.mode) {r : Report A}
    (h : (solve setup { request with condition := choice }).1 = .ok r)
    (hr : r.status = .success) :
    (solve setup { request with condition := choice' }).1 = .ok r := by
  obtain ⟨s, n, s', hstart, hrun⟩ := solve_eq_ok.mp h
  have hstart' := start_of_condition { request with condition := choice } hstart hκ'
  have hcondition : s.monitor.condition = κ :=
    Except.ok.inj ((condition_of_start hstart).symm.trans hκ)
  have hunwatched : Unwatched s { s.cut with monitor := { s.monitor with condition := κ' } } :=
    { mode := by
        rw [hcondition]
        exact hmode
      monitored := rfl
      tolerances := rfl
      budget := rfl }
  obtain ⟨c', l', hrun'⟩ := pursuit_unwatched.run hunwatched hrun (fun hne => hne hr)
    (fun hspent => nomatch hr.symm.trans hspent) s.transcript
  exact solve_eq_ok.mpr ⟨_, n, _, hstart', hrun'⟩

end Session

end QuasiNewton
