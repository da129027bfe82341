import QuasiNewton.Proofs.Budget
import QuasiNewton.Proofs.Fallback
import QuasiNewton.Proofs.Wholes

/-!
# Verdicts

Whether a session has ended, why, what its monitor knows of it and which limit it has met agree with
one another, after steps and runs that answer and after those that fail wherever they were.
-/

namespace QuasiNewton

open QuasiNewton.Action

variable {A : Arithmetic} {P : Type} {setup : Setup A P}

/-- What the monitor knows of an outcome: budgets are none of its business. -/
def Status.monitored : Status → Status
  | .success => .success
  | .stalled => .stalled
  | .unstable => .unstable
  | .running | .resetsExhausted | .iterationsExhausted => .running

/-- A check that does not stop the solve leaves the cause of a stop as it was. -/
theorem Monitor.status_check {m : Monitor A} {norm : Norm A} {residual iterate : Tensor A}
    (h : (m.check norm residual iterate).1 ≠ .ok true) :
    (m.check norm residual iterate).2.status = m.status := by
  have hobserve (y : A.Real) : (m.observe y iterate).status = m.status := by
    unfold observe
    split <;> rfl
  unfold check at h ⊢
  split
  case h_1 => rfl
  case h_2 hholds =>
    rw [hholds] at h
    exact absurd rfl h
  case h_3 hholds =>
    rw [hholds] at h
    dsimp only at h ⊢
    split
    case isFalse => rfl
    case isTrue hwatches =>
      rw [if_pos hwatches] at h
      split
      case h_2 => rfl
      case h_1 y hy =>
        rw [hy] at h
        unfold watch at h ⊢
        dsimp only at h ⊢
        split
        case h_1 => exact hobserve y
        case h_2 => exact hobserve y
        case h_3 status hrunning hverdict =>
          rw [hverdict] at h
          cases status with
          | running => exact absurd rfl hrunning
          | _ => exact absurd rfl h

/-- A starting point that is ready has cost one evaluation. -/
theorem Origin.calls_of_ready {origin : Origin A} {R : Residual A P} {p : P} {n : Nat}
    {ready : Ready A} (h : (origin.ready R p n).1 = .ok ready) :
    (origin.ready R p n).2 = n + 1 := by
  unfold Origin.ready at h ⊢
  by_cases hsize : origin.point.size = 0
  · rw [if_pos hsize] at h
    cases h
  · rw [if_neg hsize]
    exact Residual.evaluate_snd ..

namespace Session

variable {m : Int} {s s' : Session A P}

/-! ## Starts and restarts -/

/-- A session that counts from the beginning. -/
structure Cleared (s : Session A P) : Prop where
  status : s.status = .running
  stopped : s.stopped = false
  cause : s.monitor.status = .running
  statistics : s.statistics = .fresh
  resets : s.resets = 0
  point : s.monitor.bestIterate = s.work.iterate

/-- A start clears a session, with one evaluation. -/
theorem cleared_start {request : Request A P} {n : Nat}
    (h : start setup request = (.ok s, n)) : s.Cleared ∧ s.evaluations = 1 := by
  obtain ⟨budget, ready, c, tolerances, objective, check, rule, hready, -, rfl⟩ := of_start h
  have hcalls := Origin.calls_of_ready (congrArg Prod.fst hready)
  rw [hready] at hcalls
  exact ⟨⟨rfl, rfl, rfl, rfl, rfl, rfl⟩, hcalls⟩

/-- A move that answers evaluates once, whether it keeps the arrays or makes new ones. -/
theorem evaluations_relocate {point : Tensor A} {layout : Layout}
    (h : (relocate setup point layout).outcome s = (.ok (), s')) :
    s'.evaluations = s.evaluations + 1 := by
  unfold relocate at h
  rw [outcome_get_bind] at h
  by_cases hshape : point.shape = s.work.iterate.shape
  · rw [if_pos hshape] at h
    obtain ⟨_, s₁, hmove, h⟩ := outcome_bind_eq_ok.mp h
    obtain ⟨w, hw, hmove⟩ := outcome_rework_bind_eq_ok.mp hmove
    obtain ⟨origin, shared, hsettle⟩ := outcome_settleOrigin_bind setup _ _
    rw [hsettle, outcome_get_bind] at hmove
    obtain ⟨v, s₂, hevaluate, hmove⟩ := outcome_bind_eq_ok.mp hmove
    obtain ⟨-, rfl⟩ := of_evaluate hevaluate
    cases hmove
    rw [← bind_pure (rework _)] at h
    obtain ⟨w', -, h⟩ := outcome_rework_bind_eq_ok.mp h
    cases h
    rfl
  · rw [if_neg hshape, reopen, outcome_get_bind, outcome_modify_bind] at h
    obtain ⟨ready, hready, h⟩ := outcome_attempt_bind_eq_ok.mp h
    rw [outcome_modify_bind, outcome_get_bind] at h
    obtain ⟨check, -, h⟩ := outcome_attempt_bind_eq_ok.mp h
    cases h
    exact Origin.calls_of_ready hready

/-- A restart that answers clears a session, with one evaluation. -/
theorem cleared_restart {r : Restart A P} (h : (restart setup r).outcome s = (.ok (), s')) :
    s'.Cleared ∧ s'.evaluations = s.evaluations + 1 := by
  obtain ⟨_, s₁, hadopt, h⟩ := outcome_bind_eq_ok.mp h
  obtain ⟨budget, -, rfl⟩ := of_adopt hadopt
  rw [outcome_get_bind] at h
  obtain ⟨_, s₂, hrelocate, h⟩ := outcome_bind_eq_ok.mp h
  obtain ⟨_, s₃, hrenew, h⟩ := outcome_bind_eq_ok.mp h
  have hevaluations := evaluations_relocate hrelocate
  rw [outcome_renewMonitor] at hrenew
  rcases hm : r.monitor setup.norm s₂.monitor s₂.tolerances s₂.work.residual s₂.work.iterate with
    ⟨_ | _, monitor⟩
  · rw [hm] at hrenew
    cases hrenew
  · rw [hm] at hrenew
    cases hrenew
    cases h
    obtain ⟨c, t, objective, -, hstart⟩ := Restart.of_monitor (congrArg Prod.fst hm)
    rw [hm] at hstart
    obtain rfl : monitor = _ := hstart
    exact ⟨⟨rfl, rfl, rfl, rfl, rfl, rfl⟩, hevaluations⟩

/-! ## Coherence -/

/-- Whether and why a session has ended agree with what its monitor knows and with the limits it
works within. `m` is the number of resets that are allowed. -/
structure Coherent (m : Int) (s : Session A P) : Prop where
  stopped : s.stopped = true ↔ s.status ≠ .running
  cause : s.monitor.status = s.status.monitored
  watches : s.status = .stalled ∨ s.status = .unstable →
    s.monitor.condition.mode = .absoluteBest ∨ s.monitor.condition.mode = .relativeBest
  resets : s.resets ≤ m
  resetsExhausted : s.status = .resetsExhausted → s.resets = m
  counted : 0 ≤ s.statistics.steps
  iterationsExhausted : s.status = .iterationsExhausted →
    ∀ n, s.budget.integer? = some n → n ≤ s.statistics.steps

/-- A session that has just begun is coherent. -/
theorem Cleared.coherent (h : s.Cleared) (hm : 0 ≤ m) : s.Coherent m where
  stopped := by
    rw [h.stopped, h.status]
    exact ⟨nofun, fun hne => absurd rfl hne⟩
  cause := by
    rw [h.cause, h.status]
    rfl
  watches := by
    rw [h.status]
    exact nofun
  resets := by
    rw [h.resets]
    exact hm
  resetsExhausted := by
    rw [h.status]
    exact nofun
  counted := by
    rw [h.statistics]
    exact Int.le_refl 0
  iterationsExhausted := by
    rw [h.status]
    exact nofun

namespace Coherent

/-- Coherence is a matter of the monitor and the verdict. -/
theorem of_monitorAndVerdict (h : s.Coherent m)
    (hsame : s'.monitorAndVerdict = s.monitorAndVerdict) : s'.Coherent m := by
  obtain ⟨hverdict, hrest⟩ := Prod.mk.inj hsame
  obtain ⟨hresets, hmonitor⟩ := Prod.mk.inj hrest
  obtain ⟨hsettings, hverdict⟩ := Prod.mk.inj hverdict
  obtain ⟨hstatus, hverdict⟩ := Prod.mk.inj hverdict
  obtain ⟨hstopped, hsteps⟩ := Prod.mk.inj hverdict
  have hbudget : s'.budget = s.budget := congrArg Settings.budget hsettings
  constructor
  case stopped =>
    rw [hstopped, hstatus]
    exact h.stopped
  case cause =>
    rw [hmonitor, hstatus]
    exact h.cause
  case watches =>
    rw [hmonitor, hstatus]
    exact h.watches
  case resets =>
    rw [hresets]
    exact h.resets
  case resetsExhausted =>
    rw [hresets, hstatus]
    exact h.resetsExhausted
  case counted =>
    rw [hsteps]
    exact h.counted
  case iterationsExhausted =>
    rw [hbudget, hstatus, hsteps]
    exact h.iterationsExhausted

/-- What keeps the monitor and the verdict keeps a session coherent. -/
theorem upheld {α : Type} {x : Action A P α} (h : s.Coherent m) (hx : x.Keeps monitorAndVerdict) :
    Upholds (fun _ => Coherent m) (Coherent m) x s :=
  .of_keeps hx fun _ hsame => h.of_monitorAndVerdict hsame

/-- A session that has not ended is running. -/
theorem running (h : s.Coherent m) (hgoing : s.stopped = false) : s.status = .running := by
  by_contra hstatus
  exact absurd (hgoing.symm.trans (h.stopped.mpr hstatus)) Bool.false_ne_true

end Coherent

/-- A coherent session that is running. -/
structure Live (m : Int) (s : Session A P) : Prop where
  status : s.status = .running
  stopped : s.stopped = false
  cause : s.monitor.status = .running
  resets : s.resets ≤ m
  counted : 0 ≤ s.statistics.steps

/-- A coherent session that goes on is running. -/
theorem Coherent.live (h : s.Coherent m) (hgoing : s.stopped = false) : s.Live m where
  status := h.running hgoing
  stopped := hgoing
  cause := by rw [h.cause, h.running hgoing]; rfl
  resets := h.resets
  counted := h.counted

namespace Live

/-- A running session is coherent, and so it is if it ends with what its monitor knows. -/
theorem coherent (h : s.Live m) : s.Coherent m where
  stopped := by
    rw [h.stopped, h.status]
    exact ⟨nofun, fun hne => absurd rfl hne⟩
  cause := by
    rw [h.cause, h.status]
    rfl
  watches := by
    rw [h.status]
    exact nofun
  resets := h.resets
  resetsExhausted := by
    rw [h.status]
    exact nofun
  counted := h.counted
  iterationsExhausted := by
    rw [h.status]
    exact nofun

/-- So is to be running. -/
theorem of_monitorAndVerdict (h : s.Live m) (hsame : s'.monitorAndVerdict = s.monitorAndVerdict) :
    s'.Live m := by
  have hstopped : s'.stopped = s.stopped := congrArg (·.1.2.2.1) hsame
  exact (h.coherent.of_monitorAndVerdict hsame).live (hstopped.trans h.stopped)

/-- What keeps the monitor and the verdict leaves a running session running. -/
theorem upheld {α : Type} {x : Action A P α} (h : s.Live m) (hx : x.Keeps monitorAndVerdict) :
    Upholds (fun _ => Live m) (Coherent m) x s :=
  .mono (.of_keeps hx fun _ hsame => h.of_monitorAndVerdict hsame) (fun _ _ h => h) fun _ h =>
    h.coherent

/-! ## Steps -/

/-- A running session whose monitor has stopped it ends for the cause that the monitor knows. -/
theorem concluded (h : s.Live m) {c : Monitor A}
    (hc : s.monitor.check setup.norm s.work.trial s.work.iterate = (.ok true, c)) :
    Upholds (fun _ => Coherent m) (Coherent m) (conclude setup) { s with monitor := c } := by
  have hwatches (hback : c.status.fallsBack = true) :
      c.condition.mode = .absoluteBest ∨ c.condition.mode = .relativeBest := by
    obtain ⟨hwatches, -⟩ := Monitor.of_check_fallsBack hc hback
    have hcondition := (s.monitor.check_configuration setup.norm s.work.trial s.work.iterate).1
    rw [hc] at hcondition
    rw [show c.condition = s.monitor.condition from hcondition]
    exact of_decide_eq_true hwatches
  have hknown : c.status = .success ∨ c.status.fallsBack = true := by
    rcases Monitor.check_eq_ok hc with ⟨-, -, hsuccess⟩ | ⟨-, hback⟩
    · exact .inl (congrArg Monitor.status hsuccess)
    · exact .inr (hback rfl)
  have hended : ({ s with monitor := c, status := c.status, stopped := true } :
      Session A P).Coherent m := by
    have hfinal : c.status = .success ∨ c.status = .stalled ∨ c.status = .unstable :=
      hknown.imp_right of_decide_eq_true
    constructor
    case stopped =>
      refine ⟨fun _ => ?_, fun _ => rfl⟩
      rcases hfinal with h | h | h <;> rw [h] <;> nofun
    case cause => rcases hfinal with h | h | h <;> rw [h] <;> rfl
    case watches => exact fun hback => hwatches (decide_eq_true hback)
    case resets => exact h.resets
    case resetsExhausted =>
      intro hstatus
      rcases hfinal with h | h | h <;> cases h.symm.trans hstatus
    case counted => exact h.counted
    case iterationsExhausted =>
      intro hstatus
      rcases hfinal with h | h | h <;> cases h.symm.trans hstatus
  refine .modify_seq (.seq (hended.upheld (.of_rework fun _ _ _ => rfl)) fun _ s₁ h₁ => .get_seq ?_)
  split
  · exact h₁.upheld (monitorAndVerdict_restoreBest setup)
  · exact .of_pure h₁

/-- A running session resets within its budget, or it ends with the budget used up. -/
theorem resetOrStop (hm : Quantity.StandsFor (M := A.toMagnitudes) setup.options.resetBudget m)
    (h : s.Live m) : Upholds (fun _ => Coherent m) (Coherent m) (Session.resetOrStop setup) s := by
  refine .get_seq ?_
  by_cases hreached :
    setup.options.resetBudget.isReachedBy (M := A.toMagnitudes) s.resets = true
  · rw [if_pos hreached]
    have hended : ({ s with status := .resetsExhausted, stopped := true } :
        Session A P).Coherent m :=
      { stopped := ⟨fun _ => nofun, fun _ => rfl⟩
        cause := h.cause
        watches := nofun
        resets := h.resets
        resetsExhausted := fun _ => Int.le_antisymm h.resets (hm.isReachedBy_iff.mp hreached)
        counted := h.counted
        iterationsExhausted := nofun }
    exact .modify_seq (hended.upheld (monitorAndVerdict_of_mute (keeps_log setup _)))
  · rw [if_neg hreached]
    have hleft : s.resets + 1 ≤ m := by
      have hnot := mt hm.isReachedBy_iff.mpr hreached
      omega
    refine .seq (m := fun _ s₁ => Live m { s₁ with resets := s₁.resets + 1 })
      (.of_rework (fun w _ => { h with resets := hleft }) fun _ _ => h.coherent) fun _ s₁ h₁ => ?_
    have hlog (what : Event A.Real) := monitorAndVerdict_of_mute (keeps_log setup what)
    exact .modify_seq (.get_seq (h₁.coherent.upheld (hlog _)))

/-- The second half of a step that goes on keeps a session coherent. -/
theorem refine (hm : Quantity.StandsFor (M := A.toMagnitudes) setup.options.resetBudget m)
    (h : s.Live m) : Upholds (fun _ => Coherent m) (Coherent m) (Session.refine setup) s := by
  refine .seq (h.upheld (.of_rework fun _ _ _ => rfl)) fun _ s₁ h₁ => ?_
  refine .seq (h₁.upheld (.of_rework fun _ _ _ => rfl)) fun _ s₂ h₂ => .get_seq ?_
  refine .attempt_seq (fun _ _ => h₂.coherent) fun small _ => ?_
  split
  · exact h₂.resetOrStop hm
  · exact h₂.coherent.upheld (monitorAndVerdict_correct setup)

/-- As long as its monitor does not stop it a session goes on running. -/
theorem consulted (h : s.Live m)
    (hgoing : (s.monitor.check setup.norm s.work.trial s.work.iterate).1 ≠ .ok true) :
    ({ s with monitor := (s.monitor.check setup.norm s.work.trial s.work.iterate).2 } :
      Session A P).Live m :=
  { h with cause := (Monitor.status_check hgoing).trans h.cause }

end Live

namespace Coherent

/-- A step keeps a session coherent, wherever it fails. -/
theorem advance (hm : Quantity.StandsFor (M := A.toMagnitudes) setup.options.resetBudget m)
    (h : s.Coherent m) (hgoing : s.stopped = false) :
    Upholds (fun _ => Coherent m) (Coherent m) (Session.advance setup) s := by
  have hlive := h.live hgoing
  have hcounted : ({ s with statistics := s.statistics.bump .steps 1 } : Session A P).Live m :=
    { hlive with counted := Int.le_add_one hlive.counted }
  refine .modify_seq (.seq (hcounted.upheld (monitorAndVerdict_probe setup)) fun _ s₁ h₁ => ?_)
  refine .seq (m := fun stop s₂ => ∃ c, s₁.monitor.check setup.norm s₁.work.trial
    s₁.work.iterate = (.ok stop, c) ∧ s₂ = { s₁ with monitor := c })
    (.of_cases (fun stop s₂ h₂ => ?_) fun e s₂ h₂ => ?_) fun stop s₂ h₂ => ?_
  · rw [outcome_consult] at h₂
    obtain ⟨hstop, rfl⟩ := Prod.mk.inj h₂
    exact ⟨_, Prod.ext hstop rfl, rfl⟩
  · rw [outcome_consult] at h₂
    obtain ⟨hfails, rfl⟩ := Prod.mk.inj h₂
    refine (h₁.consulted fun hstop => ?_).coherent
    cases hfails.symm.trans hstop
  · obtain ⟨c, hc, rfl⟩ := h₂
    cases stop with
    | true => exact h₁.concluded hc
    | false =>
      have hgoes : (s₁.monitor.check setup.norm s₁.work.trial s₁.work.iterate).1 ≠ .ok true := by
        rw [hc]
        exact nofun
      have h₂ := h₁.consulted hgoes
      rw [hc] at h₂
      exact h₂.refine hm

/-- So does a step, whether the session goes on or has ended. -/
theorem step (hm : Quantity.StandsFor (M := A.toMagnitudes) setup.options.resetBudget m)
    (h : s.Coherent m) : Upholds (fun _ => Coherent m) (Coherent m) (Session.step setup) s := by
  refine .get_seq ?_
  cases hstopped : s.stopped with
  | true => exact .of_pure h
  | false => exact h.advance hm hstopped

/-- So does any number of steps. -/
theorem steps (hm : Quantity.StandsFor (M := A.toMagnitudes) setup.options.resetBudget m) (n : Nat)
    (h : s.Coherent m) : Upholds (fun _ => Coherent m) (Coherent m) (Session.steps setup n) s := by
  induction n generalizing s with
  | zero => exact .of_pure h
  | succ n ih => exact .seq (h.step hm) fun _ s₁ h₁ => ih h₁

/-- So does the loop of a run. -/
theorem iterate (hm : Quantity.StandsFor (M := A.toMagnitudes) setup.options.resetBudget m)
    (fuel : Nat) (h : s.Coherent m) :
    Upholds (fun _ => Coherent m) (Coherent m) (Session.iterate setup fuel) s := by
  induction fuel generalizing s with
  | zero => exact .of_pure h
  | succ fuel ih =>
    refine .get_seq ?_
    split
    · refine .seq (h.step hm) fun _ s₁ h₁ => ?_
      exact .seq (h₁.upheld (monitorAndVerdict_of_mute (keeps_progress setup))) fun _ s₂ h₂ => ih h₂
    · exact .of_pure h

end Coherent

/-! ## The end of a loop -/

/-- The session has ended or has taken all the steps of its budget, if that is a whole number. -/
def Spent (s : Session A P) : Prop :=
  s.stopped = true ∨ ∀ n, s.budget.integer? = some n → n ≤ s.statistics.steps

/-- A loop that may turn as often as its budget allows ends with the session or with the budget. -/
theorem iterate_spent (fuel : Nat)
    (hfuel : ∀ n, s.budget.integer? = some n → n ≤ s.statistics.steps + fuel) :
    Upholds (fun _ => Spent) (fun _ => True) (iterate setup fuel) s := by
  induction fuel generalizing s with
  | zero =>
    refine .of_pure (.inr fun n hn => ?_)
    have hsteps := hfuel n hn
    omega
  | succ fuel ih =>
    refine .get_seq ?_
    by_cases hcontinue : s.mayContinue = true
    · rw [if_pos hcontinue]
      have hgoing : s.stopped = false := (mayContinue_eq_true_iff.mp hcontinue).1
      -- A turn counts one step and keeps the budget.
      have hturn : Upholds (fun _ s₁ => s₁.settingsAndSteps = (s.settings, s.statistics.steps + 1))
          (fun _ => True) (step setup) s := by
        have hconfiguration := settingsAndSteps_advance setup s
        rw [← outcome_step_of_not_stopped setup hgoing] at hconfiguration
        refine .of_cases (fun _ s₁ h₁ => ?_) fun _ _ _ => trivial
        rwa [h₁] at hconfiguration
      refine .seq hturn fun _ s₁ h₁ => ?_
      refine .seq ((Upholds.of_keeps ((keeps_progress setup).map settingsAndSteps)
        fun s₂ h₂ => h₂.trans h₁).mono (fun _ _ h => h) fun _ _ => trivial) fun _ s₂ h₂ => ih ?_
      have hbudget : s₂.budget = s.budget := congrArg (·.1.budget) h₂
      have hsteps : s₂.statistics.steps = s.statistics.steps + 1 := congrArg Prod.snd h₂
      intro n hn
      rw [hbudget] at hn
      have hleft := hfuel n hn
      omega
    · rw [if_neg hcontinue]
      refine .of_pure ?_
      cases hstopped : s.stopped with
      | true => exact .inl hstopped
      | false =>
        refine .inr fun n hn => ?_
        rw [mayContinue, hstopped, Bool.not_false, Bool.true_and,
          (Quantity.standsFor_of_integer? hn).isAbove_iff] at hcontinue
        omega

/-- The loop of a run may turn as often as its budget allows. -/
theorem Coherent.fuel (h : s.Coherent m) (n : Int) (hn : s.budget.integer? = some n) :
    n ≤ s.statistics.steps + s.budget.ceiling (M := A.toMagnitudes) := by
  have hceiling : n ≤ (s.budget.ceiling (M := A.toMagnitudes) : Int) := by
    cases hbudget : s.budget with
    | flag b =>
      rw [hbudget] at hn
      obtain rfl := Option.some.inj hn
      cases b with
      | true => exact Int.le_refl 1
      | false => exact Int.le_refl 0
    | whole k =>
      rw [hbudget] at hn
      obtain rfl := Option.some.inj hn
      exact Int.self_le_toNat k
    | real x =>
      rw [hbudget] at hn
      cases hn
  have hcounted := h.counted
  omega

/-- A run keeps a session coherent, wherever it fails. -/
theorem Coherent.run (hm : Quantity.StandsFor (M := A.toMagnitudes) setup.options.resetBudget m)
    (h : s.Coherent m) : Upholds (fun _ => Coherent m) (Coherent m) (Session.run setup) s := by
  have hannounce := monitorAndVerdict_of_mute (keeps_announce setup)
  refine .seq (h.upheld hannounce) fun _ s₁ h₁ => .get_seq ?_
  refine .seq (((h₁.iterate hm _).and (iterate_spent _ h₁.fuel)).mono (fun _ _ h => h)
    fun _ h => h.1) fun _ s₂ h₂ => ?_
  obtain ⟨hcoherent, hspent⟩ := h₂
  refine .seq (m := fun _ => Coherent m) (.of_modify ?_) fun _ s₃ h₃ =>
    h₃.upheld (monitorAndVerdict_of_mute (keeps_close setup))
  by_cases hstopped : s₂.stopped = true
  · rw [if_pos hstopped]
    exact hcoherent
  · rw [if_neg hstopped]
    have hlive := hcoherent.live (Bool.eq_false_iff.mpr hstopped)
    exact
      { stopped := ⟨fun _ => nofun, fun _ => rfl⟩
        cause := hlive.cause
        watches := nofun
        resets := hlive.resets
        resetsExhausted := nofun
        counted := hlive.counted
        iterationsExhausted := fun _ => hspent.resolve_left hstopped }

/-! ## Histories -/

/-- The restarts of a history answer; steps and runs may fail. -/
def Renewing (setup : Setup A P) : Session A P → List (Operation A P) → Prop
  | _, [] => True
  | s, op :: ops =>
    (¬op.TakesSteps → ∃ a, ((perform setup op).outcome s).1 = .ok a) ∧
      Renewing setup (next setup s op) ops

instance Renewing.decidable : ∀ s ops, Decidable (Renewing setup s ops)
  | _, [] => .isTrue trivial
  | s, op :: ops =>
    have := Renewing.decidable (next setup s op) ops
    inferInstanceAs (Decidable ((¬op.TakesSteps → ∃ _, _) ∧ _))

/-- In a history of steps and runs there are no restarts to answer. -/
theorem renewing_of_takesSteps {ops : List (Operation A P)} (hops : ∀ op ∈ ops, op.TakesSteps) :
    Renewing setup s ops := by
  induction ops generalizing s with
  | nil => trivial
  | cons op ops ih =>
    constructor
    · intro hother
      exact absurd (hops op List.mem_cons_self) hother
    · exact ih fun op' hop' => hops op' (List.mem_cons_of_mem _ hop')

/-- Over a history whose restarts answer a session stays coherent. -/
theorem Coherent.after (hm : Quantity.StandsFor (M := A.toMagnitudes) setup.options.resetBudget m)
    (hpositive : 0 ≤ m) (h : s.Coherent m) {ops : List (Operation A P)}
    (hops : ∀ op ∈ ops, op.IsSolving) (hrenewing : Renewing setup s ops) :
    (Session.after setup s ops).Coherent m := by
  induction ops generalizing s with
  | nil => exact h
  | cons op ops ih =>
    have hsolving := hops op List.mem_cons_self
    refine ih ?_ (fun op' hop' => hops op' (List.mem_cons_of_mem _ hop')) hrenewing.2
    have hperform {α : Type} {x : Action A P α} {g : α → Option (Report A)}
        (hx : Upholds (fun _ => Coherent m) (Coherent m) x s) :
        ((x >>= fun a => pure (g a)).outcome s).2.Coherent m :=
      (hx.seq fun a s₁ h₁ => (.of_pure h₁ : Upholds (fun _ => Coherent m) (Coherent m)
        (pure (g a)) s₁)).outcome_snd (fun _ _ h => h) fun _ h => h
    cases op with
    | steps n => exact hperform (g := fun _ => none) (h.steps hm n)
    | run => exact hperform (g := some) (h.run hm)
    | restart r =>
      obtain ⟨a, ha⟩ := hrenewing.1 id
      have hanswer : (perform setup (.restart r)).outcome s =
          (.ok a, next setup s (.restart r)) := Prod.ext ha rfl
      obtain ⟨_, s₁, hrestart, hreturn⟩ := outcome_bind_eq_ok.mp hanswer
      rw [← show s₁ = next setup s (.restart r) from congrArg Prod.snd hreturn]
      exact (cleared_restart hrestart).1.coherent hpositive
    | setResidual t => exact hsolving.elim
    | setInverse t => exact hsolving.elim
    | setStopped value => exact hsolving.elim

end Session

end QuasiNewton
