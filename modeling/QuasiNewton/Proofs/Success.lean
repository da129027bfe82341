import QuasiNewton.Proofs.Affine
import QuasiNewton.Proofs.Criteria
import QuasiNewton.Proofs.Judgements

/-!
# Success

A report of success is earned: the criterion in effect holds of the residual at the iterate
reported, a step led there, and it holds at no iterate that an earlier step of the solve led to.
Only a verdict that a failed restart left standing is reported again as it is.
-/

namespace QuasiNewton

open QuasiNewton.Action

variable {A : Arithmetic} {P : Type} {F : Tensor A → P → Attempt A (Tensor A)} {setup : Setup A P}

namespace Session

variable {b s s' : Session A P}

/-! ## Beginnings -/

/-- A solve that has just begun. -/
structure Begun (s : Session A P) : Prop where
  status : s.status = .running
  statistics : s.statistics = .fresh
  tolerances : s.monitor.tolerances = s.tolerances

/-- It is not marked as a success. -/
theorem Begun.unsuccessful (hs : s.Begun) : s.Unsuccessful := fun h => by
  rw [hs.status] at h
  cases h

/-- As long as it takes steps the criterion is checked with the tolerances of the session. -/
theorem Begun.follows {k : Nat} (hb : b.Begun) (h : Follows setup b k s) :
    s.monitor.tolerances = s.tolerances := by
  have hsettings := (Prod.mk.inj h.settingsAndSteps).1
  have hmonitored : s.monitor.tolerances = b.monitor.tolerances :=
    congrArg Settings.monitored hsettings
  have htolerances : s.tolerances = b.tolerances := congrArg Settings.tolerances hsettings
  rw [hmonitored, hb.tolerances, htolerances]

/-- A session that was started has begun. -/
theorem begun_start (hR : setup.residual.Computes F) (hF : Residual.Conforms F)
    {request : Request A P} {n : Nat} (h : start setup request = (.ok s, n)) : s.Begun := by
  obtain ⟨v, budget, monitor, check, rule, -, -, -, -, -, -, rfl, -⟩ := (start_eq_ok hR hF).mp h
  exact ⟨rfl, rfl, rfl⟩

/-- With a restart that answers a solve begins. -/
theorem begun_restart {r : Restart A P} (h : (restart setup r).outcome s = (.ok (), s')) :
    s'.Begun := by
  obtain ⟨_, s₁, -, h⟩ := outcome_bind_eq_ok.mp h
  rw [outcome_get_bind] at h
  obtain ⟨_, s₂, -, h⟩ := outcome_bind_eq_ok.mp h
  obtain ⟨_, s₃, hrenew, h⟩ := outcome_bind_eq_ok.mp h
  cases h
  have htolerances : s₃.monitor.tolerances = s₃.tolerances := by
    rw [outcome_renewMonitor] at hrenew
    split at hrenew
    · cases hrenew
      rfl
    · cases hrenew
  exact ⟨rfl, rfl, htolerances⟩

/-- A history after which a solve begins: none, or one that ends with a restart that answers. -/
def Renews (setup : Setup A P) (s : Session A P) (ops : List (Operation A P)) : Prop :=
  ops = [] ∨ ∃ earlier r s', ops = earlier ++ [.restart r] ∧
    (restart setup r).outcome (after setup s earlier) = (.ok (), s')

/-- After a history that ends with a restart that answers. -/
theorem after_restart {earlier : List (Operation A P)} {r : Restart A P}
    (h : (restart setup r).outcome (after setup s earlier) = (.ok (), s')) :
    after setup s (earlier ++ [.restart r]) = s' := by
  rw [after_append]
  change ((restart setup r >>= fun _ => pure none).outcome (after setup s earlier)).2 = s'
  rw [outcome_bind, h]
  rfl

/-- So has one after a history that renews the solve. -/
theorem Renews.begun (hR : setup.residual.Computes F) (hF : Residual.Conforms F)
    {request : Request A P} {n : Nat} (hstart : start setup request = (.ok s, n))
    {ops : List (Operation A P)} (h : Renews setup s ops) : (after setup s ops).Begun := by
  rcases h with rfl | ⟨earlier, r, s', rfl, hrestart⟩
  · exact begun_start hR hF hstart
  · rw [after_restart hrestart]
    exact begun_restart hrestart

/-! ## Ended sessions -/

/-- A session that is marked as a success has ended. -/
def Ended (s : Session A P) : Prop := s.status = .success → s.stopped = true

/-- To have ended with a success is a matter of the verdict. -/
theorem Ended.of_verdict (hs : s.Ended) (h : s'.verdict = s.verdict) : s'.Ended := by
  obtain ⟨hstatus, hstopped⟩ := Prod.mk.inj h
  unfold Ended
  rw [hstatus, hstopped]
  exact hs

/-- A restart marks no success, and if it fails, leaves the verdict. -/
theorem Ended.restart (hs : s.Ended) (r : Restart A P) :
    Upholds (fun _ => Ended) Ended (restart setup r) s := by
  refine (verdictAndSteps_restart setup r s).mono (fun _ s' h hsuccess => ?_)
    fun _ h => hs.of_verdict (congrArg Prod.fst h)
  cases (congrArg (·.1.1) h).symm.trans hsuccess

/-- Steps and runs mark successes of sessions that end with it. -/
theorem invariant_ended (hR : setup.residual.Computes F) (hF : Residual.Conforms F) :
    Invariant setup (fun s => s.Ordered setup ∧ s.Ended) fun s => s.Ordered setup ∧ s.Ended where
  advance := by
    rintro s ⟨hs, hended⟩ hgoing
    have hun : s.Unsuccessful := fun hsuccess => by cases hgoing.symm.trans (hended hsuccess)
    have hadvance := (Workspace.stable_ordered setup).session_advance hs
    exact (hadvance.and (judged_advance hR hF hs hun)).mono
      (fun _ _ h => ⟨h.1, fun hsuccess => (h.2.success hsuccess).1⟩)
      fun _ h => ⟨h.1, fun hsuccess => absurd hsuccess h.2.unsuccessful⟩
  exhaust := fun hs _ => ⟨hs.1, fun _ => rfl⟩
  lines := fun _ hs => hs
  weaken := fun hs => hs

/-- Over every history the arrays stay in order, and what is marked as a success has ended. -/
theorem ended_after (hR : setup.residual.Computes F) (hF : Residual.Conforms F)
    {request : Request A P} {n : Nat} (hstart : start setup request = (.ok s, n))
    {ops : List (Operation A P)} (hops : ∀ op ∈ ops, op.IsSolving) :
    (after setup s ops).Ordered setup ∧ (after setup s ops).Ended := by
  have hI : Workspace.Stable setup _ := Workspace.stable_ordered setup
  refine (invariant_ended hR hF).after_of_robust hops
    (fun _ r _ hs => (hI.restart hs.1 r).and (hs.2.restart r)) ⟨hI.start hstart, fun hsuccess => ?_⟩
  rw [(begun_start hR hF hstart).status] at hsuccess
  cases hsuccess

/-! ## Reports of success -/

/-- What a report of success tells about a session that has come from another one by steps and
runs: the residual reported is the one at the iterate reported, the criterion in effect holds there,
a step led there, and where an earlier step led the criterion does not hold. A step that fails may
not lead anywhere. -/
structure Earned (F : Tensor A → P → Attempt A (Tensor A)) (setup : Setup A P) (b s : Session A P)
    (r : Report A) : Prop where
  residual : F r.iterate s.parameter = .ok r.residual
  checked : s.monitor.condition.mode.holds setup.norm s.monitor.tolerances r.residual r.iterate =
    .ok true
  criterion : ∀ x y, s.monitor.tolerances = ⟨.number x, .number y⟩ →
    s.monitor.condition.mode.Criterion setup.norm x y r.residual r.iterate
  first : ∃ k : Nat, 0 < k ∧ r.steps = b.statistics.steps + k ∧
    r.iterate = (attempts setup b k).work.iterate ∧
    ∀ j c, j + 1 < k → c = attempts setup b (j + 1) →
      (∀ v, F c.work.iterate s.parameter = .ok v →
        s.monitor.condition.mode.holds setup.norm s.monitor.tolerances v c.work.iterate ≠
          .ok true ∧
        ∀ x y, s.monitor.tolerances = ⟨.number x, .number y⟩ →
          ¬s.monitor.condition.mode.Criterion setup.norm x y v c.work.iterate) ∨
      ((∃ e, ((step setup).outcome (attempts setup b j)).1 = .error e) ∧
        c.work.iterate = (attempts setup b j).work.iterate)

/-- Where steps lead from a session that is not marked as a success, a report of success is earned.
-/
theorem Follows.earned (hR : setup.residual.Computes F) (hF : Residual.Conforms F) {k : Nat}
    (h : Follows setup b k s) (hb : b.Ordered setup) (hun : b.Unsuccessful)
    (hsuccess : s.status = .success) (norm : A.Real) : Earned F setup b s (s.summary norm) := by
  obtain ⟨hsettings, hsteps⟩ := Prod.mk.inj h.settingsAndSteps
  obtain ⟨hgoing, halike⟩ := h
  have hparameter : s.parameter = b.parameter := congrArg Settings.parameter hsettings
  have hcriterion : b.criterion setup = s.criterion setup := (criterion_of_settings hsettings).symm
  obtain ⟨hk, hconsistent, hholds⟩ :=
    criterion_of_success hR hF hb hun hgoing (halike.status.symm.trans hsuccess)
  rw [Consistent, ← halike.work.iterate, ← halike.parameter, ← halike.work.residual]
    at hconsistent
  rw [hcriterion, criterion, ← halike.work.iterate, ← halike.work.residual] at hholds
  refine ⟨hconsistent, hholds, fun x y htolerances => ?_, k, hk, hsteps, halike.work.iterate,
    fun j c hj hc => ?_⟩
  · rw [htolerances] at hholds
    exact (Mode.holds_eq_true_iff _ (hF _ _ _ hconsistent)).mp hholds
  · subst hc
    refine (missed_of_going hR hF hb hun hgoing hj).imp_left fun hmissed v hv => ?_
    have hfails := hmissed v (hparameter ▸ hv)
    rw [hcriterion, criterion] at hfails
    refine ⟨hfails, fun x y htolerances hmeets => hfails ?_⟩
    rw [htolerances]
    exact (Mode.holds_eq_true_iff _ (hF _ _ _ hv)).mpr hmeets

/-- From a session that has ended steps lead nowhere. -/
theorem Follows.eq_zero {k : Nat} (h : Follows setup b k s) (hb : b.stopped = true) : k = 0 := by
  cases k with
  | zero => rfl
  | succ k => exact absurd (hb.symm.trans (h.going 0 (Nat.succ_pos k))) (by decide)

/-- If a run reports success, either the session was marked as a success before the steps and runs
that led there and none of them did anything, or the report is earned. After a start or a restart
that answers nothing is marked, no step is counted and the tolerances checked are the ones in
effect. -/
theorem success_sound (hR : setup.residual.Computes F) (hF : Residual.Conforms F)
    {request : Request A P} {s₀ : Session A P} {n : Nat}
    (hstart : start setup request = (.ok s₀, n)) {past present : List (Operation A P)}
    (hpast : ∀ op ∈ past, op.IsSolving) (hpresent : ∀ op ∈ present, op.TakesSteps)
    (hb : b = after setup s₀ past) {r : Report A}
    (hrun : (run setup).outcome (after setup b present) = (.ok r, s))
    (hsuccess : r.success = true) :
    (Renews setup s₀ past → b.Unsuccessful ∧ b.statistics.steps = 0 ∧
      s.monitor.tolerances = s.tolerances) ∧
    (b.Unsuccessful → Earned F setup b s r) ∧
    (¬b.Unsuccessful → r.iterate = b.work.iterate ∧ r.steps = b.statistics.steps) := by
  have hbegun (h : Renews setup s₀ past) : b.Begun := hb ▸ h.begun hR hF hstart
  obtain ⟨hordered, hended⟩ := ended_after hR hF hstart hpast
  have hfollows := follows_zero hR hF hstart past
  rw [← hb] at hordered hended hfollows
  have hI := invariant_course hR hF b
  have hcourse := hI.after_of_robust (fun op h => (hpresent op h).isSolving)
    (fun _ r h => (hpresent _ h).elim) (.inl ⟨0, hfollows⟩)
  have hend : Course setup b s := (hI.run hcourse).of_ok hrun
  obtain ⟨norm, -, rfl⟩ := of_run hrun
  have hstatus : s.status = .success := beq_iff_eq.mp hsuccess
  rcases hend with ⟨k, hfollows⟩ | ⟨-, hspent⟩
  · refine ⟨fun h => ⟨(hbegun h).unsuccessful, ?_, (hbegun h).follows hfollows⟩,
      fun hun => hfollows.earned hR hF hordered hun hstatus norm, fun hmarked => ?_⟩
    · rw [(hbegun h).statistics]
      rfl
    · have hstopped : b.stopped = true := hended (Decidable.not_not.mp hmarked)
      obtain rfl := hfollows.eq_zero hstopped
      exact ⟨hfollows.alike.work.iterate, congrArg Statistics.steps hfollows.alike.statistics⟩
  · exact absurd (hstatus.symm.trans hspent) (by decide)

section

open QuasiNewton.Affine

/-- Over the restart at two elements and a step, a run of the affine problem earns its success. -/
theorem success_sound_affine :
    ∃ s₀ n r s, start problem request = (.ok s₀, n) ∧
      (run problem).outcome (after problem (after problem s₀ detour) [.steps 1]) = (.ok r, s) ∧
      r.success = true ∧ Renews problem s₀ detour ∧ s.monitor.tolerances = s.tolerances ∧
      Earned (residual 2) problem (after problem s₀ detour) s r := by
  obtain ⟨s₀, n, hstart, hrestart, hsuccess⟩ := exists_started problem request
    (fun s => (∃ a, ((restart problem move).outcome (after problem s [.steps 1])).1 = .ok a) ∧
      ((run problem).outcome (after problem s (detour ++ [.steps 1]))).1.toOption.any
        (·.success) = true) (by decide +kernel)
  obtain ⟨⟨⟩, ha⟩ := hrestart
  rcases hrun : (run problem).outcome (after problem s₀ (detour ++ [.steps 1])) with ⟨e | r, s⟩
  · rw [hrun] at hsuccess
    cases hsuccess
  · rw [hrun] at hsuccess
    have hrenews : Renews problem s₀ detour :=
      .inr ⟨[.steps 1], move, _, rfl, Prod.ext ha rfl⟩
    rw [after_append] at hrun
    obtain ⟨hbegun, hearned, -⟩ := success_sound (computes_residual 2) (conforms_residual 2) hstart
      (by decide) (by decide) rfl hrun hsuccess
    obtain ⟨hun, -, htolerances⟩ := hbegun hrenews
    exact ⟨s₀, n, r, s, hstart, hrun, hsuccess, hrenews, htolerances, hearned hun⟩

end

end Session

end QuasiNewton
