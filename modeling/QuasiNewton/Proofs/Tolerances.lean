import QuasiNewton.Proofs.Refusals
import QuasiNewton.Proofs.Renewal
import QuasiNewton.Proofs.Success
import QuasiNewton.Tensor.Written

/-!
# Tolerances in effect

A session keeps its tolerances twice, for itself and in its monitor. A start checks them, and so
does a restart that gives a condition: neither takes a negative one. A restart that keeps the
condition takes tolerances as they are given, so that they are negative only if such a restart gave
one; and the two copies differ only if the norm refused the residual of such a restart.
-/

namespace QuasiNewton

open QuasiNewton.Action

variable {A : Arithmetic} {P : Type} {setup : Setup A P} {s s' : Session A P}

/-- No number in the value is negative. -/
def Setting.NonNegative (A : Arithmetic) (x : Setting A.Real) : Prop :=
  ∀ q, .number q ∈ x.leaves → q.isBelow (M := A.toMagnitudes) 0 = false

/-- A tolerance that is not given is not negative. -/
theorem Setting.nonNegative_absent : Setting.NonNegative A .absent := by
  intro q hq
  cases List.mem_singleton.mp hq

/-- One that is given is not negative if it is not below zero. -/
theorem Setting.nonNegative_number {q : Quantity A.Real} :
    Setting.NonNegative A (.number q) ↔ q.isBelow (M := A.toMagnitudes) 0 = false := by
  constructor
  · intro h
    exact h q (List.mem_singleton.mpr rfl)
  · intro h q' hq'
    cases List.mem_singleton.mp hq'
    exact h

namespace Tolerances

variable {t : Tolerances A} {kind : A.Kind} {absolute relative : Setting A.Real} {a b : A.Real}

/-- Neither tolerance is negative. -/
def NonNegative (t : Tolerances A) : Prop :=
  Setting.NonNegative A t.absolute ∧ Setting.NonNegative A t.relative

/-- Tolerances that have passed the check are not negative. -/
theorem nonNegative_of_areChecked (h : t.areChecked = true) : t.NonNegative := by
  obtain ⟨a, b, rfl⟩ := eq_of_areChecked h
  obtain ⟨ha, hb⟩ := Bool.and_eq_true_iff.mp h
  constructor
  · exact Setting.nonNegative_number.mpr ((Bool.not_eq_true' _).mp ha)
  · exact Setting.nonNegative_number.mpr ((Bool.not_eq_true' _).mp hb)

/-- Replacing tolerances by others that are not negative keeps them so. -/
theorem NonNegative.replace (h : t.NonNegative) (habsolute : Setting.NonNegative A absolute)
    (hrelative : Setting.NonNegative A relative) : (t.replace absolute relative).NonNegative := by
  constructor
  · cases absolute with
    | absent => exact h.1
    | _ => exact habsolute
  · cases relative with
    | absent => exact h.2
    | _ => exact hrelative

/-- Replacing by nothing changes nothing. -/
theorem replace_absent (t : Tolerances A) : t.replace .absent .absent = t := rfl

/-- What a caller wrote stands for two magnitudes, one of which is negative. -/
structure Negative (kind : A.Kind) (absolute relative : Setting A.Real) (a b : A.Real) : Prop where
  absolute : resolve kind absolute = .ok a
  relative : resolve kind relative = .ok b
  negative : (isNegative a || isNegative b) = true

/-- Whether a tolerance is negative can be tried out. -/
theorem exists_negative (h : (resolve kind absolute).toOption.any (fun a =>
    (resolve kind relative).toOption.any fun b => isNegative a || isNegative b) = true) :
    ∃ a b, Negative kind absolute relative a b := by
  cases ha : resolve kind absolute with
  | error e =>
    rw [ha] at h
    cases h
  | ok a =>
    rw [ha] at h
    cases hb : resolve kind relative with
    | error e =>
      rw [hb] at h
      cases h
    | ok b =>
      rw [hb] at h
      exact ⟨a, b, ha, hb, h⟩

/-- Tolerances of which one is negative are refused. -/
theorem Negative.make (h : Negative kind absolute relative a b) :
    Tolerances.make kind absolute relative = .error (.negativeTolerances a b) := by
  unfold Tolerances.make
  rw [h.absolute, h.relative]
  exact if_pos h.negative

end Tolerances

/-- No monitor is made with a negative tolerance. -/
theorem Monitor.make_of_negative {choice : Condition.Choice A.toMagnitudes}
    {absolute relative : Setting A.Real} {residual iterate : Tensor A}
    {condition : Condition A.toMagnitudes} {a b : A.Real} (norm : Norm A)
    (hcondition : Condition.ofChoice choice = .ok condition)
    (h : Tolerances.Negative (A.join iterate.kind residual.kind) absolute relative a b) :
    make choice absolute relative norm residual iterate = .error (.negativeTolerances a b) := by
  unfold make
  rw [hcondition, h.make]
  rfl

namespace Session

/-! ## What a restart does to tolerances -/

variable {r : Restart A P} {e : Fault A.Real}

/-- Taking over the parameter and the budget leaves the ledger alone. -/
theorem ledger_adopt (r : Restart A P) : (adopt r : Action A P Unit).Keeps ledger :=
  keeps_adopt (fun _ _ => rfl) (fun _ _ => rfl) r

/-- What a restart makes of the tolerances of the monitor and of those of the session. -/
inductive Rerated (r : Restart A P) (norm : Norm A) (t u : Tolerances A) :
    Attempt A Unit → Tolerances A → Tolerances A → Prop
  /-- A restart that keeps the condition takes over what it gives. -/
  | taken (hkept : r.condition = .setting .absent) :
    Rerated r norm t u (.ok ()) (t.replace r.absolute r.relative) (t.replace r.absolute r.relative)
  /-- A restart that gives a condition checks the tolerances. -/
  | checked {v : Tolerances A} (hgiven : r.condition ≠ .setting .absent)
    (hv : v.areChecked = true) : Rerated r norm t u (.ok ()) v v
  /-- A restart that fails leaves them alone. -/
  | left (e : Fault A.Real) : Rerated r norm t u (.error e) t u
  /-- If the norm fails, the monitor has them already. -/
  | torn {e : Fault A.Real} {residual : Tensor A} (hkept : r.condition = .setting .absent)
    (hnorm : norm residual = .error e) :
    Rerated r norm t u (.error e) (t.replace r.absolute r.relative) u

/-- Starting the monitor over rerates the tolerances. -/
theorem rerated_renewMonitor (setup : Setup A P) (r : Restart A P) (s : Session A P) :
    Rerated r setup.norm s.monitor.tolerances s.tolerances ((renewMonitor setup r).outcome s).1
      ((renewMonitor setup r).outcome s).2.monitor.tolerances
      ((renewMonitor setup r).outcome s).2.tolerances := by
  rw [outcome_renewMonitor]
  by_cases hkept : r.condition = .setting .absent
  · rw [Restart.monitor_of_kept hkept, Monitor.restart]
    cases hn : setup.norm s.work.residual with
    | ok objective => exact .taken hkept
    | error e => exact .torn hkept hn
  · rw [Restart.monitor_of_given hkept]
    generalize hmake : Monitor.make r.condition _ _ _ _ _ = made
    cases made with
    | ok m =>
      obtain ⟨c, t, objective, -, ht, -, rfl⟩ := Monitor.make_eq_ok.mp hmake
      exact .checked hkept (Tolerances.areChecked_of_make ht)
    | error e => exact .left e

/-- Before its last part a restart does not touch tolerances. -/
theorem rerated_restart (setup : Setup A P) (r : Restart A P) (s : Session A P) :
    Rerated r setup.norm s.monitor.tolerances s.tolerances ((restart setup r).outcome s).1
      ((restart setup r).outcome s).2.monitor.tolerances
      ((restart setup r).outcome s).2.tolerances := by
  have hstay {s' : Session A P} {e : Fault A.Real} (h : s'.ledger = s.ledger) :
      Rerated r setup.norm s.monitor.tolerances s.tolerances (.error e) s'.monitor.tolerances
        s'.tolerances := by
    rw [show s'.monitor = s.monitor from congrArg Ledger.monitor h,
      show s'.tolerances = s.tolerances from congrArg Ledger.tolerances h]
    exact .left e
  have hadopt := ledger_adopt r s
  unfold restart
  rw [outcome_bind]
  rcases h₁ : (adopt r).outcome s with ⟨e | _, s₁⟩
  · rw [h₁] at hadopt
    exact hstay hadopt
  · rw [h₁] at hadopt
    dsimp only
    rw [outcome_get_bind, outcome_bind]
    have hrelocate := congrArg (·.2.2)
      (ledger_relocate setup (r.point.getD s₁.work.iterate) r.layout s₁)
    rcases h₂ : (relocate setup (r.point.getD s₁.work.iterate) r.layout).outcome s₁ with ⟨e | _, s₂⟩
    · rw [h₂] at hrelocate
      exact hstay (hrelocate.trans hadopt)
    · rw [h₂] at hrelocate
      dsimp only
      have hledger : s₂.ledger = s.ledger := hrelocate.trans hadopt
      have hrenewed := rerated_renewMonitor setup r s₂
      rw [show s₂.monitor = s.monitor from congrArg Ledger.monitor hledger,
        show s₂.tolerances = s.tolerances from congrArg Ledger.tolerances hledger] at hrenewed
      rw [outcome_bind]
      rcases h₃ : (renewMonitor setup r).outcome s₂ with ⟨e | _, s₃⟩
      · rw [h₃] at hrenewed
        exact hrenewed
      · rw [h₃] at hrenewed
        exact hrenewed

section

variable {norm : Norm A} {x : Attempt A Unit} {t u t' u' : Tolerances A}

/-- Tolerances become negative only if a restart that keeps the condition gives such ones. -/
theorem Rerated.nonNegative (h : Rerated r norm t u x t' u')
    (hgiven : r.condition = .setting .absent →
      Setting.NonNegative A r.absolute ∧ Setting.NonNegative A r.relative)
    (ht : t.NonNegative) (hu : u.NonNegative) : t'.NonNegative ∧ u'.NonNegative := by
  cases h with
  | taken hkept =>
    have hreplaced := ht.replace (hgiven hkept).1 (hgiven hkept).2
    exact ⟨hreplaced, hreplaced⟩
  | checked hgiven hv =>
    have hchecked := Tolerances.nonNegative_of_areChecked hv
    exact ⟨hchecked, hchecked⟩
  | left e => exact ⟨ht, hu⟩
  | torn hkept hnorm => exact ⟨ht.replace (hgiven hkept).1 (hgiven hkept).2, hu⟩

/-- The two copies come apart only if the norm refuses the residual of a restart that gives a
tolerance and keeps the condition. -/
theorem Rerated.torn_of_ne (h : Rerated r norm t t x t' u') (hne : t' ≠ u') :
    r.condition = .setting .absent ∧ (r.absolute ≠ .absent ∨ r.relative ≠ .absent) ∧
      ∃ e residual, norm residual = .error e ∧ x = .error e := by
  cases h with
  | taken hkept => exact absurd rfl hne
  | checked hgiven hv => exact absurd rfl hne
  | left e => exact absurd rfl hne
  | @torn e residual hkept hnorm =>
    refine ⟨hkept, ?_, e, residual, hnorm, rfl⟩
    by_contra hnone
    obtain ⟨habsolute, hrelative⟩ := not_or.mp hnone
    apply hne
    rw [not_not.mp habsolute, not_not.mp hrelative, Tolerances.replace_absent]

end

/-! ## Negative tolerances -/

/-- A start takes tolerances that are checked, and takes them twice. -/
theorem checked_start {request : Request A P} {n : Nat} (h : start setup request = (.ok s, n)) :
    s.monitor.tolerances.areChecked = true ∧ s.tolerances = s.monitor.tolerances := by
  obtain ⟨budget, ready, condition, tolerances, objective, check, rule, -, ht, rfl⟩ := of_start h
  exact ⟨Tolerances.areChecked_of_make ht, rfl⟩

/-- A start refuses a negative tolerance. -/
theorem start_of_negative {request : Request A P} {budget : Quantity A.Real} {ready : Ready A}
    {calls : Nat} {condition : Condition A.toMagnitudes} {a b : A.Real}
    (hbudget : checkBudget request.budget = .ok budget)
    (hready : request.origin.ready setup.residual request.parameter 0 = (.ok ready, calls))
    (hcondition : Condition.ofChoice request.condition = .ok condition)
    (h : Tolerances.Negative (A.join ready.iterate.kind ready.residual.kind) request.absolute
      request.relative a b) :
    start setup request = (.error (.negativeTolerances a b), calls) := by
  unfold start
  rw [hbudget]
  dsimp only
  rw [hready]
  dsimp only
  unfold assemble
  rw [Monitor.make_of_negative _ hcondition h]
  rfl

/-- A restart that gives a condition refuses a negative tolerance, given or in effect, as a start
does. -/
theorem restart_of_negative {budget : Quantity A.Real} {s₁ : Session A P}
    {condition : Condition A.toMagnitudes} {a b : A.Real}
    (hbudget : r.budgetAfter s.budget = .ok budget)
    (hmoved : (relocate setup (r.point.getD s.work.iterate) r.layout).outcome
      (s.adopted r budget) = (.ok (), s₁))
    (hgiven : r.condition ≠ .setting .absent)
    (hcondition : Condition.ofChoice r.condition = .ok condition)
    (h : Tolerances.Negative (A.join s₁.work.iterate.kind s₁.work.residual.kind)
      (s.tolerances.replace r.absolute r.relative).absolute
      (s.tolerances.replace r.absolute r.relative).relative a b) :
    (restart setup r).outcome s = (.error (.negativeTolerances a b), s₁) := by
  have htolerances : s₁.tolerances = s.tolerances :=
    congrArg Ledger.tolerances (of_moved hmoved).2.2
  have hrenew : (renewMonitor setup r).outcome s₁ = (.error (.negativeTolerances a b), s₁) := by
    rw [← htolerances] at h
    rw [outcome_renewMonitor, Restart.monitor_of_given hgiven,
      Monitor.make_of_negative _ hcondition h]
  rw [outcome_restart hbudget, outcome_bind, hmoved]
  dsimp only
  rw [outcome_bind, hrenew]

/-! ## Tolerances over a history -/

/-- A property of the settings is kept by steps and runs. -/
theorem invariant_settings (setup : Setup A P) (I : Settings A P → Prop) :
    Invariant setup (fun s => I s.settings) fun s => I s.settings where
  advance := by
    intro s hs hgoing
    exact .of_outcome_snd ((settings_advance setup s).symm ▸ hs)
  exhaust := fun hs _ => hs
  lines := fun _ hs => hs
  weaken := fun hs => hs

/-- Neither copy of the tolerances is negative. -/
def Settings.NonNegative (c : Settings A P) : Prop :=
  c.monitored.NonNegative ∧ c.tolerances.NonNegative

/-- An operation makes the copies differ only if it is a restart whose residual the norm refuses. -/
theorem torn_of_next {op : Operation A P} (hop : op.IsSolving)
    (hs : s.monitor.tolerances = s.tolerances)
    (hne : (next setup s op).monitor.tolerances ≠ (next setup s op).tolerances) :
    ∃ r, op = .restart r ∧ r.condition = .setting .absent ∧
      (r.absolute ≠ .absent ∨ r.relative ≠ .absent) ∧
      ∃ e residual, setup.norm residual = .error e ∧
        ((restart setup r).outcome s).1 = .error e := by
  by_cases hsteps : op.TakesSteps
  · exfalso
    have hkept := (invariant_settings setup fun c => c.monitored = c.tolerances).perform hop
      (fun r hr => by
        subst hr
        exact hsteps.elim) hs
    exact hne (hkept.outcome_snd (I := fun s => s.monitor.tolerances = s.tolerances)
      (fun _ _ h => h) fun _ h => h)
  · cases op with
    | restart r =>
      have hrerated := rerated_restart setup r s
      rw [hs] at hrerated
      have hnext : next setup s (.restart r) = ((restart setup r).outcome s).2 := by
        change ((restart setup r >>= fun _ => pure none).outcome s).2 = _
        rw [outcome_bind]
        rcases (restart setup r).outcome s with ⟨_ | _, _⟩ <;> rfl
      rw [hnext] at hne
      exact ⟨r, rfl, hrerated.torn_of_ne hne⟩
    | steps n => exact absurd trivial hsteps
    | run => exact absurd trivial hsteps
    | _ => exact hop.elim

/-- The copies differ only after a restart in the history that the norm refused. -/
theorem torn_of_after {ops : List (Operation A P)} (hops : ∀ op ∈ ops, op.IsSolving)
    (hs : s.monitor.tolerances = s.tolerances)
    (hne : (after setup s ops).monitor.tolerances ≠ (after setup s ops).tolerances) :
    ∃ earlier r later, ops = earlier ++ .restart r :: later ∧ r.condition = .setting .absent ∧
      (r.absolute ≠ .absent ∨ r.relative ≠ .absent) ∧
      ∃ e residual, setup.norm residual = .error e ∧
        ((restart setup r).outcome (after setup s earlier)).1 = .error e := by
  induction ops generalizing s with
  | nil => exact absurd hs hne
  | cons op ops ih =>
    by_cases hnext : (next setup s op).monitor.tolerances = (next setup s op).tolerances
    · obtain ⟨earlier, r, later, rfl, htorn⟩ :=
        ih (fun op' h => hops op' (List.mem_cons_of_mem _ h)) hnext hne
      exact ⟨op :: earlier, r, later, rfl, htorn⟩
    · obtain ⟨r, rfl, htorn⟩ := torn_of_next (hops op List.mem_cons_self) hs hnext
      exact ⟨[], r, ops, rfl, htorn⟩

/-- Whatever a session goes through, its tolerances and those of its monitor are not negative if no
restart that keeps the condition gives a negative one, and they are the same unless the norm refused
the residual of such a restart. A restart that gives a condition refuses a negative tolerance as a
start does. -/
theorem tolerances_nonnegative {request : Request A P} {s₀ : Session A P} {n : Nat}
    (hstart : start setup request = (.ok s₀, n)) {ops : List (Operation A P)}
    (hops : ∀ op ∈ ops, op.IsSolving) (hs : s = after setup s₀ ops) :
    ((∀ r, .restart r ∈ ops → r.condition = .setting .absent →
        Setting.NonNegative A r.absolute ∧ Setting.NonNegative A r.relative) →
      s.tolerances.NonNegative ∧ s.monitor.tolerances.NonNegative) ∧
    (s.monitor.tolerances ≠ s.tolerances →
      ∃ earlier r later, ops = earlier ++ .restart r :: later ∧ r.condition = .setting .absent ∧
        (r.absolute ≠ .absent ∨ r.relative ≠ .absent) ∧
        ∃ e residual, setup.norm residual = .error e ∧
          ((restart setup r).outcome (after setup s₀ earlier)).1 = .error e) ∧
    (∀ r budget s₁ condition a b, r.budgetAfter s.budget = .ok budget →
      (relocate setup (r.point.getD s.work.iterate) r.layout).outcome (s.adopted r budget) =
        (.ok (), s₁) →
      r.condition ≠ .setting .absent → Condition.ofChoice r.condition = .ok condition →
      Tolerances.Negative (A.join s₁.work.iterate.kind s₁.work.residual.kind)
        (s.tolerances.replace r.absolute r.relative).absolute
        (s.tolerances.replace r.absolute r.relative).relative a b →
      (restart setup r).outcome s = (.error (.negativeTolerances a b), s₁)) ∧
    (∀ (request : Request A P) budget ready calls condition a b,
      checkBudget request.budget = .ok budget →
      request.origin.ready setup.residual request.parameter 0 = (.ok ready, calls) →
      Condition.ofChoice request.condition = .ok condition →
      Tolerances.Negative (A.join ready.iterate.kind ready.residual.kind) request.absolute
        request.relative a b →
      start setup request = (.error (.negativeTolerances a b), calls)) := by
  obtain ⟨hchecked, hsame⟩ := checked_start hstart
  subst hs
  refine ⟨fun hgiven => ?_, fun hne => ?_, fun r budget s₁ condition a b hbudget hmoved hnew hknown
    hneg => ?_, fun request budget ready calls condition a b hbudget hready hknown hneg => ?_⟩
  · have hbegin : s₀.settings.NonNegative := by
      have hmonitored := Tolerances.nonNegative_of_areChecked hchecked
      have htolerances := hmonitored
      rw [← hsame] at htolerances
      exact ⟨hmonitored, htolerances⟩
    have hI := invariant_settings setup Settings.NonNegative
    have hafter := hI.after_of_robust (I := fun s => s.settings.NonNegative) hops
      (fun s r hr hs => ?_) hbegin
    · exact hafter.symm
    · exact .of_outcome_snd ((rerated_restart setup r s).nonNegative (hgiven r hr) hs.1 hs.2)
  · exact torn_of_after hops hsame.symm hne
  · exact restart_of_negative hbudget hmoved hnew hknown hneg
  · exact start_of_negative hbudget hready hknown hneg

section

open QuasiNewton.Affine

/-- After restarts with other tolerances those of the affine problem are not negative, and a restart
that gives a negative one with a condition is refused. -/
theorem tolerances_nonnegative_affine :
    ∃ s₀ n a b s₁, start problem request = (.ok s₀, n) ∧
      (after problem s₀ ratings).tolerances.NonNegative ∧
      (after problem s₀ ratings).monitor.tolerances = (after problem s₀ ratings).tolerances ∧
      (restart problem negative).outcome (after problem s₀ ratings) =
        (.error (.negativeTolerances a b), s₁) := by
  obtain ⟨s₀, n, hstart, hmoved, hnegative⟩ := exists_started problem request
    (fun s₀ =>
      let s := after problem s₀ ratings
      let moved := (relocate problem s.work.iterate .packed).outcome (s.adopted negative s.budget)
      let kind := Machine.arithmetic.join moved.2.work.iterate.kind moved.2.work.residual.kind
      let t := s.tolerances.replace negative.absolute negative.relative
      (∃ a, moved.1 = .ok a) ∧
        (Tolerances.resolve kind t.absolute).toOption.any (fun a =>
          (Tolerances.resolve kind t.relative).toOption.any fun b =>
            Tolerances.isNegative a || Tolerances.isNegative b) = true)
    (by decide +kernel)
  obtain ⟨⟨⟩, hanswer⟩ := hmoved
  obtain ⟨a, b, hab⟩ := Tolerances.exists_negative hnegative
  have hsolving : ∀ op ∈ ratings, op.IsSolving := by decide
  obtain ⟨hnonnegative, htorn, hrefused, -⟩ := tolerances_nonnegative hstart hsolving rfl
  refine ⟨s₀, n, a, b, _, hstart, (hnonnegative fun r hr hkept => ?_).1, ?_,
    hrefused negative _ _ (.ofMode .absolute) a b rfl (Prod.ext hanswer rfl) nofun rfl hab⟩
  · simp only [ratings, List.mem_cons, Operation.restart.injEq, List.not_mem_nil, or_false,
      reduceCtorEq, false_or] at hr
    rcases hr with rfl | rfl
    · exact ⟨Setting.nonNegative_number.mpr rfl, Setting.nonNegative_absent⟩
    · cases hkept
  · by_contra hne
    obtain ⟨-, -, -, -, -, -, e, residual, hnorm, -⟩ := htorn hne
    cases hnorm

end

end Session

end QuasiNewton
