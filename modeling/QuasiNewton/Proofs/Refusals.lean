import QuasiNewton.Proofs.Affine
import QuasiNewton.Proofs.Fallback

/-!
# Refused restarts

A restart passes three checks: of its budget, of a point of another shape, and of its condition and
tolerances. It takes over the parameter before the first of them, the budget before the second, and
it moves before the third. So it depends on the check what a refused restart leaves. The counts, the
outcome, the tolerances and the monitor are always as they were, and `restart_refused` says exactly
when everything is. A session that has moved stores the residual that belongs to its iterate.
-/

namespace QuasiNewton

open QuasiNewton.Action

variable {A : Arithmetic} {P : Type} {α β : Type} {setup : Setup A P} {s s' : Session A P}

/-! ## Checks -/

/-- What a restart may be refused for. -/
inductive Check where
  /-- The budget. -/
  | budget
  /-- A point of another shape. -/
  | point
  /-- The condition and its tolerances. -/
  | condition
  deriving DecidableEq, Repr

/-- The check of a restart that a fault comes from. -/
def Fault.check? {ρ : Type} : Fault ρ → Option Check
  | .badIterationBudget _ => some .budget
  | .emptyStart | .residualShape .. => some .point
  | .unknownMode _ | .unusableCondition _ | .negativeTolerances .. => some .condition
  | _ => none

/-- The functions of the caller fail for causes of their own. -/
structure Setup.Foreign (setup : Setup A P) : Prop where
  residual : ∀ n a u p e, (setup.residual.evaluate n a u p).1 = .error e → e.check? = none
  norm : ∀ t e, setup.norm t = .error e → e.check? = none

/-- If the attempt fails, then by this check or not by a check. -/
def Attempt.FailsBy (c : Option Check) (x : Attempt A α) : Prop :=
  ∀ e, x = .error e → e.check? = none ∨ e.check? = c

namespace Attempt.FailsBy

variable {c : Option Check} {x : Attempt A α} {f : α → Attempt A β}

/-- An answer is refused by no check. -/
theorem of_ok (a : α) : FailsBy c (.ok a : Attempt A α) := by
  intro e h
  cases h

/-- A failure is refused by the check that its fault names, if it names one. -/
theorem of_error {e : Fault A.Real} (h : e.check? = none ∨ e.check? = c) :
    FailsBy c (.error e : Attempt A α) := by
  intro e' he
  cases he
  exact h

/-- An attempt whose faults name no check fails by any or none. -/
theorem of_none (h : ∀ e, x = .error e → e.check? = none) : FailsBy c x :=
  fun e he => .inl (h e he)

/-- Two attempts in a row fail by a check if each of them does. -/
theorem bind (hx : FailsBy c x) (hf : ∀ a, x = .ok a → FailsBy c (f a)) : FailsBy c (x >>= f) := by
  intro e h
  cases hxa : x with
  | error e' =>
    rw [hxa] at h
    cases h
    exact hx e hxa
  | ok a =>
    rw [hxa] at h
    exact hf a hxa e h

/-- What is made of an answer changes nothing about the failures. -/
theorem map (g : α → β) (hx : FailsBy c x) : FailsBy c (x.map g) := by
  intro e h
  cases hxa : x with
  | error e' =>
    rw [hxa] at h
    cases h
    exact hx e hxa
  | ok a =>
    rw [hxa] at h
    cases h

/-- What a fault of the attempt comes from, if it comes from a check. -/
theorem eq_check (hx : FailsBy c x) {e : Fault A.Real} (h : x = .error e) {c' : Check}
    (hc : e.check? = some c') : c = some c' := by
  rcases hx e h with hnone | hsome
  · cases hnone.symm.trans hc
  · exact hsome.symm.trans hc

end Attempt.FailsBy

open Attempt (FailsBy)

/-! ## What fails by which check -/

section

variable {c : Option Check}

/-- A setting that is no number is refused by no check of its own. -/
theorem failsBy_quantity (given : Setting A.Real) : FailsBy (A := A) c given.quantity := by
  cases given with
  | number q => exact .of_ok q
  | _ => exact .of_error (.inl rfl)

/-- Nor is one that has no magnitude. -/
theorem failsBy_magnitude (given : Setting A.Real) :
    FailsBy (A := A) c (given.magnitude (M := A.toMagnitudes)) := by
  cases given with
  | number q =>
    simp only [Setting.magnitude, Quantity.magnitude]
    split
    · exact .of_ok _
    · exact .of_error (.inl rfl)
  | text t =>
    simp only [Setting.magnitude]
    split
    · exact .of_ok _
    · exact .of_error (.inl rfl)
  | _ => exact .of_error (.inl rfl)

/-- A budget is refused by its check. -/
theorem failsBy_checkBudget (given : Setting A.Real) :
    FailsBy (some .budget) (checkBudget (A := A) given) := by
  refine (failsBy_quantity given).bind fun q _ => ?_
  split
  · exact .of_error (.inr rfl)
  · exact .of_ok q

/-- A reset tolerance is refused by no check of a point, a budget or a condition. -/
theorem failsBy_forKind (kind : A.Kind) (given : Setting A.Real) :
    FailsBy c (ResetCheck.forKind kind given) := by
  have hmake (s : Setting A.Real) : FailsBy c (ResetCheck.make (A := A) s) := by
    refine (failsBy_quantity s).bind fun q _ => ?_
    split
    · exact .of_ok _
    · exact .of_error (.inl rfl)
  unfold ResetCheck.forKind
  split
  · split
    · exact hmake _
    · exact .of_error (.inl rfl)
  · exact hmake _

/-- A copy that does not fit is refused by no check. -/
theorem failsBy_copyInto (target source : Tensor A) : FailsBy c (target.copyInto source) := by
  unfold Tensor.copyInto
  split
  · refine .map _ ?_
    unfold Tensor.broadcastTo
    split
    · exact .of_ok _
    · dsimp only
      split
      · exact .of_ok _
      · exact .of_error (.inl rfl)
  · exact .of_error (.inl rfl)

/-- A reset to the identity that does not fit is refused by no check. -/
theorem failsBy_resetToIdentity (m : Tensor A) : FailsBy c m.resetToIdentity := by
  unfold Tensor.resetToIdentity
  split
  · exact .of_ok _
  · split
    · exact .of_ok _
    · exact .of_error (.inl rfl)
  · exact .of_error (.inl rfl)

/-- A move of the arrays is refused by no check. -/
theorem Workspace.failsBy_moveTo (e : Engine) (point : Tensor A) (w : Workspace A) :
    FailsBy c (w.moveTo e point) := by
  cases e with
  | inPlace =>
    exact (failsBy_copyInto _ _).bind fun u _ => (failsBy_copyInto _ _).bind fun v _ => .of_ok _
  | rebuilding => exact .of_ok _

/-- A starting point is refused by its check. -/
theorem Origin.failsBy_ready (hsetup : setup.Foreign) (origin : Origin A) (p : P) (n : Nat) :
    FailsBy (some .point) (origin.ready setup.residual p n).1 := by
  unfold Origin.ready
  split
  · exact .of_error (.inr rfl)
  · refine Attempt.FailsBy.bind (.of_none (hsetup.residual _ _ _ _)) fun v _ => ?_
    unfold Ready.join
    split
    · exact .of_ok _
    · exact .of_error (.inr rfl)

/-- A condition is refused by the check of conditions, and so are its tolerances. -/
theorem Monitor.failsBy_make (hsetup : setup.Foreign) (choice : Condition.Choice A.toMagnitudes)
    (absolute relative : Setting A.Real) (residual iterate : Tensor A) :
    FailsBy (some .condition) (make choice absolute relative setup.norm residual iterate) := by
  have hchoice : FailsBy (A := A) (some .condition) (Condition.ofChoice choice) := by
    unfold Condition.ofChoice
    split
    · exact .of_ok _
    · exact .of_ok _
    · split
      · exact .of_ok _
      · exact .of_error (.inr rfl)
    · exact .of_error (.inr rfl)
  have hresolve (kind : A.Kind) (given : Setting A.Real) :
      FailsBy (some .condition) (Tolerances.resolve kind given) := by
    unfold Tolerances.resolve
    split
    · split
      · exact .of_ok _
      · exact .of_error (.inl rfl)
    · exact failsBy_magnitude given
  refine hchoice.bind fun condition _ => Attempt.FailsBy.bind ?_ fun tolerances _ =>
    Attempt.FailsBy.bind (.of_none (hsetup.norm _)) fun objective _ => .of_ok _
  refine (hresolve _ _).bind fun a _ => (hresolve _ _).bind fun b _ => ?_
  split
  · exact .of_error (.inr rfl)
  · exact .of_ok _

end

/-- An affine residual function and the root mean square never fail. -/
theorem Affine.foreign_problem : Affine.problem.Foreign where
  residual := by
    intro n a u p e h
    cases h
  norm := by
    intro t e h
    cases h

namespace Session

/-! ## The parts of a session -/

/-- What a restart replaces after its last check. -/
structure Ledger (A : Arithmetic) where
  lineSearch : LineSearch A
  monitor : Monitor A
  tolerances : Tolerances A
  resets : Int
  stopped : Bool
  status : Status
  statistics : Statistics
  searches : Nat
  transcript : List (Line A.Real)

/-- The ledger of a session. -/
def ledger (s : Session A P) : Ledger A where
  lineSearch := s.lineSearch
  monitor := s.monitor
  tolerances := s.tolerances
  resets := s.resets
  stopped := s.stopped
  status := s.status
  statistics := s.statistics
  searches := s.searches
  transcript := s.transcript

/-- What a session replaces when it moves. -/
structure Holdings (A : Arithmetic) where
  work : Workspace A
  resetCheck : ResetCheck A
  origin : Tensor A
  shared : Bool

/-- The holdings of a session. -/
def holdings (s : Session A P) : Holdings A where
  work := s.work
  resetCheck := s.resetCheck
  origin := s.origin
  shared := s.shared

/-- A session is its parameter, its budget, its ledger, its holdings and a count of calls. -/
theorem eq_iff_parts : s' = { s with evaluations := s'.evaluations } ↔
    s'.parameter = s.parameter ∧ s'.budget = s.budget ∧ s'.ledger = s.ledger ∧
      s'.holdings = s.holdings := by
  constructor
  · intro h
    rw [h]
    exact ⟨rfl, rfl, rfl, rfl⟩
  · rintro ⟨hparameter, hbudget, hledger, hholdings⟩
    obtain ⟨⟩ := s
    obtain ⟨⟩ := s'
    cases hparameter
    cases hbudget
    cases hledger
    cases hholdings
    rfl

/-- A move keeps the parameter, the budget and the ledger. -/
theorem ledger_relocate (setup : Setup A P) (point : Tensor A) (layout : Layout) :
    (relocate setup point layout).Keeps fun s => (s.parameter, s.budget, s.ledger) := by
  have hsettle : (settleOrigin setup).Keeps fun s => (s.parameter, s.budget, s.ledger) :=
    keeps_settleOrigin setup fun _ _ _ => rfl
  have hevaluate (array : Tensor A) :
      (evaluate setup array).Keeps fun s => (s.parameter, s.budget, s.ledger) :=
    keeps_evaluate setup (fun _ _ => rfl) array
  refine .get_bind fun s => ?_
  split
  · exact .bind (.bind (.of_rework fun _ _ _ => rfl) fun _ => .bind hsettle fun _ =>
      .get_bind fun _ => .bind (hevaluate _) fun _ => .of_modify fun _ => rfl) fun _ =>
      .of_rework fun _ _ _ => rfl
  · exact .get_bind fun _ => .bind (.of_modify fun _ => rfl) fun _ => .bind (.of_attempt _)
      fun _ => .bind (.of_modify fun _ => rfl) fun _ => .get_bind fun _ =>
      .bind (.of_attempt _) fun _ => .of_modify fun _ => rfl

/-! ## Where a restart stops -/

variable {F : Tensor A → P → Attempt A (Tensor A)} {r : Restart A P} {e : Fault A.Real} {c : Check}

/-- Nothing but the budget itself can be refused when it is taken over. -/
theorem of_adopt_eq_error (h : (adopt r).outcome s = (.error e, s')) :
    r.budgetAfter s.budget = .error e ∧ s' = s.adopted r s.budget ∧
      ∀ c, e.check? = some c → c = .budget := by
  unfold adopt at h
  rw [outcome_modify_bind] at h
  split at h
  case h_1 => cases h
  case h_2 hgiven =>
    rw [Restart.budgetAfter_of_given hgiven]
    rw [outcome_bind, outcome_attempt] at h
    cases hbudget : checkBudget r.budget with
    | ok q =>
      rw [hbudget] at h
      cases h
    | error e' =>
      rw [hbudget] at h
      cases h
      refine ⟨rfl, rfl, fun c hc => ?_⟩
      exact (Option.some.inj ((failsBy_checkBudget _).eq_check hbudget hc)).symm

/-- No check refuses a move to a point without a step. -/
theorem check_of_moveTo (hsetup : setup.Foreign) {point : Tensor A}
    (h : (moveTo setup point).outcome s = (.error e, s')) : e.check? = none := by
  rcases outcome_rework_bind_eq_error.mp h with ⟨hw, -⟩ | ⟨w, -, h⟩
  · exact (Workspace.failsBy_moveTo (c := none) _ _ _ e hw).elim id id
  · obtain ⟨origin, shared, hsettle⟩ := outcome_settleOrigin_bind setup _ _
    rw [hsettle, outcome_get_bind] at h
    rcases outcome_bind_eq_error.mp h with h | ⟨v, s₂, -, h⟩
    · rw [outcome_evaluate] at h
      exact hsetup.residual _ _ _ _ e (Prod.mk.inj h).1
    · cases h

/-- A check refuses a move only if the point has another shape, and leaves everything as it was. -/
theorem of_relocate_eq_error (hsetup : setup.Foreign) {point : Tensor A} {layout : Layout}
    (h : (relocate setup point layout).outcome s = (.error e, s')) (hc : e.check? = some c) :
    c = .point ∧ point.shape ≠ s.work.iterate.shape ∧
      ∃ calls, Origin.ready { point, layout } setup.residual s.parameter s.evaluations =
        (.error e, calls) ∧ s' = { s with evaluations := calls } := by
  unfold relocate at h
  rw [outcome_get_bind] at h
  by_cases hshape : point.shape = s.work.iterate.shape
  · rw [if_pos hshape] at h
    exfalso
    rcases outcome_bind_eq_error.mp h with h | ⟨_, s₁, -, h⟩
    · cases (check_of_moveTo hsetup h).symm.trans hc
    · have hreset := (outcome_rework_eq_error.mp h).1
      cases ((failsBy_resetToIdentity (c := none) _).bind fun m _ => .of_ok _).eq_check hreset hc
  · rw [if_neg hshape, reopen, outcome_get_bind, outcome_modify_bind] at h
    rcases hready : Origin.ready { point, layout } setup.residual s.parameter s.evaluations with
      ⟨e' | ready, calls⟩
    · rw [hready] at h
      cases h
      have hfails := Origin.failsBy_ready hsetup { point, layout } s.parameter s.evaluations
      have hcheck := hfails.eq_check (congrArg Prod.fst hready) hc
      exact ⟨(Option.some.inj hcheck).symm, hshape, calls, rfl, rfl⟩
    · rw [hready] at h
      exfalso
      rcases outcome_bind_eq_error.mp h with h | ⟨_, s₁, -, h⟩
      · cases h
      · rw [outcome_modify_bind, outcome_get_bind] at h
        rcases outcome_bind_eq_error.mp h with h | ⟨_, s₂, -, h⟩
        · rw [outcome_attempt] at h
          cases (failsBy_forKind (c := none) _ _).eq_check (Prod.mk.inj h).1 hc
        · cases h

/-- A monitor that is started over with the condition in effect is not refused by a check. -/
theorem of_renewMonitor_eq_error (hsetup : setup.Foreign)
    (h : (renewMonitor setup r).outcome s = (.error e, s')) (hc : e.check? = some c) :
    c = .condition ∧ r.condition ≠ .setting .absent ∧ s' = s ∧
      Monitor.make r.condition (s.tolerances.replace r.absolute r.relative).absolute
        (s.tolerances.replace r.absolute r.relative).relative setup.norm s.work.residual
        s.work.iterate = .error e := by
  rw [outcome_renewMonitor] at h
  by_cases hkept : r.condition = .setting .absent
  · exfalso
    rw [Restart.monitor_of_kept hkept, Monitor.restart] at h
    cases hn : setup.norm s.work.residual with
    | ok objective =>
      rw [hn] at h
      cases h
    | error e' =>
      rw [hn] at h
      cases h
      cases (hsetup.norm _ e hn).symm.trans hc
  · rw [Restart.monitor_of_given hkept] at h
    generalize hmake : Monitor.make r.condition _ _ _ _ _ = made at h
    cases made with
    | ok m => cases h
    | error e' =>
      cases h
      have hcheck := (Monitor.failsBy_make hsetup _ _ _ _ _).eq_check hmake hc
      exact ⟨(Option.some.inj hcheck).symm, hkept, rfl, rfl⟩

/-! ## Refusals -/

/-- What a restart leaves that a check refuses. -/
inductive Refused (setup : Setup A P) (r : Restart A P) (s : Session A P) (e : Fault A.Real) :
    Check → Session A P → Prop
  /-- The parameter has been taken over. -/
  | budget (hbudget : r.budgetAfter s.budget = .error e) :
    Refused setup r s e .budget (s.adopted r s.budget)
  /-- The budget has been taken over too. -/
  | point {budget : Quantity A.Real} {calls : Nat} (hbudget : r.budgetAfter s.budget = .ok budget)
    (hshape : (r.point.getD s.work.iterate).shape ≠ s.work.iterate.shape)
    (hready : Origin.ready { point := r.point.getD s.work.iterate, layout := r.layout }
      setup.residual (r.parameter.getD s.parameter) s.evaluations = (.error e, calls)) :
    Refused setup r s e .point { s.adopted r budget with evaluations := calls }
  /-- The session has moved. -/
  | condition {budget : Quantity A.Real} {s' : Session A P}
    (hbudget : r.budgetAfter s.budget = .ok budget)
    (hmoved : (relocate setup (r.point.getD s.work.iterate) r.layout).outcome
      (s.adopted r budget) = (.ok (), s'))
    (hgiven : r.condition ≠ .setting .absent)
    (hmake : Monitor.make r.condition (s.tolerances.replace r.absolute r.relative).absolute
      (s.tolerances.replace r.absolute r.relative).relative setup.norm s'.work.residual
      s'.work.iterate = .error e) :
    Refused setup r s e .condition s'

/-- A restart that has moved has not touched the ledger yet. -/
theorem of_moved {budget : Quantity A.Real} {point : Tensor A} {layout : Layout}
    (h : (relocate setup point layout).outcome (s.adopted r budget) = (.ok (), s')) :
    s'.parameter = r.parameter.getD s.parameter ∧ s'.budget = budget ∧ s'.ledger = s.ledger := by
  obtain ⟨hparameter, hterms⟩ := Prod.mk.inj ((ledger_relocate setup point layout).eq_of_outcome h)
  exact ⟨hparameter, Prod.mk.inj hterms⟩

/-- A restart that a check refuses has done what comes before that check. -/
theorem of_restart_eq_error (hsetup : setup.Foreign)
    (h : (restart setup r).outcome s = (.error e, s')) (hc : e.check? = some c) :
    Refused setup r s e c s' := by
  rcases outcome_bind_eq_error.mp h with h | ⟨_, s₁, hadopt, h⟩
  · obtain ⟨hbudget, rfl, hcheck⟩ := of_adopt_eq_error h
    obtain rfl := hcheck c hc
    exact .budget hbudget
  · obtain ⟨budget, hbudget, rfl⟩ := of_adopt hadopt
    rw [outcome_get_bind] at h
    rcases outcome_bind_eq_error.mp h with h | ⟨_, s₂, hmoved, h⟩
    · obtain ⟨rfl, hshape, calls, hready, rfl⟩ := of_relocate_eq_error hsetup h hc
      exact .point hbudget hshape hready
    · rcases outcome_bind_eq_error.mp h with h | ⟨_, s₃, -, h⟩
      · obtain ⟨rfl, hgiven, rfl, hmake⟩ := of_renewMonitor_eq_error hsetup h hc
        have htolerances : s'.tolerances = s.tolerances :=
          congrArg Ledger.tolerances (of_moved hmoved).2.2
        rw [htolerances] at hmake
        exact .condition hbudget hmoved hgiven hmake
      · cases h

/-- The terms of a refused restart are in effect as far as it came, and the ledger is as it was. -/
theorem Refused.kept (h : Refused setup r s e c s') :
    s'.parameter = r.parameter.getD s.parameter ∧
      (if c = .budget then s'.budget = s.budget else r.budgetAfter s.budget = .ok s'.budget) ∧
      s'.ledger = s.ledger := by
  cases h with
  | budget hbudget => exact ⟨rfl, rfl, rfl⟩
  | point hbudget hshape hready => exact ⟨rfl, hbudget, rfl⟩
  | @condition budget s' hbudget hmoved hgiven hmake =>
    obtain ⟨hparameter, rfl, hledger⟩ := of_moved hmoved
    refine ⟨hparameter, ?_, hledger⟩
    rw [if_neg (by decide), hbudget]

/-- Before its last check a restart has not moved. -/
theorem Refused.holdings (h : Refused setup r s e c s') (hc : c ≠ .condition) :
    s'.holdings = s.holdings := by
  cases h with
  | budget hbudget => rfl
  | point hbudget hshape hready => rfl
  | condition => exact absurd rfl hc

/-- A session that has moved stores the residual that belongs to its iterate. -/
theorem Refused.consistent (h : Refused setup r s e .condition s')
    (hR : setup.residual.Computes F) (hF : Residual.Conforms F) (hs : s.Ordered setup) :
    s'.Consistent F := by
  cases h with
  | condition hbudget hmoved hgiven hmake => exact consistent_relocate hR hF (by exact hs) hmoved

/-- A restart that a check refuses has done what comes before that check and nothing that comes
after it. Everything is as it was, but for the count of calls, exactly if the restart gives no other
parameter, gives no other budget unless it is the budget that is refused, and has not moved to other
arrays by the time its condition is refused. If it has, the residual is the one at the iterate. -/
theorem restart_refused (hsetup : setup.Foreign)
    (h : (restart setup r).outcome s = (.error e, s')) (hc : e.check? = some c) :
    Refused setup r s e c s' ∧ s'.ledger = s.ledger ∧
      (s' = { s with evaluations := s'.evaluations } ↔
        r.parameter.getD s.parameter = s.parameter ∧
        (c ≠ .budget → r.budgetAfter s.budget = .ok s.budget) ∧
        (c = .condition → s'.holdings = s.holdings)) ∧
      (c = .condition → ∀ F, setup.residual.Computes F → Residual.Conforms F →
        s.Ordered setup → s'.Consistent F) := by
  have hrefused := of_restart_eq_error hsetup h hc
  obtain ⟨hparameter, hbudget, hledger⟩ := hrefused.kept
  refine ⟨hrefused, hledger, ?_, ?_⟩
  case refine_2 =>
    rintro rfl F hR hF hs
    exact hrefused.consistent hR hF hs
  rw [eq_iff_parts, hparameter]
  constructor
  · rintro ⟨hsame, hafter, -, hholdings⟩
    refine ⟨hsame, fun hbefore => ?_, fun _ => hholdings⟩
    rw [if_neg hbefore, hafter] at hbudget
    exact hbudget
  · rintro ⟨hsame, hafter, hmoved⟩
    refine ⟨hsame, ?_, hledger, ?_⟩
    · by_cases hbefore : c = .budget
      · rwa [if_pos hbefore] at hbudget
      · rw [if_neg hbefore, hafter hbefore] at hbudget
        exact (Except.ok.inj hbudget).symm
    · by_cases hlast : c = .condition
      · exact hmoved hlast
      · exact hrefused.holdings hlast

section

open QuasiNewton.Affine

/-- A new parameter is kept although the budget beside it is refused. -/
theorem restart_refused_affine :
    ∃ s n e s', start problem request = (.ok s, n) ∧
      (restart problem { parameter := some 7, budget := .number (.whole 0) }).outcome s =
        (.error e, s') ∧
      e.check? = some .budget ∧ s'.ledger = s.ledger ∧
      s' ≠ { s with evaluations := s'.evaluations } := by
  obtain ⟨s, n, hstart, hparameter⟩ := exists_started problem request
    (fun s => s.parameter ≠ 7) (by decide +kernel)
  have hrestart :
      (restart problem { parameter := some 7, budget := .number (.whole 0) }).outcome s =
        (.error (.badIterationBudget (.whole 0)), { s with parameter := 7 }) := rfl
  obtain ⟨-, hledger, hiff, -⟩ := restart_refused foreign_problem hrestart (c := .budget) rfl
  refine ⟨s, n, _, _, hstart, hrestart, rfl, hledger, fun hsame => hparameter ?_⟩
  exact (hiff.mp hsame).1.symm

end

end Session

end QuasiNewton
