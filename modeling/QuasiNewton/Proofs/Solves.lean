import QuasiNewton.Proofs.Budget

/-!
# Solves

What a session is when it was started, whatever the residual function answers, what a run needs to
report, and what a solve is: a start and a run.
-/

namespace QuasiNewton

open QuasiNewton.Action

variable {A : Arithmetic} {P : Type} {setup : Setup A P} {request : Request A P}
  {s : Session A P} {n : Nat}

namespace Session

/-- A session at a starting point that is ready, with its settings. -/
def opened (request : Request A P) (budget : Quantity A.Real) (ready : Ready A)
    (monitor : Monitor A) (check : ResetCheck A) (rule : LineSearch A) (calls : Nat) :
    Session A P where
  parameter := request.parameter
  work := Workspace.allocate ready.fillable ready.iterate ready.residual
  resetCheck := check
  lineSearch := rule
  monitor := monitor
  tolerances := monitor.tolerances
  budget := budget
  resets := 0
  stopped := false
  status := .running
  statistics := .fresh
  evaluations := calls
  searches := 0
  transcript := []
  origin := request.origin.point
  shared := ready.shared

/-- When a session can be started, and what it is then. -/
theorem start_eq_ok_iff : start setup request = (.ok s, n) ↔
    ∃ budget ready monitor check rule,
      checkBudget request.budget = .ok budget ∧
      request.origin.ready setup.residual request.parameter 0 = (.ok ready, n) ∧
      Monitor.make request.condition request.absolute request.relative setup.norm ready.residual
        ready.iterate = .ok monitor ∧
      ResetCheck.forKind (Secant.initial ready.iterate ready.residual).kind
        setup.options.resetTolerance = .ok check ∧
      LineSearch.ofChoice setup.options.lineSearch = .ok rule ∧
      s = opened request budget ready monitor check rule n := by
  unfold start
  cases hbudget : checkBudget request.budget with
  | error e => simp
  | ok budget =>
    rcases hready : request.origin.ready setup.residual request.parameter 0 with ⟨e | ready, calls⟩
    · simp
    · simp only [assemble, Prod.mk.injEq, Attempt.bind_eq_ok, Attempt.pure_eq_ok]
      constructor
      · rintro ⟨⟨monitor, hm, check, hc, rule, hr, rfl⟩, rfl⟩
        exact ⟨budget, ready, monitor, check, rule, rfl, ⟨rfl, rfl⟩, hm, hc, hr, rfl⟩
      · rintro ⟨_, _, monitor, check, rule, hb, ⟨hready', rfl⟩, hm, hc, hr, rfl⟩
        cases hb
        cases hready'
        exact ⟨⟨monitor, hm, check, hc, rule, hr, rfl⟩, rfl⟩

/-- A solve reports what the run of the session that it starts reports. -/
theorem solve_eq_ok {r : Report A} : (solve setup request).1 = .ok r ↔
    ∃ s n s', start setup request = (.ok s, n) ∧ (run setup).outcome s = (.ok r, s') := by
  unfold solve
  rcases start setup request with ⟨e | s, n⟩
  · simp
  · simp only [Prod.mk.injEq, Except.ok.injEq]
    constructor
    · intro h
      exact ⟨s, n, _, ⟨rfl, rfl⟩, Prod.ext h rfl⟩
    · rintro ⟨_, _, s', ⟨rfl, rfl⟩, h⟩
      rw [h]

/-! ## Runs -/

/-- What is said at a level is said by a verbosity that is a number. -/
theorem verbosity_of_speaks {s' : Session A P} {level : Int} {b : Bool}
    (h : (speaks setup level).outcome s = (.ok b, s')) : ∃ v, setup.verbosity = .number v := by
  obtain ⟨v, hv, -⟩ := outcome_attempt_bind_eq_ok.mp h
  cases hverbosity : setup.verbosity with
  | number q => exact ⟨q, rfl⟩
  | _ =>
    rw [hverbosity] at hv
    cases hv

/-- What can be tried out on the report that a solve gives holds of it. -/
theorem exists_solved (setup : Setup A P) (request : Request A P) (p : Report A → Prop)
    [DecidablePred p]
    (h : (solve setup request).1.toOption.any (fun r => decide (p r)) = true) :
    ∃ r, (solve setup request).1 = .ok r ∧ p r := by
  rcases hsolve : (solve setup request).1 with e | r
  · rw [hsolve] at h
    cases h
  · rw [hsolve] at h
    exact ⟨r, rfl, of_decide_eq_true h⟩

end Session

end QuasiNewton
