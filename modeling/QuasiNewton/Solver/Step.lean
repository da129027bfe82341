import QuasiNewton.Solver.Session

/-!
# One step

A step goes along the search direction, evaluates the residual once and asks the monitor. On a stop
it commits the residual and, if the residual stalled or diverged, returns to the best iterate and
evaluates there once more. Otherwise it resets the inverse Jacobian, if the step or the change of
the residual was negligible, or corrects it. A session that has ended takes no step.
-/

namespace QuasiNewton.Session

variable {A : Arithmetic} {P : Type}

/-- Ask the line search for a step length. -/
def stepLength : Action A P A.Real := do
  let s ← get
  let (length, searches) := s.lineSearch.length s.searches s.work.iterate s.work.direction
  modify fun s => { s with searches }
  attempt length

/-- A search counts as made even if it fails. -/
theorem outcome_stepLength (s : Session A P) :
    (stepLength : Action A P A.Real).outcome s =
      ((s.lineSearch.length s.searches s.work.iterate s.work.direction).1,
        { s with
          searches := (s.lineSearch.length s.searches s.work.iterate s.work.direction).2 }) := by
  simp [stepLength, Action.outcome_bind]

/-- Evaluate the residual at the point just reached. -/
def evaluateTrial (setup : Setup A P) : Action A P Unit := do
  let trial ← evaluate setup (← get).work.trial
  modify fun s => { s with work := { s.work with trial } }
  count .evaluations

/-- Go one step length along the search direction and evaluate there. -/
def probe (setup : Setup A P) : Action A P Unit := do
  rework (Workspace.aim setup.engine)
  let length ← stepLength
  rework (Workspace.advance setup.engine length)
  settleOrigin setup
  evaluateTrial setup

/-- Ask the monitor whether to stop. -/
def consult (setup : Setup A P) : Action A P Bool := do
  let s ← get
  let (stop, monitor) := s.monitor.check setup.norm s.work.trial s.work.iterate
  modify fun s => { s with monitor }
  attempt stop

/-- What the monitor takes note of stays noted even if it fails. -/
theorem outcome_consult (setup : Setup A P) (s : Session A P) :
    (consult setup).outcome s =
      ((s.monitor.check setup.norm s.work.trial s.work.iterate).1,
        { s with monitor := (s.monitor.check setup.norm s.work.trial s.work.iterate).2 }) := by
  simp [consult, Action.outcome_bind]

/-- Return to the best iterate seen. -/
def restoreBest (setup : Setup A P) : Action A P Unit := do
  moveTo setup (← get).monitor.bestIterate
  count .evaluations
  let s ← get
  log setup (.restored s.status s.monitor.best)

/-- End the solve for the cause the monitor gave. -/
def conclude (setup : Setup A P) : Action A P Unit := do
  modify fun s => { s with status := s.monitor.status, stopped := true }
  rework (Workspace.commit setup.engine)
  if (← get).status.fallsBack then restoreBest setup

/-- Reset the inverse Jacobian, or end the solve if the budget of resets is used up. -/
def resetOrStop (setup : Setup A P) : Action A P Unit := do
  let budget := setup.options.resetBudget
  if budget.isReachedBy (M := A.toMagnitudes) (← get).resets then
    modify fun s => { s with status := .resetsExhausted, stopped := true }
    log setup (.exhausted budget)
  else
    rework (Workspace.reset setup.engine)
    modify fun s => { s with resets := s.resets + 1 }
    log setup (.reset (← get).resets budget)

/-- Correct the inverse Jacobian. -/
def correct (setup : Setup A P) : Action A P Unit := do
  let (work, guarded) ← attempt ((← get).work.correct setup.engine)
  modify fun s => { s with work }
  if guarded then
    count .guards
    log setup .guarded

/-- Prepare the inverse Jacobian for the next step. -/
def refine (setup : Setup A P) : Action A P Unit := do
  rework (Workspace.compare setup.engine)
  rework (Workspace.commit setup.engine)
  let s ← get
  if ← attempt (s.resetCheck.anyNegligible s.work.direction s.work.change) then
    resetOrStop setup
  else correct setup

/-- One step of a session that has not ended. -/
def advance (setup : Setup A P) : Action A P Unit := do
  count .steps
  probe setup
  if ← consult setup then conclude setup else refine setup

/-- One step. -/
def step (setup : Setup A P) : Action A P Unit := do
  if (← get).stopped then pure () else advance setup

/-- A session that has ended stays as it is. -/
theorem outcome_step_of_stopped (setup : Setup A P) {s : Session A P} (h : s.stopped = true) :
    (step setup).outcome s = (.ok (), s) := by
  simp [step, Action.outcome_bind, h]

/-- A session that has not ended advances. -/
theorem outcome_step_of_not_stopped (setup : Setup A P) {s : Session A P} (h : s.stopped = false) :
    (step setup).outcome s = (advance setup).outcome s := by
  simp [step, Action.outcome_bind, h]

end QuasiNewton.Session
