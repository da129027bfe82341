import QuasiNewton.Solver.Step
import QuasiNewton.Solver.Start

/-!
# Running to the end

A run steps until the session ends or its budget of steps is used up, and reports the final state.
The loop is bounded by the budget itself. `Operation` lists what a caller may do with a session and
`Session.perform` does it, so that a history is a list of operations.
-/

namespace QuasiNewton

variable {A : Arithmetic} {P : Type}

namespace Session

/-- May another step be taken? -/
def mayContinue (s : Session A P) : Bool :=
  !s.stopped && s.budget.isAbove (M := A.toMagnitudes) s.statistics.steps

/-- Report the residual norm after every tenth step. -/
def progress (setup : Setup A P) : Action A P Unit := do
  if ← speaks setup 1 then
    let s ← get
    if s.statistics.steps % 10 = 0 then
      let norm ← attempt (setup.norm s.work.residual)
      report (.progress s.statistics.steps norm s.resets)

/-- Step while another step may be taken, at most a number of times. -/
def iterate (setup : Setup A P) : Nat → Action A P Unit
  | 0 => pure ()
  | fuel + 1 => do
    if (← get).mayContinue then
      step setup
      progress setup
      iterate setup fuel

/-- A tolerance that can be reported in scientific notation. -/
def reportable (s : Setting A.Real) : Attempt A (Quantity A.Real) :=
  match s with
  | .number q => do
    let _ ← q.magnitude (M := A.toMagnitudes)
    return q
  | .text _ => .error .unsuitableValue
  | .absent | .list _ | .record _ => .error .unsuitableType

/-- Report what is about to be solved. -/
def announce (setup : Setup A P) : Action A P Unit := do
  if ← speaks setup 1 then
    let s ← get
    let absolute ← attempt (reportable s.tolerances.absolute)
    let relative ← attempt (reportable s.tolerances.relative)
    report (.opening s.work.iterate.size setup.options.resetBudget s.budget absolute relative)

/-- A session that has not ended has used up its budget. -/
def exhaust : Action A P Unit :=
  modify fun s =>
    if s.stopped then s else { s with status := .iterationsExhausted, stopped := true }

/-- The report of a session whose residual has a norm. -/
def summary (s : Session A P) (norm : A.Real) : Report A :=
  let success := s.status == .success
  { iterate := s.work.iterate
    residual := s.work.residual
    status := s.status
    success
    message := if success then .converged norm s.statistics.steps else .notConverged s.status
    evaluations := s.statistics.evaluations
    steps := s.statistics.steps
    resets := s.resets
    residualNorm := .real norm
    statistics := some s.statistics }

/-- Report how the solve ended. -/
def close (setup : Setup A P) : Action A P (Report A) := do
  let s ← get
  let norm ← attempt (setup.norm s.work.residual)
  if ← speaks setup 0 then
    report (.verdict s.status)
    report (.residualNorm norm)
    report (.counts s.statistics.evaluations s.statistics.steps s.resets)
  return s.summary norm

/-- Run a session to its end. -/
def run (setup : Setup A P) : Action A P (Report A) := do
  announce setup
  iterate setup (← get).budget.ceiling
  exhaust
  close setup

/-- Start a session and run it to its end: the report, the lines, and the calls of the residual
function. -/
def solve (setup : Setup A P) (request : Request A P) :
    Attempt A (Report A) × List (Line A.Real) × Nat :=
  match start setup request with
  | (.error e, calls) => (.error e, [], calls)
  | (.ok s, _) =>
    let (result, s) := (run setup).outcome s
    (result, s.transcript, s.evaluations)

end Session

/-- What a caller may do with a session. -/
inductive Operation (A : Arithmetic) (P : Type) where
  /-- Take a number of steps. -/
  | steps (n : Nat)
  /-- Run to the end. -/
  | run
  /-- Restart. -/
  | restart (r : Restart A P)
  /-- Put a tensor in the place of the residual. -/
  | setResidual (t : Tensor A)
  /-- Put a tensor in the place of the inverse Jacobian. -/
  | setInverse (t : Tensor A)
  /-- Say whether the solve has ended. -/
  | setStopped (value : Bool)

namespace Session

/-- Take a number of steps. -/
def steps (setup : Setup A P) : Nat → Action A P Unit
  | 0 => pure ()
  | n + 1 => do
    step setup
    steps setup n

/-- Steps can be taken in two portions. -/
theorem outcome_steps_add (setup : Setup A P) (m n : Nat) (s : Session A P) :
    (steps setup (m + n)).outcome s = (steps setup m >>= fun _ => steps setup n).outcome s := by
  induction m generalizing s with
  | zero => simp [steps]
  | succ m ih =>
    rw [Nat.succ_add]
    simp only [steps, Action.outcome_bind]
    rcases (step setup).outcome s with ⟨_ | _, s'⟩
    · rfl
    · simpa only [Action.outcome_bind] using ih s'

/-- Carry out an operation; a run answers with its report. -/
def perform (setup : Setup A P) : Operation A P → Action A P (Option (Report A))
  | .steps n => do
    steps setup n
    return none
  | .run => do return some (← run setup)
  | .restart r => do
    restart setup r
    return none
  | .setResidual t => do
    rework (Workspace.setResidual setup.engine t)
    return none
  | .setInverse t => do
    rework (Workspace.setInverse t)
    return none
  | .setStopped value => do
    modify fun s => { s with stopped := value }
    return none

end Session

end QuasiNewton
