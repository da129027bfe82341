import QuasiNewton.Solver.Workspace
import QuasiNewton.ResetCheck
import QuasiNewton.Options
import QuasiNewton.Residual
import QuasiNewton.Report
import QuasiNewton.Termination.Monitor

/-!
# Sessions

A session is a solve in progress: its arrays, its limits, its counts, its outcome, the transcript
so far, and the caller's starting array, which shares its storage with the iterate when the caller
allowed it. A `Setup` is what never changes. An `Action` changes a session and may fail; a failing
action keeps the changes made before the failure.
-/

namespace QuasiNewton

variable {A : Arithmetic} {P : Type}

/-- What stays the same over a session. -/
structure Setup (A : Arithmetic) (P : Type) where
  /-- The residual function. -/
  residual : Residual A P
  /-- The options of the method. -/
  options : Options A
  /-- The norm in the termination checks. -/
  norm : Norm A
  /-- How much is reported, as the caller wrote it. -/
  verbosity : Setting A.Real

namespace Setup

/-- A function that writes is used with arrays that are overwritten. -/
def engine (setup : Setup A P) : Engine := if setup.residual.writes then .inPlace else .rebuilding

end Setup

/-- A solve in progress. -/
structure Session (A : Arithmetic) (P : Type) where
  /-- The parameter handed to the residual function. -/
  parameter : P
  /-- The arrays. -/
  work : Workspace A
  /-- When a change counts as negligible. -/
  resetCheck : ResetCheck A
  /-- The rule for step lengths. -/
  lineSearch : LineSearch A
  /-- The termination monitor. -/
  monitor : Monitor A
  /-- The tolerances in effect. -/
  tolerances : Tolerances A
  /-- How many steps a run may reach. -/
  budget : Quantity A.Real
  /-- Resets since the start. -/
  resets : Int
  /-- Has the solve ended? -/
  stopped : Bool
  /-- The outcome. -/
  status : Status
  /-- The counters since the start. -/
  statistics : Statistics
  /-- Calls of the residual function, over all starts. -/
  evaluations : Nat
  /-- Calls of the line search, over all starts. -/
  searches : Nat
  /-- The lines reported so far. -/
  transcript : List (Line A.Real)
  /-- The caller's starting array. -/
  origin : Tensor A
  /-- Does the iterate live in the caller's starting array? -/
  shared : Bool

/-- A change of a session that may fail. -/
abbrev Action (A : Arithmetic) (P : Type) (α : Type) :=
  ExceptT (Fault A.Real) (StateM (Session A P)) α

namespace Action

variable {α β : Type}

/-- What an action answers, and the session after it. -/
def outcome (x : Action A P α) (s : Session A P) : Except (Fault A.Real) α × Session A P := x.run s

@[simp] theorem outcome_pure (a : α) (s : Session A P) :
    (pure a : Action A P α).outcome s = (.ok a, s) := rfl

@[simp] theorem outcome_throw (e : Fault A.Real) (s : Session A P) :
    (throw e : Action A P α).outcome s = (.error e, s) := rfl

@[simp] theorem outcome_get (s : Session A P) :
    (get : Action A P (Session A P)).outcome s = (.ok s, s) := rfl

@[simp] theorem outcome_modify (f : Session A P → Session A P) (s : Session A P) :
    (modify f : Action A P Unit).outcome s = (.ok (), f s) := rfl

/-- A second action starts where the first one ended, unless that one failed. -/
theorem outcome_bind (x : Action A P α) (f : α → Action A P β) (s : Session A P) :
    (x >>= f).outcome s =
      match x.outcome s with
      | (.ok a, s') => (f a).outcome s'
      | (.error e, s') => (.error e, s') := by
  change (match x.outcome s with
    | (a, s') => (ExceptT.bindCont f a : StateM (Session A P) (Except (Fault A.Real) β)) s') = _
  rcases x.outcome s with ⟨_ | _, _⟩ <;> rfl

end Action

namespace Session

/-- Fail if an attempt failed. -/
def attempt {α : Type} (x : Attempt A α) : Action A P α :=
  match x with
  | .ok a => pure a
  | .error e => throw e

@[simp] theorem outcome_attempt {α : Type} (x : Attempt A α) (s : Session A P) :
    (attempt x : Action A P α).outcome s = (x, s) := by
  cases x <;> rfl

/-- Change the arrays. -/
def rework (f : Workspace A → Attempt A (Workspace A)) : Action A P Unit := do
  let work ← attempt (f (← get).work)
  modify fun s => { s with work }

/-- The arrays stay as they are if the change fails. -/
theorem outcome_rework (f : Workspace A → Attempt A (Workspace A)) (s : Session A P) :
    (rework f : Action A P Unit).outcome s =
      match f s.work with
      | .ok work => (.ok (), { s with work })
      | .error e => (.error e, s) := by
  cases h : f s.work <;> simp [rework, Action.outcome_bind, h]

/-- Raise a counter by one. -/
def count (f : Statistics.Field) : Action A P Unit :=
  modify fun s => { s with statistics := s.statistics.bump f 1 }

@[simp] theorem outcome_count (f : Statistics.Field) (s : Session A P) :
    (count f : Action A P Unit).outcome s =
      (.ok (), { s with statistics := s.statistics.bump f 1 }) := rfl

/-- Is the verbosity at least a level? -/
def speaks (setup : Setup A P) (level : Int) : Action A P Bool := do
  return (← attempt setup.verbosity.quantity).reaches (M := A.toMagnitudes) level

/-- Report a line. -/
def report (line : Line A.Real) : Action A P Unit :=
  modify fun s => { s with transcript := s.transcript ++ [line] }

@[simp] theorem outcome_report (line : Line A.Real) (s : Session A P) :
    (report line : Action A P Unit).outcome s =
      (.ok (), { s with transcript := s.transcript ++ [line] }) := rfl

/-- Report an event of the current step. -/
def log (setup : Setup A P) (what : Event A.Real) : Action A P Unit := do
  if ← speaks setup 2 then report (.event (← get).statistics.steps what)

/-- The residual at the iterate; a function that writes is handed the array given. -/
def evaluate (setup : Setup A P) (array : Tensor A) : Action A P (Tensor A) := do
  let s ← get
  let (value, evaluations) := setup.residual.evaluate s.evaluations array s.work.iterate s.parameter
  modify fun s => { s with evaluations }
  attempt value

/-- An evaluation counts its call, whether it answers or fails. -/
theorem outcome_evaluate (setup : Setup A P) (array : Tensor A) (s : Session A P) :
    (evaluate setup array).outcome s =
      ((setup.residual.evaluate s.evaluations array s.work.iterate s.parameter).1,
        { s with
          evaluations :=
            (setup.residual.evaluate s.evaluations array s.work.iterate s.parameter).2 }) := by
  simp [evaluate, Action.outcome_bind]

/-- After the iterate was overwritten the caller's array shows it if it shares its storage; after
the iterate was replaced it shares nothing any more. -/
def settleOrigin (setup : Setup A P) : Action A P Unit :=
  modify fun s =>
    match setup.engine with
    | .inPlace => if s.shared then { s with origin := s.work.iterate } else s
    | .rebuilding => { s with shared := false }

/-- Nothing but the caller's array is touched. -/
theorem outcome_settleOrigin (setup : Setup A P) (s : Session A P) :
    ∃ origin shared, (settleOrigin setup).outcome s = (.ok (), { s with origin, shared }) := by
  unfold settleOrigin
  rw [Action.outcome_modify]
  cases setup.engine with
  | inPlace =>
    by_cases hshared : s.shared = true
    · exact ⟨s.work.iterate, s.shared, by rw [if_pos hshared]⟩
    · exact ⟨s.origin, s.shared, by rw [if_neg hshared]⟩
  | rebuilding => exact ⟨s.origin, false, rfl⟩

/-- Go to a point without a step and evaluate the residual there. -/
def moveTo (setup : Setup A P) (point : Tensor A) : Action A P Unit := do
  rework (Workspace.moveTo setup.engine point)
  settleOrigin setup
  let residual ← evaluate setup (← get).work.residual
  modify fun s => { s with work := { s.work with residual } }

end Session

end QuasiNewton
