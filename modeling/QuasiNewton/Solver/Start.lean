import QuasiNewton.Solver.Session

/-!
# Starting and restarting

A session starts at a point of the caller: the point is converted to a kind that can be iterated
in, the residual is evaluated there, and both are brought to one kind. A conversion keeps the order
in which the elements of the point are stored, and the arrays of the solve are stored like the
iterate; a copy in the same kind is stored row by row. A restart at a point of the same shape keeps
the arrays and resets the inverse Jacobian; a restart at a point of another shape makes new arrays.
What a failing restart has done before its failure stays done.
-/

namespace QuasiNewton

variable {A : Arithmetic} {P : Type}

/-- The order in which the elements of an array are stored. Extents of one do not count. -/
inductive Layout where
  /-- Row by row, without gaps. -/
  | packed
  /-- Row by row, with gaps. -/
  | spaced
  /-- In another order, such as column by column. -/
  | permuted
  deriving DecidableEq, Repr

/-- The starting array as the caller hands it over. -/
structure Origin (A : Arithmetic) where
  /-- The array. -/
  point : Tensor A
  /-- The order in which its elements are stored. -/
  layout : Layout := .packed
  /-- Is it taken for an array as it is, and not converted to one? -/
  plain : Bool := true
  /-- Are its elements stored in the byte order of the machine? -/
  native : Bool := true
  /-- May the array be written to? -/
  writable : Bool := true
  /-- Does the caller allow the iterate to live in it? -/
  mayShare : Bool := false

/-- Does the first iterate live in the caller's array? It does not if any conversion is needed that
copies the array. -/
def Origin.shares (origin : Origin A) : Bool :=
  origin.mayShare && origin.plain && origin.layout == .packed && origin.writable &&
    origin.native && origin.point.kind == A.working origin.point.kind

/-- Is the first iterate stored row by row? A copy in the kind of the array is. A conversion keeps
the order of the elements, in which arrays with at most one extent above one do not differ. -/
def Origin.isRowwise (origin : Origin A) : Bool :=
  origin.point.kind == A.working origin.point.kind || origin.layout != .permuted ||
    origin.point.shape.withoutOnes.length ≤ 1

/-- Does a row of elements reach a direction that is stored like the first iterate? It does if it is
replaced, or if it is stored row by row. -/
def Origin.fillable (origin : Origin A) (residual : Residual A P) : Bool :=
  !residual.writes || origin.isRowwise

/-- A starting point that is ready: iterate, residual, and how the arrays for them are stored. -/
structure Ready (A : Arithmetic) where
  /-- The iterate. -/
  iterate : Tensor A
  /-- The residual there. -/
  residual : Tensor A
  /-- Does the iterate live in the caller's array? -/
  shared : Bool
  /-- Does a row of elements reach a direction that is stored like the iterate? -/
  fillable : Bool

/-- Iterate and residual in the kind that joins theirs, if they have the same shape. -/
def Ready.join (iterate residual : Tensor A) (shared fillable : Bool) : Attempt A (Ready A) :=
  if residual.shape = iterate.shape then
    let kind := A.join iterate.kind residual.kind
    .ok { iterate := iterate.castTo kind, residual := residual.castTo kind,
          shared := shared && iterate.kind == kind, fillable }
  else .error (.residualShape residual.shape iterate.shape)

/-- Evaluate the residual at a starting point; the number of calls goes with the answer. -/
def Origin.ready (origin : Origin A) (residual : Residual A P) (parameter : P) (calls : Nat) :
    Attempt A (Ready A) × Nat :=
  if origin.point.size = 0 then (.error .emptyStart, calls)
  else
    let iterate := origin.point.castTo (A.working origin.point.kind)
    let fillable := origin.fillable residual
    let (value, calls) := residual.evaluate calls iterate.zerosLike iterate parameter
    (value.bind fun residual => Ready.join iterate residual origin.shares fillable, calls)

/-- A budget of iterations has to be at least one. -/
def checkBudget (given : Setting A.Real) : Attempt A (Quantity A.Real) := do
  let q ← given.quantity
  if q.isBelow (M := A.toMagnitudes) 1 then throw (.badIterationBudget q) else return q

/-- A run may reach a thousand steps by default. -/
def standardBudget : Setting A.Real := .number (.whole 1000)

/-- What a session is started with. -/
structure Request (A : Arithmetic) (P : Type) where
  /-- The starting array. -/
  origin : Origin A
  /-- The parameter of the residual function. -/
  parameter : P
  /-- The budget of iterations. -/
  budget : Setting A.Real := standardBudget
  /-- The absolute tolerance. -/
  absolute : Setting A.Real := .absent
  /-- The relative tolerance. -/
  relative : Setting A.Real := .absent
  /-- The termination condition. -/
  condition : Condition.Choice A.toMagnitudes := .setting .absent

/-- What a session is restarted with; what is absent stays as it is. -/
structure Restart (A : Arithmetic) (P : Type) where
  /-- The new point. -/
  point : Option (Tensor A) := none
  /-- The order in which the elements of the new point are stored. -/
  layout : Layout := .packed
  /-- The new parameter. -/
  parameter : Option P := none
  /-- The new budget of iterations. -/
  budget : Setting A.Real := .absent
  /-- The new absolute tolerance. -/
  absolute : Setting A.Real := .absent
  /-- The new relative tolerance. -/
  relative : Setting A.Real := .absent
  /-- The new termination condition. -/
  condition : Condition.Choice A.toMagnitudes := .setting .absent

namespace Session

/-- A session at a starting point that is ready. -/
def assemble (setup : Setup A P) (request : Request A P) (budget : Quantity A.Real)
    (ready : Ready A) (calls : Nat) : Attempt A (Session A P) := do
  let work := Workspace.allocate ready.fillable ready.iterate ready.residual
  let monitor ← Monitor.make request.condition request.absolute request.relative setup.norm
    ready.residual ready.iterate
  let resetCheck ← ResetCheck.forKind work.inverse.kind setup.options.resetTolerance
  let lineSearch ← LineSearch.ofChoice setup.options.lineSearch
  return {
    parameter := request.parameter
    work
    resetCheck
    lineSearch
    monitor
    tolerances := monitor.tolerances
    budget
    resets := 0
    stopped := false
    status := .running
    statistics := .fresh
    evaluations := calls
    searches := 0
    transcript := []
    origin := request.origin.point
    shared := ready.shared }

/-- Start a session; the number of calls of the residual function goes with the answer. -/
def start (setup : Setup A P) (request : Request A P) : Attempt A (Session A P) × Nat :=
  match checkBudget request.budget with
  | .error e => (.error e, 0)
  | .ok budget =>
    match request.origin.ready setup.residual request.parameter 0 with
    | (.error e, calls) => (.error e, calls)
    | (.ok ready, calls) => (assemble setup request budget ready calls, calls)

/-- Make new arrays for a point of another shape. -/
def reopen (setup : Setup A P) (point : Tensor A) (layout : Layout) : Action A P Unit := do
  let s ← get
  let (ready, evaluations) :=
    Origin.ready { point, layout } setup.residual s.parameter s.evaluations
  modify fun s => { s with evaluations }
  let ready ← attempt ready
  modify fun s =>
    { s with
      work := Workspace.allocate ready.fillable ready.iterate ready.residual
      shared := false }
  let resetCheck ←
    attempt (ResetCheck.forKind (← get).work.inverse.kind setup.options.resetTolerance)
  modify fun s => { s with resetCheck }

/-- Go to the new point and reset the inverse Jacobian. -/
def relocate (setup : Setup A P) (point : Tensor A) (layout : Layout) : Action A P Unit := do
  if point.shape = (← get).work.iterate.shape then
    moveTo setup point
    rework fun w => do return { w with inverse := ← w.inverse.resetToIdentity }
  else reopen setup point layout

/-- Start the monitor over, with the condition given or else the one in effect. -/
def renewMonitor (setup : Setup A P) (r : Restart A P) : Action A P Unit := do
  let s ← get
  match r.condition with
  | .setting .absent =>
    let (answer, monitor) :=
      s.monitor.restart r.absolute r.relative setup.norm s.work.residual s.work.iterate
    modify fun s => { s with monitor }
    attempt answer
  | choice =>
    let tolerances := s.tolerances.replace r.absolute r.relative
    let monitor ← attempt (Monitor.make choice tolerances.absolute tolerances.relative setup.norm
      s.work.residual s.work.iterate)
    modify fun s => { s with monitor }
  modify fun s => { s with tolerances := s.monitor.tolerances }

/-- Take over the new parameter and the new budget. -/
def adopt (r : Restart A P) : Action A P Unit := do
  modify fun s => { s with parameter := r.parameter.getD s.parameter }
  match r.budget with
  | .absent => pure ()
  | given =>
    let budget ← attempt (checkBudget given)
    modify fun s => { s with budget }

/-- Restart a session. -/
def restart (setup : Setup A P) (r : Restart A P) : Action A P Unit := do
  adopt r
  relocate setup (r.point.getD (← get).work.iterate) r.layout
  renewMonitor setup r
  modify fun s =>
    { s with statistics := .fresh, resets := 0, stopped := false, status := .running }

end Session

end QuasiNewton
