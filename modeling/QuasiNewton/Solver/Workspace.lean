import QuasiNewton.Secant

/-!
# The arrays of a solve

A workspace holds the iterate, the residual, the inverse Jacobian and the arrays a step passes
through. Every move of a step is a function on workspaces, in two forms: `inPlace` stores each
result in the array that is there, whose kind and shape stay, and `rebuilding` replaces the array
by the result. The direction is written as a row of elements. A direction that is overwritten takes
the row only if it is stored row by row itself; otherwise the row goes to a copy of it and is lost.
-/

namespace QuasiNewton

/-- How results are kept. -/
inductive Engine where
  /-- Arrays are overwritten. -/
  | inPlace
  /-- Arrays are replaced. -/
  | rebuilding
  deriving DecidableEq, Repr

/-- The arrays of a solve. -/
structure Workspace (A : Arithmetic) where
  /-- The current point. -/
  iterate : Tensor A
  /-- The point before the last step. -/
  previous : Tensor A
  /-- The search direction; after a correction, its column. -/
  direction : Tensor A
  /-- The residual at the current point. -/
  residual : Tensor A
  /-- The residual at the point just reached. -/
  trial : Tensor A
  /-- The change of the residual in the last step. -/
  change : Tensor A
  /-- The approximation of the inverse Jacobian. -/
  inverse : Tensor A
  /-- The row of the last correction. -/
  row : Tensor A
  /-- The product of the inverse Jacobian and the change, before the last correction. -/
  product : Tensor A
  /-- Does a row of elements that is written to the direction reach it? One that is replaced always
  takes it, one that is overwritten only if it is stored row by row. -/
  fillable : Bool

namespace Workspace

variable {A : Arithmetic}

/-- The arrays for a solve that starts at a point with a residual, where a direction stored like the
point is fillable or not. -/
def allocate (fillable : Bool) (iterate residual : Tensor A) : Workspace A :=
  let inverse := Secant.initial iterate residual
  let vector := Tensor.full inverse.kind [iterate.size] (A.zeroOf inverse.kind)
  { iterate
    previous := iterate
    direction := iterate.zerosLike
    residual
    trial := residual.zerosLike
    change := residual.zerosLike
    inverse
    row := vector
    product := vector
    fillable }

/-- The direction after a row of elements was written to it. -/
def filled (e : Engine) (w : Workspace A) (row : Tensor A) : Attempt A (Tensor A) :=
  match e with
  | .inPlace => if w.fillable then row.reshape w.direction.shape else .ok w.direction
  | .rebuilding => row.reshape w.iterate.shape

/-- Compute the search direction. -/
def aim (e : Engine) (w : Workspace A) : Attempt A (Workspace A) := do
  let row ←
    match e with
    | .inPlace => w.direction.flatten.receive w.inverse w.residual.flatten
    | .rebuilding => w.inverse.matMul w.residual.flatten
  return { w with direction := ← w.filled e row }

/-- Go a length against the search direction. -/
def advance (e : Engine) (length : A.Real) (w : Workspace A) : Attempt A (Workspace A) := do
  let moved ← w.iterate.sub (w.direction.scale length)
  match e with
  | .inPlace => do
    let previous ← w.previous.copyInto w.iterate
    let iterate ← w.iterate.copyInto moved
    return { w with previous, iterate }
  | .rebuilding => return { w with previous := w.iterate, iterate := moved }

/-- Compute the change of the residual. -/
def compare (e : Engine) (w : Workspace A) : Attempt A (Workspace A) := do
  let difference ← w.trial.sub w.residual
  match e with
  | .inPlace => return { w with change := ← w.change.copyInto difference }
  | .rebuilding => return { w with change := difference }

/-- Take the trial residual for the residual. -/
def commit (e : Engine) (w : Workspace A) : Attempt A (Workspace A) :=
  match e with
  | .inPlace => do return { w with residual := ← w.residual.copyInto w.trial }
  | .rebuilding => .ok { w with residual := w.trial }

/-- Reset the inverse Jacobian to the identity. -/
def reset (e : Engine) (w : Workspace A) : Attempt A (Workspace A) :=
  match e with
  | .inPlace => do return { w with inverse := ← w.inverse.resetToIdentity }
  | .rebuilding => .ok { w with inverse := Secant.initial w.iterate w.residual }

/-- The secant update by the last step. -/
def secant (e : Engine) (w : Workspace A) : Attempt A (Secant.Update A) :=
  match e with
  | .inPlace =>
    Secant.updateInPlace w.inverse w.direction.flatten w.change.flatten (some w.product)
      (some w.row)
  | .rebuilding => Secant.update w.inverse w.direction.flatten w.change.flatten

/-- Correct the inverse Jacobian by the last step; the flag says whether the denominator was
replaced. -/
def correct (e : Engine) (w : Workspace A) : Attempt A (Workspace A × Bool) := do
  let u ← w.secant e
  let direction ← w.filled e u.column
  return ({ w with inverse := u.inverse, direction, row := u.row, product := u.product }, u.guarded)

/-- Move to a point without a step. Arrays that are overwritten refuse a point they cannot hold;
arrays that are replaced keep the kind of the iterate and drop what it cannot hold. -/
def moveTo (e : Engine) (point : Tensor A) (w : Workspace A) : Attempt A (Workspace A) :=
  match e with
  | .inPlace => do
    let iterate ← w.iterate.copyInto point
    return { w with iterate, previous := ← w.previous.copyInto iterate }
  | .rebuilding =>
    let iterate := point.castTo w.iterate.kind
    .ok { w with iterate, previous := iterate }

/-- Overwrite or replace the residual by a tensor of the caller. -/
def setResidual (e : Engine) (residual : Tensor A) (w : Workspace A) : Attempt A (Workspace A) :=
  match e with
  | .inPlace => do return { w with residual := ← w.residual.copyInto residual }
  | .rebuilding => .ok { w with residual }

/-- Overwrite the inverse Jacobian by a tensor of the caller. -/
def setInverse (inverse : Tensor A) (w : Workspace A) : Attempt A (Workspace A) := do
  return { w with inverse := ← w.inverse.assign inverse }

end Workspace

end QuasiNewton
