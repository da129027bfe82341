import QuasiNewton.Tensor.Product

/-!
# The secant update

After a step along `-d` that changed the residual by `y`, the inverse Jacobian `J` is corrected by
the outer product of a column and a row so that it maps `y` to `s = -d`:

  `J + ((s - J y) / (sᴴ J y)) (sᴴ J)`.

A denominator of exactly zero is replaced by a small constant. `Secant.update` builds new arrays,
`Secant.updateInPlace` stores every intermediate in the array it overwrites; where all arrays are
of one kind the two compute the same.
-/

namespace QuasiNewton.Secant

variable {A : Arithmetic}

/-- The outcome of one update. -/
structure Update (A : Arithmetic) where
  /-- The corrected inverse Jacobian. -/
  inverse : Tensor A
  /-- The column of the correction, `(s - J y) / (sᴴ J y)`. -/
  column : Tensor A
  /-- The product `J y` with the matrix before the update. -/
  product : Tensor A
  /-- The row of the correction, `sᴴ J`. -/
  row : Tensor A
  /-- Was the denominator zero and replaced? -/
  guarded : Bool

/-- The denominator `sᴴ (J y)`, or its replacement in the kind of the matrix, and whether it was
replaced. -/
def denominator (matrixKind : A.Kind) (step product : Tensor A) : Attempt A (Tensor A × Bool) := do
  let raw ← step.inner product
  if A.isZero raw.kind (raw.elem 0) then
    return (Tensor.scalar matrixKind (A.guard matrixKind), true)
  else
    return (raw, false)

/-- The update in new arrays. -/
def update (inverse direction change : Tensor A) : Attempt A (Update A) := do
  let step ← direction.neg
  let product ← inverse.matMul change
  let row ← step.conj.matMul inverse
  let (denom, guarded) ← denominator inverse.kind step product
  let gap ← step.sub product
  let column ← gap.div denom
  let inverse' ← inverse.add (column.outer row)
  return { inverse := inverse', column, product, row, guarded }

/-- The update in the arrays given; without buffers for the two products it is refused. -/
def updateInPlace (inverse direction change : Tensor A)
    (productBuffer rowBuffer : Option (Tensor A)) : Attempt A (Update A) :=
  match productBuffer, rowBuffer with
  | some productBuffer, some rowBuffer => do
    let step ← direction.neg
    let product ← productBuffer.receive inverse change
    let row ← rowBuffer.receive step.conj inverse
    let (denom, guarded) ← denominator inverse.kind step product
    let gap ← step.copyInto (← step.sub product)
    let column ← gap.copyInto (← gap.div denom)
    let inverse' ← inverse.accumulateOuter column row
    return { inverse := inverse', column, product, row, guarded }
  | _, _ => .error .missingBuffers

/-- The identity that serves as a first inverse Jacobian for an iterate and its residual. -/
def initial (iterate residual : Tensor A) : Tensor A :=
  Tensor.identity (A.join iterate.kind residual.kind) iterate.size

end QuasiNewton.Secant
