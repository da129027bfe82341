import QuasiNewton.Tensor.Elementwise

/-!
# Linear algebra

Sums over flat positions, the inner product, whose first factor is conjugated, the outer product,
whose factors are not, and the identity matrix. Matrices are tensors with two extents, stored row by
row; `accumulateOuter` and `resetToIdentity` change a matrix that is there.
-/

namespace QuasiNewton.Tensor

variable {A : Arithmetic}

/-- The sum of the values of a function at the numbers below a bound. -/
def sumBelow (kind : A.Kind) (n : Nat) (f : Nat → A.Elem) : A.Elem :=
  n.fold (fun i _ total => A.add kind total (f i)) (A.zeroOf kind)

@[simp] theorem sumBelow_zero (k : A.Kind) (f : Nat → A.Elem) : sumBelow k 0 f = A.zeroOf k := rfl

/-- A running sum takes up one term after another. -/
theorem sumBelow_succ (k : A.Kind) (n : Nat) (f : Nat → A.Elem) :
    sumBelow k (n + 1) f = A.add k (sumBelow k n f) (f n) := by
  simp [sumBelow, Nat.fold_succ]

/-- The inner product of the elements, the first factor conjugated. -/
def inner (a b : Tensor A) : Attempt A (Tensor A) :=
  if a.size = b.size then
    let k := A.join a.kind b.kind
    let a' := a.castTo k
    let b' := b.castTo k
    .ok (scalar k (sumBelow k a.size fun i => A.times k (A.conj k (a'.elem i)) (b'.elem i)))
  else .error .unsuitableValue

/-- The products of the elements of a column with the elements of a row. -/
def outer (column row : Tensor A) : Tensor A :=
  let k := A.join column.kind row.kind
  let x := column.castTo k
  let y := row.castTo k
  ofFn k [column.size, row.size] fun i =>
    A.times k (x.elem (i / row.size)) (y.elem (i % row.size))

/-- The contents of a matrix after the routine for rank-one updates has added a column times a row
to it. The routine works in a kind that takes all three, and its result is stored as far as the kind
of the matrix can hold it. A matrix that cannot hold imaginary parts receives the column times the
conjugated row. Extents of one do not count when the shapes are compared; an empty matrix is
refused. -/
def accumulateOuter (m column row : Tensor A) : Attempt A (Tensor A) :=
  if m.size ≠ 0 ∧ m.shape.withoutOnes = Shape.withoutOnes [column.size, row.size] then
    let kind := A.update (A.join m.kind (A.join column.kind row.kind))
    let factor := if A.storable kind m.kind then row else row.conj
    m.assign (ofFn kind m.shape (A.rankOne kind column.size row.size (m.castTo kind).elem
      (column.castTo kind).elem (factor.castTo kind).elem))
  else .error .unsuitableValue

/-- The identity matrix. -/
def identity (kind : A.Kind) (n : Nat) : Tensor A :=
  ofFn kind [n, n] fun i => if i / n = i % n then A.oneOf kind else A.zeroOf kind

/-- The contents of a matrix after it is overwritten with ones on the diagonal and zeros elsewhere;
more than two extents have to be equal. -/
def resetToIdentity (m : Tensor A) : Attempt A (Tensor A) :=
  match m.shape with
  | [_, columns] =>
    .ok (ofFn m.kind m.shape fun i =>
      if i / columns = i % columns then A.oneOf m.kind else A.zeroOf m.kind)
  | n :: p :: q :: rest =>
    if (p :: q :: rest).all (· == n) then
      let stride := (List.range (rest.length + 3)).foldr (fun k sum => Nat.pow n k + sum) 0
      .ok (ofFn m.kind m.shape fun i => if i % stride = 0 then A.oneOf m.kind else A.zeroOf m.kind)
    else .error .unsuitableValue
  | _ => .error .unsuitableValue

end QuasiNewton.Tensor
