import QuasiNewton.Tensor.Linear

/-!
# Matrix products

The last two extents of a tensor are the rows and columns of matrices, and the extents before them
arrange the matrices; arrangements stretch as shapes do. A first factor with a single extent is a
row and a second factor with a single extent is a column, and the product keeps no extent in their
place. `matMul_matrix_column` and `matMul_row_matrix` read off the two products of the solver.
`receive` stores a product in an array that is there.
-/

namespace QuasiNewton

/-- An arrangement of matrices of one size. -/
structure Matrices where
  /-- How the matrices are arranged. -/
  arrangement : Shape
  /-- How many rows a matrix has. -/
  rows : Nat
  /-- How many columns a matrix has. -/
  columns : Nat

namespace Matrices

/-- The flat position of an entry of the matrix that is paired with a position of a larger
arrangement. -/
def position (m : Matrices) (arrangement : Shape) (place row column : Nat) : Nat :=
  (Shape.source arrangement m.arrangement place * m.rows + row) * m.columns + column

end Matrices

/-- Which extents of its factors a matrix product keeps. -/
structure Kept where
  /-- Does it keep the rows of the first factor? -/
  rows : Bool
  /-- Does it keep the columns of the second factor? -/
  columns : Bool

namespace Kept

/-- Rows and columns are kept of factors with at least two extents. -/
def ofShapes (a b : Shape) : Kept := ⟨decide (2 ≤ a.length), decide (2 ≤ b.length)⟩

/-- How many extents are kept. -/
def count (k : Kept) : Nat := k.rows.toNat + k.columns.toNat

/-- Give up the rows, and then the columns, that an array with a number of extents has no place
for. -/
def fit (k : Kept) (dimensions : Nat) : Kept :=
  let narrowed : Kept := if dimensions < k.count then { k with rows := false } else k
  if dimensions < narrowed.count then { narrowed with columns := false } else narrowed

/-- The extents kept of the two factors. -/
def extents (k : Kept) (rows columns : Nat) : Shape :=
  (if k.rows then [rows] else []) ++ (if k.columns then [columns] else [])

/-- The matrices of a first factor; single rows, if its rows are not kept. -/
def left? (k : Kept) (s : Shape) : Option Matrices :=
  match k.rows, s.reverse with
  | true, columns :: rows :: arrangement => some ⟨arrangement.reverse, rows, columns⟩
  | false, columns :: arrangement => some ⟨arrangement.reverse, 1, columns⟩
  | _, _ => none

/-- The matrices of a second factor; single columns, if its columns are not kept. -/
def right? (k : Kept) (s : Shape) : Option Matrices :=
  match k.columns, s.reverse with
  | true, columns :: rows :: arrangement => some ⟨arrangement.reverse, rows, columns⟩
  | false, rows :: arrangement => some ⟨arrangement.reverse, rows, 1⟩
  | _, _ => none

end Kept

namespace Tensor

variable {A : Arithmetic}

/-- The product of two tensors, of whose extents some are kept. -/
def matMulKeeping (kept : Kept) (a b : Tensor A) : Attempt A (Tensor A) :=
  match kept.left? a.shape, kept.right? b.shape with
  | some l, some r =>
    match Shape.broadcast? l.arrangement r.arrangement with
    | some arrangement =>
      if l.columns = r.rows then
        let k := A.join a.kind b.kind
        let a' := a.castTo k
        let b' := b.castTo k
        .ok (ofFn k (arrangement ++ kept.extents l.rows r.columns) fun i =>
          let place := i / (l.rows * r.columns)
          sumBelow k l.columns fun j =>
            A.times k (a'.elem (l.position arrangement place (i / r.columns % l.rows) j))
              (b'.elem (r.position arrangement place j (i % r.columns))))
      else .error .unsuitableValue
    | none => .error .unsuitableValue
  | _, _ => .error .unsuitableValue

/-- The product of two tensors. -/
def matMul (a b : Tensor A) : Attempt A (Tensor A) :=
  matMulKeeping (Kept.ofShapes a.shape b.shape) a b

/-- A matrix times a column. -/
theorem matMul_matrix_column {m v : Tensor A} {rows n : Nat} (hm : m.shape = [rows, n])
    (hv : v.shape = [n]) :
    m.matMul v = .ok (ofFn (A.join m.kind v.kind) [rows] fun i =>
      sumBelow (A.join m.kind v.kind) n fun j =>
        A.times (A.join m.kind v.kind) ((m.castTo (A.join m.kind v.kind)).elem (i * n + j))
          ((v.castTo (A.join m.kind v.kind)).elem j)) := by
  simp only [matMul, matMulKeeping, Kept.ofShapes, Kept.left?, Kept.right?, Kept.extents, hm, hv]
  simp [Matrices.position]
  apply ofFn_congr
  intro i hi
  have hi : i < rows := by simpa [Shape.size] using hi
  simp [Nat.div_eq_of_lt hi, Nat.mod_eq_of_lt hi, Nat.mod_one]

/-- A row times a matrix. -/
theorem matMul_row_matrix {v m : Tensor A} {n columns : Nat} (hv : v.shape = [n])
    (hm : m.shape = [n, columns]) :
    v.matMul m = .ok (ofFn (A.join v.kind m.kind) [columns] fun j =>
      sumBelow (A.join v.kind m.kind) n fun i =>
        A.times (A.join v.kind m.kind) ((v.castTo (A.join v.kind m.kind)).elem i)
          ((m.castTo (A.join v.kind m.kind)).elem (i * columns + j))) := by
  simp only [matMul, matMulKeeping, Kept.ofShapes, Kept.left?, Kept.right?, Kept.extents, hm, hv]
  simp [Matrices.position]
  apply ofFn_congr
  intro i hi
  have hi : i < columns := by simpa [Shape.size] using hi
  simp [Nat.div_eq_of_lt hi, Nat.mod_eq_of_lt hi]

/-- The contents of an array after a product was stored in it. The kind is looked at before the
factors. The array has the very extents that the product keeps, at most those it has a place for,
and the arrangement of the product stretches to the extents before them. -/
def receive (target a b : Tensor A) : Attempt A (Tensor A) :=
  if A.storable (A.join a.kind b.kind) target.kind then do
    let kept := (Kept.ofShapes a.shape b.shape).fit target.shape.length
    let product ← matMulKeeping kept a b
    if product.shape.reverse.take kept.count = target.shape.reverse.take kept.count then
      target.assign product
    else throw .unsuitableValue
  else .error .unsuitableType

end Tensor

end QuasiNewton
