import QuasiNewton.Proofs.Scalars
import QuasiNewton.Tensor.Product

/-!
# Tensors as vectors and matrices

Over exact scalars a tensor with one extent is a vector and one with two equal extents is a square
matrix, and the operations on tensors are those of linear algebra.
-/

namespace QuasiNewton

open Matrix

variable {𝕜 ρ : Type} [Field 𝕜] [StarRing 𝕜] [DecidableEq 𝕜] [Field ρ] [LinearOrder ρ]
  [FloorRing ρ] {S : Scalars 𝕜 ρ}

namespace Tensor

variable {n : ℕ} {a b d m t : Tensor S.arithmetic} {v w : Fin n → 𝕜}
  {M N : Matrix (Fin n) (Fin n) 𝕜}

/-- The scalar at a flat position. -/
def entry (t : Tensor S.arithmetic) (i : ℕ) : 𝕜 := t.elem i

/-- The elements as a vector. -/
def vector (t : Tensor S.arithmetic) (n : ℕ) : Fin n → 𝕜 := fun i => t.entry i

/-- The elements, row by row, as a square matrix. -/
def matrix (t : Tensor S.arithmetic) (n : ℕ) : Matrix (Fin n) (Fin n) 𝕜 :=
  .of fun i j => t.entry (i * n + j)

/-- A tensor with one extent is a vector. -/
structure IsVector (t : Tensor S.arithmetic) (v : Fin n → 𝕜) : Prop where
  shape : t.shape = [n]
  vector : t.vector n = v

/-- A tensor with two equal extents is a square matrix. -/
structure IsMatrix (t : Tensor S.arithmetic) (M : Matrix (Fin n) (Fin n) 𝕜) : Prop where
  shape : t.shape = [n, n]
  matrix : t.matrix n = M

/-- A tensor with two equal extents is the matrix of its elements. -/
theorem isMatrix_matrix (h : t.shape = [n, n]) : t.IsMatrix (t.matrix n) := ⟨h, rfl⟩

/-- The elements in a row are a vector. -/
theorem isVector_flatten (h : t.size = n) : t.flatten.IsVector (t.vector n) := by
  subst h
  exact ⟨rfl, rfl⟩

/-- A vector has as many elements as it has entries. -/
theorem IsVector.size (h : t.IsVector v) : t.size = n := by
  rw [Tensor.size, h.shape]
  exact Nat.mul_one n

/-- A tensor that is computed entry by entry is the vector of the entries. -/
theorem isVector_ofFn {f : ℕ → 𝕜} (h : ∀ i : Fin n, f i = v i) :
    (ofFn (A := S.arithmetic) () [n] f).IsVector v := by
  refine ⟨rfl, funext fun i => ?_⟩
  have hi : (i : ℕ) < Shape.size [n] := by simp [Shape.size]
  exact (elem_ofFn _ _ _ hi).trans (h i)

/-- A tensor that is computed entry by entry, row by row, is the matrix of the entries. -/
theorem isMatrix_ofFn {f : ℕ → 𝕜} (h : ∀ i j : Fin n, f (i * n + j) = M i j) :
    (ofFn (A := S.arithmetic) () [n, n] f).IsMatrix M := by
  refine ⟨rfl, Matrix.ext fun i j => ?_⟩
  have hij : (i * n + j : ℕ) < Shape.size [n, n] := by
    have hi : (i + 1 : ℕ) * n ≤ n * n := Nat.mul_le_mul_right n i.isLt
    have hj := j.isLt
    rw [Nat.succ_mul] at hi
    rw [Shape.size, List.foldr_cons, List.foldr_cons, List.foldr_nil, Nat.mul_one]
    omega
  exact (elem_ofFn _ _ _ hij).trans (h i j)

/-- A product with a column takes one of the extent of the matrix. -/
theorem size_of_matMul_column {rows k l : ℕ} (hm : m.shape = [rows, k]) (ht : t.shape = [l])
    (h : m.matMul t = .ok a) : l = k := by
  rw [matMul, hm, ht] at h
  by_contra hne
  simp [matMulKeeping, Kept.ofShapes, Kept.left?, Kept.right?, hm, ht, Ne.symm hne] at h

/-- A product of a row takes one of the extent of the matrix. -/
theorem size_of_matMul_matrix {columns k l : ℕ} (ht : t.shape = [l]) (hm : m.shape = [k, columns])
    (h : t.matMul m = .ok a) : l = k := by
  rw [matMul, hm, ht] at h
  by_contra hne
  simp [matMulKeeping, Kept.ofShapes, Kept.left?, Kept.right?, hm, ht, hne] at h

/-- There is one kind only. -/
theorem castTo_eq (k : S.arithmetic.Kind) (t : Tensor S.arithmetic) : t.castTo k = t :=
  castTo_self t

/-- A running sum is the sum. -/
theorem sumBelow_eq_sum (f : ℕ → 𝕜) (n : ℕ) :
    sumBelow (A := S.arithmetic) () n f = (∑ i : Fin n, f i : 𝕜) := by
  induction n with
  | zero => exact Int.cast_zero (R := 𝕜)
  | succ n ih =>
    rw [Fin.sum_univ_castSucc]
    exact congrArg (· + f n) ih

/-! ## Vectors -/

/-- The negative of a vector is computed. -/
theorem IsVector.neg (h : t.IsVector v) : ∃ c, t.neg = .ok c ∧ c.IsVector (-v) := by
  refine ⟨_, if_pos rfl, ?_⟩
  rw [h.shape]
  exact isVector_ofFn fun i => congrArg Neg.neg (congrFun h.vector i)

/-- The conjugate of a vector is computed. -/
theorem IsVector.conj (h : t.IsVector v) : t.conj.IsVector (star v) := by
  rw [Tensor.conj, h.shape]
  exact isVector_ofFn fun i => congrArg star (congrFun h.vector i)

/-- Tensors of one shape are subtracted as vectors. -/
theorem exists_sub (h : a.shape = b.shape) (hn : a.size = n) :
    ∃ c, a.sub b = .ok c ∧ c.shape = a.shape ∧ c.vector n = a.vector n - b.vector n := by
  have hsigned : S.arithmetic.signed (S.arithmetic.join a.kind b.kind) = true := rfl
  rw [Tensor.sub, if_pos hsigned, combine, ← h, Shape.broadcast?_self]
  refine ⟨_, rfl, rfl, funext fun i => (elem_ofFn _ _ _ (i.isLt.trans_eq hn.symm)).trans ?_⟩
  rw [Shape.source_self, castTo_eq, castTo_eq]
  rfl

/-- Tensors of one shape are added as vectors. -/
theorem exists_sum (h : a.shape = b.shape) (hn : a.size = n) :
    ∃ c, a.add b = .ok c ∧ c.shape = a.shape ∧ c.vector n = a.vector n + b.vector n := by
  rw [Tensor.add, combine, ← h, Shape.broadcast?_self]
  refine ⟨_, rfl, rfl, funext fun i => (elem_ofFn _ _ _ (i.isLt.trans_eq hn.symm)).trans ?_⟩
  rw [Shape.source_self, castTo_eq, castTo_eq]
  rfl

/-- The difference of two vectors is computed. -/
theorem IsVector.sub (ha : a.IsVector v) (hb : b.IsVector w) :
    ∃ c, a.sub b = .ok c ∧ c.IsVector (v - w) := by
  obtain ⟨c, hc, hshape, hvector⟩ := exists_sub (ha.shape.trans hb.shape.symm) ha.size
  rw [ha.vector, hb.vector] at hvector
  exact ⟨c, hc, hshape.trans ha.shape, hvector⟩

/-- A real multiple of a tensor has the multiples of its elements. -/
theorem vector_scale (x : ρ) (hn : t.size = n) :
    (t.scale x).vector n = S.ofReal x • t.vector n := by
  refine funext fun i => (elem_ofFn _ _ _ (i.isLt.trans_eq hn.symm)).trans ?_
  rw [castTo_eq]
  rfl

/-- The magnitudes of the elements. -/
theorem vector_abs (hn : t.size = n) :
    t.abs.vector n = fun i => S.ofReal (S.root (S.normSq (t.vector n i))) :=
  funext fun i => elem_ofFn _ _ _ (i.isLt.trans_eq hn.symm)

/-- A vector divided by a single number. -/
theorem IsVector.div (ha : a.IsVector v) (hd : d.shape = []) :
    ∃ c, a.div d = .ok c ∧ c.IsVector ((d.entry 0)⁻¹ • v) := by
  have hs : Shape.broadcast? [n] [] = some [n] := rfl
  rw [Tensor.div, combine, ha.shape, hd, hs]
  refine ⟨_, rfl, isVector_ofFn fun i => ?_⟩
  rw [Shape.source_self, castTo_eq, castTo_eq, ← ha.vector]
  exact div_eq_inv_mul _ _

/-- The inner product of two vectors is computed, with the conjugate of the first. -/
theorem IsVector.inner (ha : a.IsVector v) (hb : b.IsVector w) :
    ∃ c, a.inner b = .ok c ∧ c.shape = [] ∧ c.entry 0 = star v ⬝ᵥ w := by
  rw [Tensor.inner, if_pos (ha.size.trans hb.size.symm)]
  refine ⟨_, rfl, rfl, ?_⟩
  rw [ha.size, castTo_eq, castTo_eq, ← ha.vector, ← hb.vector]
  exact sumBelow_eq_sum _ n

/-- The row and the column of a flat position. -/
theorem row_column (i j : Fin n) :
    (i * n + j : ℕ) / n = i ∧ (i * n + j : ℕ) % n = j := by
  rw [Nat.add_comm, Nat.add_mul_div_right _ _ (Nat.zero_lt_of_lt j.isLt),
    Nat.div_eq_of_lt j.isLt, Nat.zero_add, Nat.add_mul_mod_self_right, Nat.mod_eq_of_lt j.isLt]
  exact ⟨rfl, rfl⟩

/-- The outer product of two vectors is computed. -/
theorem IsVector.outer (ha : a.IsVector v) (hb : b.IsVector w) :
    (a.outer b).IsMatrix (vecMulVec v w) := by
  rw [Tensor.outer, ha.size, hb.size, castTo_eq, castTo_eq, ← ha.vector, ← hb.vector]
  refine isMatrix_ofFn fun i j => ?_
  rw [(row_column i j).1, (row_column i j).2]
  rfl

/-! ## Matrices -/

/-- The identity is the identity matrix. -/
theorem isMatrix_identity (n : ℕ) :
    (identity (A := S.arithmetic) () n).IsMatrix (1 : Matrix (Fin n) (Fin n) 𝕜) := by
  refine isMatrix_ofFn fun i j => ?_
  rw [(row_column i j).1, (row_column i j).2, Matrix.one_apply]
  by_cases hij : i = j
  · rw [if_pos (congrArg Fin.val hij), if_pos hij]
    exact Int.cast_one
  · rw [if_neg fun h => hij (Fin.ext h), if_neg hij]
    exact Int.cast_zero

/-- A square matrix that is reset is the identity matrix. -/
theorem isMatrix_of_resetToIdentity (ht : t.shape = [n, n]) (h : t.resetToIdentity = .ok m) :
    m.IsMatrix (1 : Matrix (Fin n) (Fin n) 𝕜) := by
  rw [resetToIdentity, ht] at h
  obtain rfl := Except.ok.inj h
  exact isMatrix_identity n

/-- The sum of two matrices is computed. -/
theorem IsMatrix.add (ha : a.IsMatrix M) (hb : b.IsMatrix N) :
    ∃ c, a.add b = .ok c ∧ c.IsMatrix (M + N) := by
  rw [Tensor.add, combine, ha.shape, hb.shape, Shape.broadcast?_self]
  refine ⟨_, rfl, isMatrix_ofFn fun i j => ?_⟩
  rw [Shape.source_self, castTo_eq, castTo_eq, ← ha.matrix, ← hb.matrix]
  rfl

/-- A matrix times a column. -/
theorem IsMatrix.matMul (hm : m.IsMatrix M) (ht : t.IsVector v) :
    ∃ c, m.matMul t = .ok c ∧ c.IsVector (M *ᵥ v) := by
  rw [matMul_matrix_column hm.shape ht.shape]
  refine ⟨_, rfl, isVector_ofFn fun i => ?_⟩
  rw [castTo_eq, castTo_eq, ← hm.matrix, ← ht.vector]
  exact sumBelow_eq_sum (fun j => m.entry (i * n + j) * t.entry j) n

/-- A row times a matrix. -/
theorem IsVector.matMul (ht : t.IsVector v) (hm : m.IsMatrix M) :
    ∃ c, t.matMul m = .ok c ∧ c.IsVector (v ᵥ* M) := by
  rw [matMul_row_matrix ht.shape hm.shape]
  refine ⟨_, rfl, isVector_ofFn fun i => ?_⟩
  rw [castTo_eq, castTo_eq, ← hm.matrix, ← ht.vector]
  exact sumBelow_eq_sum (fun j => t.entry j * m.entry (j * n + i)) n

end Tensor

end QuasiNewton
