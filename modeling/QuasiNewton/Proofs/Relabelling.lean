import QuasiNewton.Proofs.Broyden
import QuasiNewton.Proofs.Regular

/-!
# Unknowns in another order

The unknowns of a solve can be listed in another order, and iterates can be measured from another
point. Over exact scalars every move of a step commutes with that: vectors are listed in the new
order, and so are the rows and the columns of matrices. Only iterates are shifted; residuals,
directions and changes are differences already.
-/

namespace QuasiNewton

open Matrix

variable {𝕜 ρ : Type} [Field 𝕜] [StarRing 𝕜] [DecidableEq 𝕜] [Field ρ] [LinearOrder ρ]
  [FloorRing ρ] {S : Scalars 𝕜 ρ} {n : ℕ} {σ : Equiv.Perm (Fin n)} {c : Fin n → 𝕜}

namespace Tensor

/-- The tensor of a shape with the elements of a vector. -/
def ofVector (s : Shape) (v : Fin n → 𝕜) : Tensor S.arithmetic :=
  ofFn (A := S.arithmetic) () s fun i => if h : i < n then v ⟨i, h⟩ else (0 : 𝕜)

/-- The elements in another order, less a shift: at a place stands the unknown that the permutation
puts there. -/
def relabel (σ : Equiv.Perm (Fin n)) (c : Fin n → 𝕜) (t : Tensor S.arithmetic) :
    Tensor S.arithmetic :=
  ofVector t.shape ((t.vector n - c) ∘ σ)

/-- The elements back in their own order, with the shift added again. -/
def restore (σ : Equiv.Perm (Fin n)) (c : Fin n → 𝕜) (t : Tensor S.arithmetic) :
    Tensor S.arithmetic :=
  ofVector t.shape (t.vector n ∘ σ.symm + c)

/-- The rows and the columns of a square matrix in another order. -/
def permute (σ : Equiv.Perm (Fin n)) (m : Tensor S.arithmetic) : Tensor S.arithmetic :=
  ofFn (A := S.arithmetic) () m.shape fun k =>
    if h : k / n < n ∧ k % n < n then (m.matrix n).submatrix σ σ ⟨k / n, h.1⟩ ⟨k % n, h.2⟩
    else (0 : 𝕜)

variable {d : Fin n → 𝕜} {a b m t : Tensor S.arithmetic} {v w : Fin n → 𝕜}
  {M N : Matrix (Fin n) (Fin n) 𝕜} {s : Shape} {x y : Attempt S.arithmetic (Tensor S.arithmetic)}

/-- Another order keeps kind and shape. -/
theorem frame_relabel : (t.relabel σ c).frame = t.frame := rfl

/-- The tensor of a vector has its elements. -/
theorem vector_ofVector (hs : s.size = n) : (ofVector s v : Tensor S.arithmetic).vector n = v :=
  funext fun i => (elem_ofFn _ _ _ (i.isLt.trans_eq hs.symm)).trans (dif_pos i.isLt)

/-- The elements in another order are the permuted and shifted ones. -/
theorem vector_relabel (hn : t.size = n) : (t.relabel σ c).vector n = (t.vector n - c) ∘ σ :=
  vector_ofVector hn

/-- Tensors of one shape with the same elements are the same. -/
theorem eq_of_vector (hshape : a.shape = b.shape) (hn : a.size = n)
    (h : a.vector n = b.vector n) : a = b :=
  ext rfl hshape fun i hi => congrFun h ⟨i, hi.trans_eq hn⟩

/-- What shows the elements in the new order is the tensor in the new order. -/
theorem eq_relabel (hshape : b.shape = a.shape) (hn : a.size = n)
    (h : b.vector n = (a.vector n - c) ∘ σ) : b = a.relabel σ c :=
  eq_of_vector hshape ((congrArg Shape.size hshape).trans hn) (h.trans (vector_relabel hn).symm)

/-- Attempts at tensors of one shape, the second one with the elements in the new order. -/
theorem eq_map_relabel (hs : s.size = n) (hx : ∃ z, x = .ok z ∧ z.shape = s ∧ z.vector n = v)
    (hy : ∃ z, y = .ok z ∧ z.shape = s ∧ z.vector n = (v - c) ∘ σ) : y = x.map (relabel σ c) := by
  obtain ⟨z, rfl, hz, rfl⟩ := hx
  obtain ⟨z', rfl, hz', hv⟩ := hy
  exact congrArg Except.ok
    (eq_relabel (hz'.trans hz.symm) ((congrArg Shape.size hz).trans hs) hv)

/-- The other order is undone by going back. -/
theorem restore_relabel (hn : t.size = n) : (t.relabel σ c).restore σ c = t := by
  refine eq_of_vector rfl hn ((vector_ofVector hn).trans ?_)
  rw [vector_relabel hn, Function.comp_assoc, Equiv.self_comp_symm, Function.comp_id,
    sub_add_cancel]

/-! ## Vectors -/

/-- A vector is known by its elements. -/
theorem IsVector.unique (ha : a.IsVector v) (hb : b.IsVector v) : a = b :=
  eq_of_vector (ha.shape.trans hb.shape.symm) ha.size (ha.vector.trans hb.vector.symm)

/-- A vector in another order has the permuted elements. -/
theorem IsVector.relabel (h : t.IsVector v) : (t.relabel σ 0).IsVector (v ∘ σ) := by
  refine ⟨h.shape, ?_⟩
  rw [vector_relabel h.size, h.vector, sub_zero]

/-- Attempts at vectors, the second one in the new order. -/
theorem eq_map_of_isVector (hx : ∃ z, x = .ok z ∧ z.IsVector v)
    (hy : ∃ z, y = .ok z ∧ z.IsVector (v ∘ σ)) : y = x.map (relabel σ 0) := by
  obtain ⟨z, rfl, hz⟩ := hx
  obtain ⟨z', rfl, hz'⟩ := hy
  exact congrArg Except.ok (hz'.unique hz.relabel)

/-- Tensors of one shape are subtracted in the new order as in the old one. -/
theorem sub_relabel (hshape : a.shape = b.shape) (hn : a.size = n) :
    (a.relabel σ c).sub (b.relabel σ d) = (a.sub b).map (relabel σ (c - d)) := by
  have hb : b.size = n := (congrArg Shape.size hshape).symm.trans hn
  have hsub := exists_sub (a := a.relabel σ c) (b := b.relabel σ d) hshape hn
  rw [vector_relabel hn, vector_relabel hb] at hsub
  refine eq_map_relabel hn (exists_sub hshape hn) ?_
  rw [sub_sub_sub_comm]
  exact hsub

/-- Tensors of one shape are added in either order. -/
theorem add_relabel (hshape : a.shape = b.shape) (hn : a.size = n) :
    (a.relabel σ 0).add (b.relabel σ 0) = (a.add b).map (relabel σ 0) := by
  have hb : b.size = n := (congrArg Shape.size hshape).symm.trans hn
  have hadd := exists_sum (a := a.relabel σ 0) (b := b.relabel σ 0) hshape hn
  rw [vector_relabel hn, vector_relabel hb, sub_zero, sub_zero] at hadd
  refine eq_map_relabel hn (exists_sum hshape hn) ?_
  rw [sub_zero]
  exact hadd

/-- The negative is taken in either order. -/
theorem neg_relabel (h : t.IsVector v) : (t.relabel σ 0).neg = t.neg.map (relabel σ 0) :=
  eq_map_of_isVector h.neg h.relabel.neg

/-- Conjugates are taken in either order. -/
theorem conj_relabel (h : t.IsVector v) : (t.relabel σ 0).conj = t.conj.relabel σ 0 :=
  h.relabel.conj.unique h.conj.relabel

/-- A vector is divided by a number in either order. -/
theorem div_relabel (ha : a.IsVector v) (hb : b.shape = []) :
    (a.relabel σ 0).div b = (a.div b).map (relabel σ 0) :=
  eq_map_of_isVector (ha.div hb) (ha.relabel.div hb)

/-- A tensor is scaled in either order. -/
theorem scale_relabel (x : ρ) (hn : t.size = n) :
    (t.relabel σ 0).scale x = (t.scale x).relabel σ 0 := by
  refine eq_relabel rfl hn ?_
  rw [vector_scale x hn, vector_scale (t := t.relabel σ 0) x hn, vector_relabel hn, sub_zero,
    sub_zero]
  rfl

/-- Magnitudes are taken in either order. -/
theorem abs_relabel (hn : t.size = n) : (t.relabel σ 0).abs = t.abs.relabel σ 0 := by
  refine eq_relabel rfl hn ?_
  rw [vector_abs hn, vector_abs (t := t.relabel σ 0) hn, vector_relabel hn, sub_zero, sub_zero]
  rfl

/-- A tensor is flattened in either order. -/
theorem flatten_relabel (hn : t.size = n) : (t.relabel σ c).flatten = t.flatten.relabel σ c :=
  eq_relabel rfl (isVector_flatten hn).size (vector_relabel hn)

/-- A tensor is reshaped in either order. -/
theorem reshape_relabel (hn : t.size = n) :
    (t.relabel σ c).reshape s = (t.reshape s).map (relabel σ c) := by
  have hshape : (t.relabel σ c).shape = t.shape := rfl
  unfold reshape
  by_cases hs : t.shape.size = s.size
  · rw [dif_pos hs, dif_pos (hshape ▸ hs)]
    exact congrArg Except.ok (eq_relabel rfl (hs.symm.trans hn) (vector_relabel hn))
  · rw [dif_neg hs, dif_neg (hshape ▸ hs)]
    rfl

/-- An array with one element at every place is the same in every order. -/
theorem full_relabel (z : 𝕜) (hs : s.size = n) :
    full () s z = (full (A := S.arithmetic) () s z).relabel σ 0 := by
  have hvector : (full (A := S.arithmetic) () s z).vector n = fun _ => z :=
    funext fun i => elem_ofFn _ _ _ (i.isLt.trans_eq hs.symm)
  refine eq_relabel rfl hs ?_
  rw [hvector, sub_zero]
  rfl

/-! ## Matrices -/

/-- A matrix is known by its entries. -/
theorem IsMatrix.unique (ha : a.IsMatrix M) (hb : b.IsMatrix M) : a = b := by
  refine ext rfl (ha.shape.trans hb.shape.symm) fun k hk => ?_
  have hlt : k < n * n := by
    rw [size, ha.shape] at hk
    exact hk.trans_eq (congrArg (n * ·) (Nat.mul_one n))
  -- a flat position is that of a row and a column
  have hn : 0 < n := Nat.pos_of_ne_zero fun h => by
    subst h
    exact absurd hlt (Nat.not_lt_zero k)
  have hrow : k / n < n := Nat.div_lt_of_lt_mul hlt
  have hentry := congrFun (congrFun (ha.matrix.trans hb.matrix.symm) ⟨k / n, hrow⟩)
    ⟨k % n, Nat.mod_lt k hn⟩
  change a.entry (k / n * n + k % n) = b.entry (k / n * n + k % n) at hentry
  rwa [Nat.div_add_mod' k n] at hentry

/-- A matrix in another order has the permuted rows and columns. -/
theorem IsMatrix.permute (h : m.IsMatrix M) : (m.permute σ).IsMatrix (M.submatrix σ σ) := by
  unfold Tensor.permute
  rw [h.shape, h.matrix]
  refine isMatrix_ofFn fun i j => ?_
  have hij : (i * n + j : ℕ) / n < n ∧ (i * n + j : ℕ) % n < n := by
    rw [(row_column i j).1, (row_column i j).2]
    exact ⟨i.isLt, j.isLt⟩
  exact (dif_pos hij).trans
    (congrArg₂ (M.submatrix σ σ) (Fin.ext (row_column i j).1) (Fin.ext (row_column i j).2))

/-- The identity is the same in every order. -/
theorem permute_identity : (identity (A := S.arithmetic) () n).permute σ = identity () n := by
  refine (isMatrix_identity n).permute.unique ?_
  rw [submatrix_one_equiv]
  exact isMatrix_identity n

/-- A matrix times a column is the product in the other order. -/
theorem matMul_permute (hm : m.IsMatrix M) (ht : t.IsVector v) :
    (m.permute σ).matMul (t.relabel σ 0) = (m.matMul t).map (relabel σ 0) := by
  have hproduct := (hm.permute (σ := σ)).matMul (ht.relabel (σ := σ))
  rw [submatrix_mulVec_equiv, Function.comp_assoc, Equiv.self_comp_symm,
    Function.comp_id] at hproduct
  exact eq_map_of_isVector (hm.matMul ht) hproduct

/-- So is a row times a matrix. -/
theorem matMul_permute' (ht : t.IsVector v) (hm : m.IsMatrix M) :
    (t.relabel σ 0).matMul (m.permute σ) = (t.matMul m).map (relabel σ 0) := by
  have hproduct := (ht.relabel (σ := σ)).matMul (hm.permute (σ := σ))
  rw [submatrix_vecMul_equiv, Function.comp_assoc, Equiv.self_comp_symm,
    Function.comp_id] at hproduct
  exact eq_map_of_isVector (ht.matMul hm) hproduct

/-- A matrix and an outer product are added in the new order as in the old one. -/
theorem add_outer_permute (hm : m.IsMatrix M) (ha : a.IsVector v) (hb : b.IsVector w) :
    (m.permute σ).add ((a.relabel σ 0).outer (b.relabel σ 0)) =
      (m.add (a.outer b)).map (permute σ) := by
  obtain ⟨z, hz, hzm⟩ := hm.add (ha.outer hb)
  obtain ⟨z', hz', hzm'⟩ := (hm.permute (σ := σ)).add
    ((ha.relabel (σ := σ)).outer (hb.relabel (σ := σ)))
  rw [hz, hz']
  exact congrArg Except.ok (hzm'.unique hzm.permute)

/-- The inner product does not depend on the order. -/
theorem inner_relabel (ha : a.IsVector v) (hb : b.IsVector w) :
    (a.relabel σ 0).inner (b.relabel σ 0) = a.inner b := by
  obtain ⟨x, hx, hxs, hxv⟩ := ha.inner hb
  obtain ⟨y, hy, hys, hyv⟩ := (ha.relabel (σ := σ)).inner (hb.relabel (σ := σ))
  rw [hx, hy]
  have hsame : star (v ∘ σ) ⬝ᵥ w ∘ σ = star v ⬝ᵥ w :=
    Equiv.sum_comp σ fun i => star (v i) * w i
  refine congrArg Except.ok (ext rfl (hys.trans hxs.symm) fun i hi => ?_)
  obtain rfl : i = 0 := by
    rw [size, hys] at hi
    exact Nat.lt_one_iff.mp hi
  exact hyv.trans (hsame.trans hxv.symm)

end Tensor

/-! ## Updates -/

namespace Secant

open Tensor

variable {m d y : Tensor S.arithmetic} {J : Matrix (Fin n) (Fin n) 𝕜} {v w : Fin n → 𝕜}

/-- The outcome of an update in another order. -/
def Update.relabel (σ : Equiv.Perm (Fin n)) (u : Update S.arithmetic) : Update S.arithmetic where
  inverse := u.inverse.permute σ
  column := u.column.relabel σ 0
  product := u.product.relabel σ 0
  row := u.row.relabel σ 0
  guarded := u.guarded

/-- An update in another order is the update, and looks at the same denominator. -/
theorem update_permute (hm : m.IsMatrix J) (hd : d.IsVector v) (hy : y.IsVector w) :
    update (m.permute σ) (d.relabel σ 0) (y.relabel σ 0) = (update m d y).map (.relabel σ) := by
  obtain ⟨step, hstep, hs⟩ := hd.neg
  obtain ⟨product, hproduct, hp⟩ := hm.matMul hy
  obtain ⟨row, hrow, hr⟩ := hs.conj.matMul hm
  obtain ⟨denom, guarded, hdenom, hshape, -⟩ := exists_denominator hs hp m.kind
  obtain ⟨gap, hgap, hg⟩ := hs.sub hp
  obtain ⟨column, hcolumn, hc⟩ := hg.div hshape
  obtain ⟨inverse, hinverse, -⟩ := hm.add (hc.outer hr)
  -- the same steps in the other order
  have hstep' : (d.relabel σ 0).neg = .ok (step.relabel σ 0) := by
    rw [neg_relabel hd, hstep]
    rfl
  have hproduct' : (m.permute σ).matMul (y.relabel σ 0) = .ok (product.relabel σ 0) := by
    rw [matMul_permute hm hy, hproduct]
    rfl
  have hrow' : (step.relabel σ 0).conj.matMul (m.permute σ) = .ok (row.relabel σ 0) := by
    rw [conj_relabel hs, matMul_permute' hs.conj hm, hrow]
    rfl
  have hdenom' : denominator (m.permute σ).kind (step.relabel σ 0) (product.relabel σ 0) =
      .ok (denom, guarded) := by
    rw [← hdenom, denominator, denominator, inner_relabel hs hp]
    rfl
  have hgap' : (step.relabel σ 0).sub (product.relabel σ 0) = .ok (gap.relabel σ 0) := by
    rw [sub_relabel (hs.shape.trans hp.shape.symm) hs.size, hgap, sub_zero]
    rfl
  have hcolumn' : (gap.relabel σ 0).div denom = .ok (column.relabel σ 0) := by
    rw [div_relabel hg hshape, hcolumn]
    rfl
  have hinverse' : (m.permute σ).add ((column.relabel σ 0).outer (row.relabel σ 0)) =
      .ok (inverse.permute σ) := by
    rw [add_outer_permute hm hc hr, hinverse]
    rfl
  simp only [update, hstep, hproduct, hrow, hdenom, hgap, hcolumn, hinverse, hstep', hproduct',
    hrow', hdenom', hgap', hcolumn', hinverse', bind, Except.bind, pure, Except.pure]
  rfl

end Secant

/-! ## Workspaces -/

namespace Workspace

/-- The arrays of a solve in another order; the points are measured from the shift. -/
def relabel (σ : Equiv.Perm (Fin n)) (c : Fin n → 𝕜) (w : Workspace S.arithmetic) :
    Workspace S.arithmetic where
  iterate := w.iterate.relabel σ c
  previous := w.previous.relabel σ c
  direction := w.direction.relabel σ 0
  residual := w.residual.relabel σ 0
  trial := w.trial.relabel σ 0
  change := w.change.relabel σ 0
  inverse := w.inverse.permute σ
  row := w.row.relabel σ 0
  product := w.product.relabel σ 0
  fillable := w.fillable

variable {w : Workspace S.arithmetic} {f : Frame S.arithmetic}

/-- In another order regular arrays are regular. -/
theorem Regular.relabel (h : w.Regular f) : (w.relabel σ c).Regular f where
  working := h.working
  nonempty := h.nonempty
  iterate := h.iterate
  previous := h.previous
  direction := h.direction
  residual := h.residual
  trial := h.trial
  change := h.change
  inverse := h.inverse
  row := h.row
  product := h.product
  fillable := h.fillable

/-- The arrays of a new solve in another order. -/
theorem allocate_relabel {u v : Tensor S.arithmetic} (fillable : Bool) (hu : u.size = n)
    (hv : v.size = n) :
    allocate fillable (u.relabel σ c) (v.relabel σ 0) =
      (allocate fillable u v).relabel σ c := by
  have hdirection : u.zerosLike = u.zerosLike.relabel σ 0 := Tensor.full_relabel ((0 : ℤ) : 𝕜) hu
  have hresidual : v.zerosLike = v.zerosLike.relabel σ 0 := Tensor.full_relabel ((0 : ℤ) : 𝕜) hv
  have hvector : Tensor.full () [u.size] (S.arithmetic.zeroOf ()) =
      (Tensor.full () [u.size] (S.arithmetic.zeroOf ())).relabel σ 0 :=
    Tensor.full_relabel ((0 : ℤ) : 𝕜) ((Nat.mul_one _).trans hu)
  have hinverse : Tensor.identity (A := S.arithmetic) () u.size =
      (Tensor.identity () u.size).permute σ := by
    rw [hu]
    exact Tensor.permute_identity.symm
  unfold allocate relabel
  rw [Workspace.mk.injEq]
  exact ⟨rfl, rfl, hdirection, rfl, hresidual, hresidual, hinverse, hvector, hvector, rfl⟩

/-- A move that does not depend on the engine commutes with a new order if it does so where arrays
are replaced. -/
theorem relabel_of_uniform {move : Engine → Workspace S.arithmetic →
      Attempt S.arithmetic (Workspace S.arithmetic)} (huniform : Uniform move) (h : w.Regular f)
    (hmove : move .rebuilding (w.relabel σ c) = (move .rebuilding w).map (relabel σ c))
    (e : Engine) : move e (w.relabel σ c) = (move e w).map (relabel σ c) := by
  obtain ⟨x, hx, -⟩ := huniform f w h
  obtain ⟨y, hy, -⟩ := huniform f _ (h.relabel (σ := σ) (c := c))
  rw [hx, hy, ← hx .rebuilding, ← hy .rebuilding, hmove]

/-- The search direction in another order. -/
theorem aim_relabel (h : w.Regular f) (hn : f.shape.size = n) (e : Engine) :
    (w.relabel σ c).aim e = (w.aim e).map (relabel σ c) := by
  have hm : w.inverse.IsMatrix (w.inverse.matrix n) :=
    Tensor.isMatrix_matrix (hn ▸ Tensor.shape_of_frame h.inverse)
  have hr : w.residual.size = n := (Tensor.size_of_frame h.residual).trans hn
  obtain ⟨v, hv, hvv⟩ := hm.matMul (Tensor.isVector_flatten hr)
  have hv' : (w.relabel σ c).inverse.matMul (w.relabel σ c).residual.flatten =
      .ok (v.relabel σ 0) := by
    change (w.inverse.permute σ).matMul (w.residual.relabel σ 0).flatten = _
    rw [Tensor.flatten_relabel hr, Tensor.matMul_permute hm (Tensor.isVector_flatten hr), hv]
    rfl
  refine relabel_of_uniform (uniform_aim S.isWorking) h ?_ e
  have hshape : (w.relabel σ c).iterate.shape = w.iterate.shape := rfl
  simp only [aim, filled, hv, hv', hshape, Tensor.reshape_relabel hvv.size, bind, Except.bind, pure,
    Except.pure]
  cases v.reshape w.iterate.shape <;> rfl

/-- The way along the direction in another order. -/
theorem advance_relabel (h : w.Regular f) (hn : f.shape.size = n) (e : Engine) (length : ρ) :
    (w.relabel σ c).advance e length = (w.advance e length).map (relabel σ c) := by
  have hiterate : w.iterate.size = n := (Tensor.size_of_frame h.iterate).trans hn
  have hdirection : w.direction.size = n := (Tensor.size_of_frame h.direction).trans hn
  have hshape : w.iterate.shape = (w.direction.scale length).shape :=
    Tensor.shape_congr (h.iterate.trans h.direction.symm)
  obtain ⟨u, -, hu, hadvance⟩ := h.advance length
  obtain ⟨u', -, hu', hadvance'⟩ := (h.relabel (σ := σ) (c := c)).advance length
  have hsub : (w.iterate.relabel σ c).sub ((w.direction.scale length).relabel σ 0) = _ :=
    Tensor.sub_relabel hshape hiterate
  rw [← Tensor.scale_relabel length hdirection, hu, sub_zero] at hsub
  obtain rfl := Except.ok.inj (hu'.symm.trans hsub)
  rw [hadvance, hadvance']
  rfl

/-- The change of the residual in another order. -/
theorem compare_relabel (h : w.Regular f) (hn : f.shape.size = n) (e : Engine) :
    (w.relabel σ c).compare e = (w.compare e).map (relabel σ c) := by
  have htrial : w.trial.size = n := (Tensor.size_of_frame h.trial).trans hn
  have hshape : w.trial.shape = w.residual.shape :=
    Tensor.shape_congr (h.trial.trans h.residual.symm)
  obtain ⟨y, -, hy, hcompare⟩ := h.compare
  obtain ⟨y', -, hy', hcompare'⟩ := (h.relabel (σ := σ) (c := c)).compare
  have hsub : (w.relabel σ c).trial.sub (w.relabel σ c).residual = _ :=
    Tensor.sub_relabel hshape htrial
  rw [hy', hy, sub_zero] at hsub
  obtain rfl := Except.ok.inj hsub
  rw [hcompare, hcompare']
  rfl

/-- The trial residual is taken over in any order. -/
theorem commit_relabel (h : w.Regular f) (e : Engine) :
    (w.relabel σ c).commit e = (w.commit e).map (relabel σ c) := by
  rw [h.commit, (h.relabel (σ := σ) (c := c)).commit]
  rfl

/-- The identity is the same in every order. -/
theorem reset_relabel (h : w.Regular f) (hn : f.shape.size = n) (e : Engine) :
    (w.relabel σ c).reset e = (w.reset e).map (relabel σ c) := by
  rw [h.reset, (h.relabel (σ := σ) (c := c)).reset]
  have hone : (Tensor.identity (A := S.arithmetic) f.kind f.shape.size).permute σ =
      Tensor.identity f.kind f.shape.size := by
    rw [hn]
    exact Tensor.permute_identity
  exact congrArg (fun m => Except.ok { w.relabel σ c with inverse := m }) hone.symm

/-- The correction in another order. -/
theorem correct_relabel (h : w.Regular f) (hn : f.shape.size = n) (e : Engine) :
    (w.relabel σ c).correct e = (w.correct e).map (Prod.map (relabel σ c) id) := by
  have hm : w.inverse.IsMatrix (w.inverse.matrix n) :=
    Tensor.isMatrix_matrix (hn ▸ Tensor.shape_of_frame h.inverse)
  have hd : w.direction.size = n := (Tensor.size_of_frame h.direction).trans hn
  have hy : w.change.size = n := (Tensor.size_of_frame h.change).trans hn
  obtain ⟨u, d, hfits, -, hreshape, hu, hcorrect⟩ := h.correct
  obtain ⟨u', d', -, -, hreshape', hu', hcorrect'⟩ := (h.relabel (σ := σ) (c := c)).correct
  have hcolumn : u.column.size = n := by
    rw [Tensor.size_of_frame hfits.column, ← hn]
    exact Nat.mul_one _
  have hupdate : Secant.update (w.relabel σ c).inverse (w.relabel σ c).direction.flatten
      (w.relabel σ c).change.flatten = .ok (u.relabel σ) := by
    change Secant.update (w.inverse.permute σ) (w.direction.relabel σ 0).flatten
      (w.change.relabel σ 0).flatten = _
    rw [Tensor.flatten_relabel hd, Tensor.flatten_relabel hy,
      Secant.update_permute hm (Tensor.isVector_flatten hd) (Tensor.isVector_flatten hy), hu]
    rfl
  obtain rfl := Except.ok.inj (hu'.symm.trans hupdate)
  have hreshaped : (u.relabel σ).column.reshape f.shape = _ := Tensor.reshape_relabel hcolumn
  rw [hreshape', hreshape] at hreshaped
  obtain rfl := Except.ok.inj hreshaped
  obtain ⟨_, hinverse, hcorrect⟩ := hcorrect e
  obtain ⟨_, hinverse', hcorrect'⟩ := hcorrect' e
  obtain rfl := hinverse.exact (S.addsOuter _)
  obtain rfl := hinverse'.exact (S.addsOuter _)
  have hfillable : w.fillable = true := h.fillable S.isWorking
  rw [hcorrect, hcorrect', turned_of_fillable hfillable,
    turned_of_fillable (w := w.relabel σ c) hfillable]
  rfl

/-- A move to a point in another order, measured from the shift. -/
theorem moveTo_relabel (h : w.Regular f) {point : Tensor S.arithmetic} (hp : point.frame = f)
    (e : Engine) :
    (w.relabel σ c).moveTo e (point.relabel σ c) = (w.moveTo e point).map (relabel σ c) := by
  have hp' : (point.relabel σ c).frame = f := hp
  rw [h.moveTo hp, h.relabel.moveTo hp']
  rfl

end Workspace

end QuasiNewton
