import QuasiNewton.Proofs.Broyden
import QuasiNewton.Proofs.Regular
import QuasiNewton.Solver.Workspace

/-!
# The secant update characterised

An update is called with arrays. One form replaces them by new ones, the other writes every
intermediate over an array it was given, the direction twice and the matrix last, and both use the
matrix and the direction from before. Over exact scalars both forms return the same: where the row
of the correction does not vanish at the change of the residual, the corrected matrix is the only
one that maps the change to the step and agrees with the matrix before wherever the row vanishes,
and else it is the matrix before at the change as well. Only a matrix without entries is corrected
in new arrays alone.
-/

namespace QuasiNewton

open Matrix

/-! ## Arrays -/

namespace Secant

/-- The order in which the entries of a matrix are stored. -/
inductive Order where
  | byColumns
  | byRows
  deriving DecidableEq

variable {A : Arithmetic}

/-- The arrays an update is called with. -/
structure Arrays (A : Arithmetic) where
  /-- The inverse Jacobian. -/
  inverse : Tensor A
  /-- The direction the step went against. -/
  direction : Tensor A
  /-- The change of the residual. -/
  change : Tensor A
  /-- The buffer for the product with the matrix. -/
  product : Tensor A
  /-- The buffer for the row of the correction. -/
  row : Tensor A

namespace Arrays

/-- The arrays with the outcome of an update in them; the change is not among them. -/
def filled (x : Arrays A) (u : Update A) : Arrays A :=
  { x with inverse := u.inverse, direction := u.column, product := u.product, row := u.row }

/-- A matrix after a column times a row was added to it. The sum is formed where a matrix stored by
columns is, and in a copy that is stored back if the matrix is stored by rows. -/
def addOuter (order : Order) (m column row : Tensor A) : Attempt A (Tensor A) := do
  let sum ← m.accumulateOuter column row
  match order with
  | .byColumns => return sum
  | .byRows => m.assign sum

/-- The arrays after an update in place, one after the other overwritten, and whether the
denominator was replaced. -/
def overwrite (order : Order) (x : Arrays A) : Attempt A (Arrays A × Bool) := do
  let x := { x with direction := ← x.direction.copyInto (← x.direction.neg) }
  let x := { x with product := ← x.product.receive x.inverse x.change }
  let x := { x with row := ← x.row.receive x.direction.conj x.inverse }
  let (denom, guarded) ← denominator x.inverse.kind x.direction x.product
  let x := { x with direction := ← x.direction.copyInto (← x.direction.sub x.product) }
  let x := { x with direction := ← x.direction.copyInto (← x.direction.div denom) }
  let x := { x with inverse := ← addOuter order x.inverse x.direction x.row }
  return (x, guarded)

/-- What a call returns, and the arrays after it. -/
def call (engine : Engine) (order : Order) (x : Arrays A) : Attempt A (Update A × Arrays A) :=
  match engine with
  | .rebuilding => do
    let u ← update x.inverse x.direction x.change
    return (u, x)
  | .inPlace => do
    let (x, guarded) ← x.overwrite order
    return (⟨x.inverse, x.direction, x.product, x.row, guarded⟩, x)

/-- Where the sum is formed makes no difference to the matrix. -/
theorem addOuter_eq (order : Order) (m column row : Tensor A) :
    addOuter order m column row = m.accumulateOuter column row := by
  unfold addOuter
  cases hsum : m.accumulateOuter column row with
  | error e => rfl
  | ok sum =>
    cases order with
    | byColumns => rfl
    | byRows => exact Tensor.assign_of_frame (Tensor.frame_of_accumulateOuter hsum)

/-- The arrays overwritten one after the other hold what the update in place computes. -/
theorem overwrite_eq (order : Order) (x : Arrays A) :
    x.overwrite order = (fun u => (x.filled u, u.guarded)) <$>
      updateInPlace x.inverse x.direction x.change (some x.product) (some x.row) := by
  simp only [overwrite, updateInPlace, addOuter_eq, map_bind, map_pure]
  cases hstep : x.direction.neg with
  | error e => rfl
  | ok step =>
    -- the direction keeps its frame, so that the negative is stored as it is
    have hstore : x.direction.copyInto step = .ok step :=
      Tensor.copyInto_of_frame (Tensor.frame_of_neg hstep)
    simp only [bind, Except.bind, hstore]
    rfl

/-- A call in place returns what the update in place computes and leaves it in the arrays. -/
theorem call_inPlace (order : Order) (x : Arrays A) :
    x.call .inPlace order = (fun u => (u, x.filled u)) <$>
      updateInPlace x.inverse x.direction x.change (some x.product) (some x.row) := by
  simp only [call, overwrite_eq, bind_map_left]
  rfl

/-- The arrays have the sizes of a square matrix and of vectors it takes. -/
structure Square (n : ℕ) (x : Arrays A) : Prop where
  inverse : x.inverse.shape = [n, n]
  direction : x.direction.shape = [n]
  change : x.change.shape = [n]
  product : x.product.shape = [n]
  row : x.row.shape = [n]

end Arrays

/-! ## Corrections where the row vanishes -/

section

variable {𝕜 : Type} [Field 𝕜] {n : ℕ} {J K : Matrix (Fin n) (Fin n) 𝕜} {w y : Fin n → 𝕜}

/-- Matrices that agree at one vector where a linear form does not vanish, and wherever it vanishes,
are equal. -/
theorem eq_of_mulVec_eq (hy : w ⬝ᵥ y ≠ 0) (h : K *ᵥ y = J *ᵥ y)
    (hkernel : ∀ v, w ⬝ᵥ v = 0 → K *ᵥ v = J *ᵥ v) : K = J := by
  refine mulVec_injective (funext fun v => ?_)
  -- every vector is a multiple of the one vector and a vector where the form vanishes
  have hzero : w ⬝ᵥ (v - (w ⬝ᵥ v / w ⬝ᵥ y) • y) = 0 := by
    rw [dotProduct_sub, dotProduct_smul, smul_eq_mul, div_mul_cancel₀ _ hy, sub_self]
  have hrest := hkernel _ hzero
  rwa [mulVec_sub, mulVec_sub, mulVec_smul, mulVec_smul, h, sub_left_inj] at hrest

variable [StarRing 𝕜] {s v : Fin n → 𝕜} {δ : 𝕜}

/-- Where the row of the correction vanishes, the matrix is as before. -/
theorem corrected_mulVec_of_row (h : (star s ᵥ* J) ⬝ᵥ v = 0) :
    corrected J s y δ *ᵥ v = J *ᵥ v := by
  rw [corrected, add_mulVec, vecMulVec_mulVec, h, MulOpposite.op_zero, zero_smul, add_zero]

end

/-! ## Calls over exact scalars -/

variable {𝕜 ρ : Type} [Field 𝕜] [StarRing 𝕜] [DecidableEq 𝕜] [Field ρ] [LinearOrder ρ]
  [FloorRing ρ] {S : Scalars 𝕜 ρ} {n : ℕ}

/-- What an update of a matrix along a direction by a change of the residual returns, in terms of
the matrix before the update. -/
structure Update.Characterised (J : Matrix (Fin n) (Fin n) 𝕜) (d y : Fin n → 𝕜)
    (u : Update S.arithmetic) : Prop where
  product : u.product.IsVector (J *ᵥ y)
  row : u.row.IsVector (star (-d) ᵥ* J)
  column : u.column.IsVector
    ((if u.guarded then S.ofReal (1 / 100000) else (star (-d) ᵥ* J) ⬝ᵥ y)⁻¹ • (-d - J *ᵥ y))
  shape : u.inverse.shape = [n, n]
  /-- The denominator is replaced where the row vanishes at the change. -/
  guarded_iff : u.guarded = true ↔ (star (-d) ᵥ* J) ⬝ᵥ y = 0
  /-- The matrix is as before wherever the row vanishes. -/
  kept : ∀ v, (star (-d) ᵥ* J) ⬝ᵥ v = 0 → u.inverse.matrix n *ᵥ v = J *ᵥ v
  /-- With the denominator of the method it is the one such matrix that maps the change to the
  step. -/
  unique : u.guarded = false → ∀ K, K = u.inverse.matrix n ↔
    K *ᵥ y = -d ∧ ∀ v, (star (-d) ᵥ* J) ⬝ᵥ v = 0 → K *ᵥ v = J *ᵥ v
  /-- With a replaced denominator it maps the change as before. -/
  unmoved : u.guarded = true → u.inverse.matrix n *ᵥ y = J *ᵥ y

/-- Broyden's correction is characterised by what it does to vectors. -/
theorem Update.Corrects.characterised {J : Matrix (Fin n) (Fin n) 𝕜} {d y : Fin n → 𝕜} {δ : 𝕜}
    {u : Update S.arithmetic} (h : u.Corrects S J (-d) y δ) : u.Characterised J d y := by
  have hkept : ∀ v, (star (-d) ᵥ* J) ⬝ᵥ v = 0 → u.inverse.matrix n *ᵥ v = J *ᵥ v := by
    intro v hv
    rw [h.inverse.matrix, corrected_mulVec_of_row hv]
  have hdenominator : (u.guarded = true ↔ (star (-d) ᵥ* J) ⬝ᵥ y = 0) ∧
      δ = if u.guarded then S.ofReal (1 / 100000) else (star (-d) ᵥ* J) ⬝ᵥ y := by
    rw [← dotProduct_mulVec]
    cases hg : u.guarded with
    | false =>
      obtain ⟨hδ, hne⟩ := h.divides.unguarded hg
      exact ⟨⟨nofun, fun hzero => absurd hzero hne⟩, hδ⟩
    | true =>
      obtain ⟨hδ, hzero⟩ := h.divides.guarded hg
      exact ⟨⟨fun _ => hzero, fun _ => rfl⟩, hδ⟩
  exact
    { product := h.product
      row := h.row
      column := hdenominator.2 ▸ h.column
      shape := h.inverse.shape
      guarded_iff := hdenominator.1
      kept := hkept
      unique := by
        intro hg K
        obtain ⟨rfl, hne⟩ := h.divides.unguarded hg
        have hsecant : u.inverse.matrix n *ᵥ y = -d := by
          rw [h.inverse.matrix, corrected_mulVec hne]
        constructor
        · rintro rfl
          exact ⟨hsecant, hkept⟩
        · rintro ⟨hK, hKkept⟩
          rw [dotProduct_mulVec] at hne
          exact eq_of_mulVec_eq hne (hK.trans hsecant.symm) fun v hv =>
            (hKkept v hv).trans (hkept v hv).symm
      unmoved := fun hg => hkept y (hdenominator.1.mp hg) }

/-- Arrays of fitting sizes are overwritten with what the update in new arrays computes, unless the
matrix has no entries. -/
theorem Arrays.Square.updateInPlace_eq {x : Arrays S.arithmetic} (hx : x.Square n)
    {u : Update S.arithmetic} (hu : update x.inverse x.direction x.change = .ok u) :
    updateInPlace x.inverse x.direction x.change (some x.product) (some x.row) =
      if n = 0 then .error .unsuitableValue else .ok u := by
  let f : Frame S.arithmetic := ⟨(), [n]⟩
  have hworking : S.arithmetic.IsWorking f.kind := rfl
  have hsize : f.shape.size = n := Nat.mul_one n
  have hvector (t : Tensor S.arithmetic) (ht : t.shape = [n]) : t.frame = f.vector :=
    Tensor.frame_eq rfl (ht.trans (congrArg (fun k => [k]) hsize.symm))
  have hmatrix : x.inverse.frame = f.matrix :=
    Tensor.frame_eq rfl (hx.inverse.trans (congrArg (fun k => [k, k]) hsize.symm))
  split
  case isTrue hn =>
    obtain ⟨column, product, row, guarded, -, -, -, -, hplace⟩ :=
      update_eq_of_frame hworking hmatrix (hvector _ hx.direction) (hvector _ hx.change)
        (hvector _ hx.product) (hvector _ hx.row)
    have hempty : x.inverse.size = 0 := by
      rw [Tensor.size, hx.inverse, hn]
      rfl
    rw [hplace, Tensor.accumulateOuter, if_neg fun h => h.1 hempty]
    rfl
  case isFalse hn =>
    obtain ⟨u', left, -, hleft, hu', hplace⟩ := update_of_frame hworking (hsize.trans_ne hn) hmatrix
      (hvector _ hx.direction) (hvector _ hx.change) (hvector _ hx.product) (hvector _ hx.row)
    obtain rfl : u = u' := Except.ok.inj (hu.symm.trans hu')
    rw [hplace, hleft.exact (S.addsOuter _)]

/-- A call over exact scalars with arrays of fitting sizes: in new arrays it returns, whatever the
size, and leaves the arrays it was given as they are; in place it returns the same and leaves that
in the arrays, in whichever order the matrix is stored. Only a matrix without entries is refused in
place. -/
theorem update_characterised {x : Arrays S.arithmetic} (hx : x.Square n) :
    ∃ u : Update S.arithmetic,
      u.Characterised (x.inverse.matrix n) (x.direction.vector n) (x.change.vector n) ∧
      update x.inverse x.direction x.change = .ok u ∧
      (n ≠ 0 → updateInPlace x.inverse x.direction x.change (some x.product) (some x.row) =
        .ok u) ∧
      ∀ order, x.call .rebuilding order = .ok (u, x) ∧
        x.call .inPlace order =
          if n = 0 then .error .unsuitableValue else .ok (u, x.filled u) := by
  obtain ⟨u, δ, hu, hcorrects⟩ := exists_update (Tensor.isMatrix_matrix hx.inverse)
    ⟨hx.direction, rfl⟩ ⟨hx.change, rfl⟩
  have hplace := hx.updateInPlace_eq hu
  refine ⟨u, hcorrects.characterised, hu, fun hn => hplace.trans (if_neg hn), fun order =>
    ⟨?_, ?_⟩⟩
  · rw [Arrays.call, hu]
    rfl
  · rw [Arrays.call_inPlace, hplace]
    split <;> rfl

/-! ## Runs -/

namespace Arrays

/-- Rational arrays with given entries, and buffers of zeros. -/
def ofEntries (n : ℕ) (m d y : ℕ → ℚ) : Arrays Scalars.rational.arithmetic where
  inverse := Tensor.ofFn () [n, n] m
  direction := Tensor.ofFn () [n] d
  change := Tensor.ofFn () [n] y
  product := Tensor.full () [n] (0 : ℚ)
  row := Tensor.full () [n] (0 : ℚ)

/-- Arrays that are made of entries fit together. -/
theorem square_ofEntries (n : ℕ) (m d y : ℕ → ℚ) : (ofEntries n m d y).Square n :=
  ⟨rfl, rfl, rfl, rfl, rfl⟩

/-- A singular matrix with a direction its row does not vanish at. -/
def singular : Arrays Scalars.rational.arithmetic :=
  ofEntries 2 (fun i => (i % 2 : ℕ) + 1) (fun i => i + 1) fun i => i

/-- Its determinant is zero. -/
theorem det_singular : (singular.inverse.matrix 2).det = 0 := by
  rw [Matrix.det_fin_two]
  decide +kernel

/-- No entries at all. -/
def empty : Arrays Scalars.rational.arithmetic := ofEntries 0 0 0 0

end Arrays

/-- The update of a singular matrix is characterised in all four forms. -/
theorem update_characterised_singular :
    (Arrays.singular.inverse.matrix 2).det = 0 ∧ Arrays.singular.Square 2 ∧
      ∃ u : Update Scalars.rational.arithmetic,
      u.Characterised (Arrays.singular.inverse.matrix 2) (Arrays.singular.direction.vector 2)
        (Arrays.singular.change.vector 2) ∧
      ∀ order, Arrays.singular.call .rebuilding order = .ok (u, Arrays.singular) ∧
        Arrays.singular.call .inPlace order = .ok (u, Arrays.singular.filled u) := by
  have hsquare : Arrays.singular.Square 2 := Arrays.square_ofEntries 2 _ _ _
  obtain ⟨u, hu, -, -, hcall⟩ := update_characterised hsquare
  exact ⟨Arrays.det_singular, hsquare, u, hu, hcall⟩

/-- Without entries the one form returns and the other does not. -/
theorem call_empty :
    Arrays.empty.Square 0 ∧
      (∃ u, Arrays.empty.call .rebuilding .byColumns = .ok (u, Arrays.empty)) ∧
      ¬ ∃ u x, Arrays.empty.call .inPlace .byColumns = .ok (u, x) := by
  refine ⟨Arrays.square_ofEntries 0 _ _ _, ⟨_, rfl⟩, ?_⟩
  rintro ⟨u, x, h⟩
  cases h

end Secant

end QuasiNewton
