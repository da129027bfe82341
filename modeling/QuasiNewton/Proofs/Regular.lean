import QuasiNewton.Proofs.Scratch

/-!
# Regular workspaces

In a regular workspace all arrays are of one working kind and of the shapes that belong to the
iterate. No move of a step fails there, and it does the same whether arrays are overwritten or
replaced. Two moves need more for that: the search direction has to take the row that is written to
it, and a correction compares only where rank-one updates add outer products.
-/

namespace QuasiNewton

variable {A : Arithmetic}

/-! ## Updates of matrices -/

namespace Tensor

variable {m x y : Tensor A} {f : Frame A}

/-- A square matrix is reset to the identity of its kind and size. -/
theorem resetToIdentity_of_frame (h : m.frame = f.matrix) :
    m.resetToIdentity = .ok (identity f.kind f.shape.size) := by
  obtain ⟨kind, shape, data, size⟩ := m
  obtain rfl : kind = f.kind := kind_of_frame h
  obtain rfl : shape = f.matrix.shape := shape_of_frame h
  rfl

/-- An identity is a square matrix of its kind. -/
theorem frame_identity (k : A.Kind) (n : Nat) : (identity k n).frame = ⟨k, [n, n]⟩ := rfl

/-- What a rank-one update in place leaves of a matrix, beside the sum of the matrix and the outer
product: it has the frame of the sum, and is the sum where rank-one updates add outer products. -/
structure Accumulates (sum left : Tensor A) : Prop where
  frame : left.frame = sum.frame
  exact : A.AddsOuter sum.kind → left = sum

/-- The sum itself is such a matrix. -/
theorem Accumulates.refl (sum : Tensor A) : sum.Accumulates sum := ⟨rfl, fun _ => rfl⟩

/-- Within one kind a column times a row may be added to a matrix that is not empty. -/
theorem accumulateOuter_of_frame (hn : f.shape.size ≠ 0) (hm : m.frame = f.matrix)
    (hx : x.frame = f.vector) (hy : y.frame = f.vector) :
    m.accumulateOuter x y = m.assign (ofFn (A.update f.kind) f.matrix.shape
      (A.rankOne (A.update f.kind) f.shape.size f.shape.size (m.castTo (A.update f.kind)).elem
        (x.castTo (A.update f.kind)).elem
        ((if A.storable (A.update f.kind) f.kind then y else y.conj).castTo
          (A.update f.kind)).elem)) := by
  have hmk : m.kind = f.kind := kind_of_frame (f := f.matrix) hm
  have hkind : A.join f.kind (A.join x.kind y.kind) = f.kind := by
    rw [kind_of_frame hx, kind_of_frame hy, Frame.kind_vector, A.join_self, A.join_self]
  have hfit : m.size ≠ 0 ∧ m.shape.withoutOnes = Shape.withoutOnes [x.size, y.size] := by
    rw [size_of_frame hm, size_of_vector hx, size_of_vector hy, shape_of_frame hm]
    refine ⟨?_, rfl⟩
    simpa [Shape.size] using Nat.mul_ne_zero hn hn
  rw [accumulateOuter, if_pos hfit]
  simp only [hmk, hkind, size_of_vector hx, size_of_vector hy, shape_of_frame hm]

/-- Where rank-one updates add outer products, the two ways to update a matrix agree. -/
theorem accumulateOuter_eq_add (hA : A.AddsOuter f.kind) (hn : f.shape.size ≠ 0)
    (hm : m.frame = f.matrix) (hx : x.frame = f.vector) (hy : y.frame = f.vector) :
    m.accumulateOuter x y = m.add (x.outer y) := by
  have hcm : m.castTo f.kind = m := castTo_of_frame (f := f.matrix) hm
  have hcx : x.castTo f.kind = x := castTo_of_frame (f := f.vector) hx
  have hcy : y.castTo f.kind = y := castTo_of_frame (f := f.vector) hy
  have hkind : A.join x.kind y.kind = f.kind := by
    rw [kind_of_frame hx, kind_of_frame hy, Frame.kind_vector, A.join_self]
  have hstore (g : Nat → A.Elem) : m.assign (ofFn f.kind f.matrix.shape g) =
      .ok (ofFn f.kind f.matrix.shape g) := assign_of_frame (Eq.symm hm)
  rw [accumulateOuter_of_frame hn hm hx hy, hA.update, A.storable_self, if_pos rfl, hcm, hcx, hcy,
    hstore]
  refine Eq.trans ?_ (combine_eq_of_frame A.add hm (outer_of_frame hx hy)).symm
  refine congrArg Except.ok (ofFn_congr fun i hi => ?_)
  replace hi : i < f.shape.size * f.shape.size := by simpa [Shape.size] using hi
  have houter : (x.outer y).elem i =
      A.times f.kind (x.elem (i / f.shape.size)) (y.elem (i % f.shape.size)) := by
    simp only [outer, hkind, hcx, hcy, size_of_vector hx, size_of_vector hy]
    exact elem_ofFn _ _ _ (by simpa [Shape.size] using hi)
  rw [hA.rankOne _ _ _ _ _ i hi, houter]
  rfl

/-- Within one working kind a matrix takes a rank-one update, with what that leaves of the sum. -/
theorem exists_accumulateOuter (hn : f.shape.size ≠ 0) (hm : m.frame = f.matrix)
    (hx : x.frame = f.vector) (hy : y.frame = f.vector) :
    ∃ sum left, sum.frame = f.matrix ∧ m.add (x.outer y) = .ok sum ∧
      m.accumulateOuter x y = .ok left ∧ sum.Accumulates left := by
  obtain ⟨sum, hsum, hsumf⟩ := add_of_frame hm (outer_of_frame hx hy)
  obtain ⟨left, hleft⟩ : ∃ left, m.accumulateOuter x y = .ok left := by
    rw [accumulateOuter_of_frame hn hm hx hy, assign, broadcastTo, if_pos]
    · exact ⟨_, rfl⟩
    · exact (shape_of_frame hm).symm
  have hframe : left.frame = sum.frame :=
    (frame_of_accumulateOuter hleft).trans (hm.trans hsumf.symm)
  refine ⟨sum, left, hsumf, hsum, hleft, hframe, fun hA => ?_⟩
  replace hA : A.AddsOuter f.kind := by rwa [kind_of_frame hsumf] at hA
  rw [accumulateOuter_eq_add hA hn hm hx hy, hsum] at hleft
  exact (Except.ok.inj hleft).symm

end Tensor

namespace Secant

open Tensor

variable {m d y p r : Tensor A} {f : Frame A}

/-- The denominator is a single number of the kind of the matrix. -/
theorem denominator_of_frame {s : Tensor A} (hs : s.frame = f.vector) (hp : p.frame = f.vector) :
    ∃ c g, denominator f.kind s p = .ok (c, g) ∧ c.frame = ⟨f.kind, []⟩ := by
  obtain ⟨c, hc, hcf⟩ := inner_of_frame hs hp
  simp only [denominator, hc, bind, Except.bind, pure, Except.pure]
  split
  · exact ⟨_, _, rfl, rfl⟩
  · exact ⟨_, _, rfl, hcf⟩

/-- The outcome of an update has the frames of what it replaces. -/
structure Update.Fits (f : Frame A) (u : Update A) : Prop where
  inverse : u.inverse.frame = f.matrix
  column : u.column.frame = f.vector
  product : u.product.frame = f.vector
  row : u.row.frame = f.vector

/-- Within one working kind both forms of the update compute the same column and row, which the one
adds to the matrix as an outer product and the other hands to the routine for rank-one updates. -/
theorem update_eq_of_frame (hf : A.IsWorking f.kind) (hm : m.frame = f.matrix)
    (hd : d.frame = f.vector) (hy : y.frame = f.vector) (hp : p.frame = f.vector)
    (hr : r.frame = f.vector) :
    ∃ column product row guarded, column.frame = f.vector ∧ product.frame = f.vector ∧
      row.frame = f.vector ∧
      update m d y = (m.add (column.outer row)).map (⟨·, column, product, row, guarded⟩) ∧
      updateInPlace m d y (some p) (some r) =
        (m.accumulateOuter column row).map (⟨·, column, product, row, guarded⟩) := by
  obtain ⟨s, hs, hsf⟩ := neg_of_frame (f := f.vector) hf hd
  obtain ⟨product, hproduct, hproductf⟩ := matMul_of_frame hm hy
  have hconj : s.conj.frame = f.vector := (frame_conj s).trans hsf
  obtain ⟨row, hrow, hrowf⟩ := matMul_of_frame' hconj hm
  obtain ⟨denom, guarded, hdenom, hdenomf⟩ := denominator_of_frame hsf hproductf
  obtain ⟨gap, hgap, hgapf⟩ := sub_of_frame (f := f.vector) hf hsf hproductf
  obtain ⟨column, hcolumn, hcolumnf⟩ := div_of_frame hf hgapf hdenomf
  have hkm : m.kind = f.kind := kind_of_frame (f := f.matrix) hm
  have hpr : p.receive m y = .ok product := by
    refine receive_of_frame (hproductf.trans hp.symm) hproduct ?_ ?_
    · rw [hkm, kind_of_frame hy, kind_of_frame hp, Frame.kind_vector, A.join_self]
    · rw [shape_of_frame hm, shape_of_frame hy, shape_of_frame hp]
      rfl
  have hrr : r.receive s.conj m = .ok row := by
    refine receive_of_frame (hrowf.trans hr.symm) hrow ?_ ?_
    · rw [hkm, kind_of_frame hconj, kind_of_frame hr, Frame.kind_vector, A.join_self]
    · rw [shape_of_frame hconj, shape_of_frame hm, shape_of_frame hr]
      rfl
  refine ⟨column, product, row, guarded, hcolumnf, hproductf, hrowf, ?_, ?_⟩
  · simp only [update, hs, hproduct, hrow, hkm, hdenom, hgap, hcolumn, bind, Except.bind]
    cases m.add (column.outer row) <;> rfl
  · simp only [updateInPlace, hs, hpr, hrr, hkm, hdenom, hgap, copyInto_of_frame
      (hgapf.trans hsf.symm), hcolumn, copyInto_of_frame (hcolumnf.trans hgapf.symm), bind,
      Except.bind]
    cases m.accumulateOuter column row <;> rfl

/-- Within one working kind both forms of the update compute the same, but for what a rank-one
update in place leaves of the sum. -/
theorem update_of_frame (hf : A.IsWorking f.kind) (hn : f.shape.size ≠ 0) (hm : m.frame = f.matrix)
    (hd : d.frame = f.vector) (hy : y.frame = f.vector) (hp : p.frame = f.vector)
    (hr : r.frame = f.vector) :
    ∃ u left, u.Fits f ∧ u.inverse.Accumulates left ∧ update m d y = .ok u ∧
      updateInPlace m d y (some p) (some r) = .ok { u with inverse := left } := by
  obtain ⟨column, product, row, guarded, hcolumn, hproduct, hrow, hupdate, hplace⟩ :=
    update_eq_of_frame hf hm hd hy hp hr
  obtain ⟨sum, left, hsum, hadd, hacc, hleft⟩ := exists_accumulateOuter hn hm hcolumn hrow
  rw [hadd] at hupdate
  rw [hacc] at hplace
  exact ⟨⟨sum, column, product, row, guarded⟩, left, ⟨hsum, hcolumn, hproduct, hrow⟩, hleft,
    hupdate, hplace⟩

end Secant

namespace Workspace

/-- The direction that an array is written to: it becomes the array, unless it is overwritten and
takes no row. -/
def turned (e : Engine) (w : Workspace A) (direction : Tensor A) : Tensor A :=
  match e with
  | .inPlace => if w.fillable then direction else w.direction
  | .rebuilding => direction

/-- A direction that takes a row becomes what is written to it. -/
theorem turned_of_fillable {w : Workspace A} (h : w.fillable = true) (e : Engine) (d : Tensor A) :
    w.turned e d = d := by
  cases e with
  | inPlace => exact if_pos h
  | rebuilding => rfl

/-- What is written to a direction is there afterwards, or nothing has changed. -/
theorem turned_eq_or (e : Engine) (w : Workspace A) (d : Tensor A) :
    w.turned e d = d ∨ w.turned e d = w.direction := by
  cases e with
  | inPlace =>
    cases hf : w.fillable with
    | true => exact .inl (if_pos hf)
    | false => exact .inr (if_neg (Bool.eq_false_iff.mp hf))
  | rebuilding => exact .inl rfl

/-- All arrays are of one working kind and of the shapes that belong to the iterate, which is not
empty. If every kind is a working kind, no point is converted, and the direction takes a row. -/
structure Regular (f : Frame A) (w : Workspace A) : Prop where
  working : A.IsWorking f.kind
  nonempty : f.shape.size ≠ 0
  iterate : w.iterate.frame = f
  previous : w.previous.frame = f
  direction : w.direction.frame = f
  residual : w.residual.frame = f
  trial : w.trial.frame = f
  change : w.change.frame = f
  inverse : w.inverse.frame = f.matrix
  row : w.row.frame = f.vector
  product : w.product.frame = f.vector
  fillable : (∀ k, A.IsWorking k) → w.fillable = true

/-- The arrays of a new solve are regular. -/
theorem regular_allocate {f : Frame A} {b : Bool} {iterate residual : Tensor A}
    (hf : A.IsWorking f.kind) (hn : f.shape.size ≠ 0) (hi : iterate.frame = f)
    (hr : residual.frame = f) (hb : (∀ k, A.IsWorking k) → b = true) :
    (allocate b iterate residual).Regular f := by
  have hkind : A.join iterate.kind residual.kind = f.kind := by
    rw [Tensor.kind_of_frame hi, Tensor.kind_of_frame hr, A.join_self]
  have hsize : iterate.size = f.shape.size := Tensor.size_of_frame hi
  have hinverse : (Secant.initial iterate residual).frame = f.matrix := by
    rw [Secant.initial, hkind, hsize]
    rfl
  have hvector : (Tensor.full (Secant.initial iterate residual).kind [iterate.size]
      (A.zeroOf (Secant.initial iterate residual).kind)).frame = f.vector := by
    rw [hsize, Tensor.kind_of_frame hinverse]
    rfl
  exact
    { working := hf
      nonempty := hn
      iterate := hi
      previous := hi
      direction := hi
      residual := hr
      trial := hr
      change := hr
      inverse := hinverse
      row := hvector
      product := hvector
      fillable := hb }

/-- What is alike a regular workspace is regular. -/
theorem Alike.regular {f : Frame A} {known : List Scratch} {w w' : Workspace A}
    (h : Alike known w w') (hr : w.Regular f) : w'.Regular f where
  working := hr.working
  nonempty := hr.nonempty
  iterate := h.iterate ▸ hr.iterate
  previous := h.previous ▸ hr.previous
  direction := (h.frames .direction).symm.trans hr.direction
  residual := h.residual ▸ hr.residual
  trial := (h.frames .trial).symm.trans hr.trial
  change := (h.frames .change).symm.trans hr.change
  inverse := h.inverse ▸ hr.inverse
  row := (h.frames .row).symm.trans hr.row
  product := (h.frames .product).symm.trans hr.product
  fillable := fun hA => h.fillable ▸ hr.fillable hA

namespace Regular

variable {f : Frame A} {w : Workspace A}

/-- Regular workspaces in one frame whose directions take rows differ in scratch arrays only if they
show the same. -/
theorem alike {w' : Workspace A} (h : w.Regular f) (h' : w'.Regular f)
    (hiterate : w.iterate = w'.iterate) (hprevious : w.previous = w'.previous)
    (hresidual : w.residual = w'.residual) (hinverse : w.inverse = w'.inverse)
    (hfillable : w.fillable = true) (hfillable' : w'.fillable = true) : w.Alike [] w' where
  iterate := hiterate
  previous := hprevious
  residual := hresidual
  inverse := hinverse
  fillable := hfillable.trans hfillable'.symm
  direction := fun hf => absurd (hfillable.symm.trans hf) Bool.false_ne_true.symm
  frames := fun a =>
    match a with
    | .direction => h.direction.trans h'.direction.symm
    | .trial => h.trial.trans h'.trial.symm
    | .change => h.change.trans h'.change.symm
    | .row => h.row.trans h'.row.symm
    | .product => h.product.trans h'.product.symm
  scratch := fun a ha => by cases ha

/-- Whatever is written to the direction leaves it in its frame. -/
theorem frame_turned (h : w.Regular f) {d : Tensor A} (hd : d.frame = f) (e : Engine) :
    (w.turned e d).frame = f := by
  rcases w.turned_eq_or e d with heq | heq
  · rw [heq, hd]
  · rw [heq, h.direction]

/-- A row is written to the direction in the shape of the iterate. -/
theorem filled (h : w.Regular f) {row : Tensor A} (hrow : row.frame = f.vector) :
    ∃ d, d.frame = f ∧ row.reshape f.shape = .ok d ∧ ∀ e, w.filled e row = .ok (w.turned e d) := by
  obtain ⟨d, hd, hdf⟩ := Tensor.reshape_of_vector hrow
  refine ⟨d, hdf, hd, fun e => ?_⟩
  cases e with
  | inPlace =>
    rw [Workspace.filled, turned, Tensor.shape_of_frame h.direction, hd]
    cases w.fillable <;> rfl
  | rebuilding => rw [Workspace.filled, turned, Tensor.shape_of_frame h.iterate, hd]

/-- The search direction is the product of the inverse Jacobian and the residual, if it takes it. -/
theorem aim (h : w.Regular f) :
    ∃ v d, w.inverse.matMul w.residual.flatten = .ok v ∧ v.reshape f.shape = .ok d ∧ d.frame = f ∧
      ∀ e, w.aim e = .ok { w with direction := w.turned e d } := by
  have hflat : w.residual.flatten.frame = f.vector := congrArg Frame.vector h.residual
  have hbuffer : w.direction.flatten.frame = f.vector := congrArg Frame.vector h.direction
  obtain ⟨v, hv, hvf⟩ := Tensor.matMul_of_frame h.inverse hflat
  obtain ⟨d, hdf, hd, hfilled⟩ := h.filled hvf
  refine ⟨v, d, hv, hd, hdf, fun e => ?_⟩
  cases e with
  | inPlace =>
    have hreceive : w.direction.flatten.receive w.inverse w.residual.flatten = .ok v := by
      refine Tensor.receive_of_frame (hvf.trans hbuffer.symm) hv ?_ ?_
      · rw [Tensor.kind_of_frame h.inverse, Tensor.kind_of_frame hflat,
          Tensor.kind_of_frame hbuffer, Frame.kind_matrix, Frame.kind_vector, A.join_self]
      · rw [Tensor.shape_of_frame h.inverse, Tensor.shape_of_frame hflat,
          Tensor.shape_of_frame hbuffer]
        rfl
    simp only [Workspace.aim, hreceive, hfilled, bind, Except.bind, pure, Except.pure]
  | rebuilding => simp only [Workspace.aim, hv, hfilled, bind, Except.bind, pure, Except.pure]

/-- A search direction leaves a workspace regular, and its direction as fillable as it was. -/
theorem of_aim (h : w.Regular f) {e : Engine} {w' : Workspace A} (hw : w.aim e = .ok w') :
    w'.Regular f ∧ w'.fillable = w.fillable := by
  obtain ⟨v, d, -, -, hd, haim⟩ := h.aim
  obtain rfl := Except.ok.inj ((haim e).symm.trans hw)
  exact ⟨{ h with direction := h.frame_turned hd e }, rfl⟩

/-- If the direction takes the row, both forms find the same one. -/
theorem aim_eq (h : w.Regular f) (hfillable : w.fillable = true) (e e' : Engine) :
    w.aim e = w.aim e' := by
  obtain ⟨v, d, -, -, -, haim⟩ := h.aim
  rw [haim, haim, turned_of_fillable hfillable, turned_of_fillable hfillable]

/-- A step along the direction is the same in both forms. -/
theorem advance (h : w.Regular f) (length : A.Real) :
    ∃ u, u.frame = f ∧ w.iterate.sub (w.direction.scale length) = .ok u ∧
      ∀ e, w.advance e length = .ok { w with previous := w.iterate, iterate := u } := by
  obtain ⟨u, hu, huf⟩ :=
    Tensor.sub_of_frame h.working h.iterate (Tensor.frame_scale h.working h.direction length)
  have hprevious : w.previous.copyInto w.iterate = .ok w.iterate :=
    Tensor.copyInto_of_frame (h.iterate.trans h.previous.symm)
  have hiterate : w.iterate.copyInto u = .ok u :=
    Tensor.copyInto_of_frame (huf.trans h.iterate.symm)
  refine ⟨u, huf, hu, fun e => ?_⟩
  cases e <;>
    simp only [Workspace.advance, hu, hprevious, hiterate, bind, Except.bind, pure, Except.pure]

/-- So is the change of the residual. -/
theorem compare (h : w.Regular f) :
    ∃ y, y.frame = f ∧ w.trial.sub w.residual = .ok y ∧
      ∀ e, w.compare e = .ok { w with change := y } := by
  obtain ⟨y, hy, hyf⟩ := Tensor.sub_of_frame h.working h.trial h.residual
  have hchange : w.change.copyInto y = .ok y :=
    Tensor.copyInto_of_frame (hyf.trans h.change.symm)
  refine ⟨y, hyf, hy, fun e => ?_⟩
  cases e <;> simp only [Workspace.compare, hy, hchange, bind, Except.bind, pure, Except.pure]

/-- The trial residual is taken over as it is. -/
theorem commit (h : w.Regular f) (e : Engine) :
    w.commit e = .ok { w with residual := w.trial } := by
  have hresidual : w.residual.copyInto w.trial = .ok w.trial :=
    Tensor.copyInto_of_frame (h.trial.trans h.residual.symm)
  cases e <;> simp only [Workspace.commit, hresidual, bind, Except.bind, pure, Except.pure]

/-- The identity that a new solve would start with. -/
theorem initial_eq (h : w.Regular f) :
    Secant.initial w.iterate w.residual = Tensor.identity f.kind f.shape.size := by
  rw [Secant.initial, Tensor.kind_of_frame h.iterate, Tensor.kind_of_frame h.residual, A.join_self,
    Tensor.size_of_frame h.iterate]

/-- A reset makes the inverse Jacobian the identity. -/
theorem reset (h : w.Regular f) (e : Engine) :
    w.reset e = .ok { w with inverse := Tensor.identity f.kind f.shape.size } := by
  cases e <;> simp only [Workspace.reset, Tensor.resetToIdentity_of_frame h.inverse, h.initial_eq,
    bind, Except.bind, pure, Except.pure]

/-- A correction is the secant update, but for what a rank-one update in place leaves of the sum.
Its column is written to the direction. -/
theorem correct (h : w.Regular f) :
    ∃ u d, u.Fits f ∧ d.frame = f ∧ u.column.reshape f.shape = .ok d ∧
      Secant.update w.inverse w.direction.flatten w.change.flatten = .ok u ∧
      ∀ e, ∃ inverse, u.inverse.Accumulates inverse ∧ w.correct e = .ok ({ w with
        inverse, direction := w.turned e d, row := u.row, product := u.product }, u.guarded) := by
  have hdirection : w.direction.flatten.frame = f.vector := congrArg Frame.vector h.direction
  have hchange : w.change.flatten.frame = f.vector := congrArg Frame.vector h.change
  obtain ⟨u, left, hfits, hleft, hu, hu'⟩ := Secant.update_of_frame h.working h.nonempty h.inverse
    hdirection hchange h.product h.row
  obtain ⟨d, hdf, hd, hfilled⟩ := h.filled hfits.column
  refine ⟨u, d, hfits, hdf, hd, hu, fun e => ?_⟩
  cases e with
  | inPlace =>
    refine ⟨left, hleft, ?_⟩
    simp only [Workspace.correct, secant, hu', hfilled, bind, Except.bind, pure, Except.pure]
  | rebuilding =>
    refine ⟨u.inverse, .refl _, ?_⟩
    simp only [Workspace.correct, secant, hu, hfilled, bind, Except.bind, pure, Except.pure]

/-- So does a correction. -/
theorem of_correct (h : w.Regular f) {e : Engine} {x : Workspace A × Bool}
    (hx : w.correct e = .ok x) : x.1.Regular f ∧ x.1.fillable = w.fillable := by
  obtain ⟨u, d, hfits, hd, -, -, hcorrect⟩ := h.correct
  obtain ⟨inverse, hinverse, hcorrect⟩ := hcorrect e
  obtain rfl := Except.ok.inj (hcorrect.symm.trans hx)
  have hmatrix : inverse.frame = f.matrix := hinverse.frame.trans hfits.inverse
  exact ⟨{ h with
    inverse := hmatrix
    direction := h.frame_turned hd e
    row := hfits.row
    product := hfits.product }, rfl⟩

/-- Both forms correct alike if the direction takes the column and rank-one updates add outer
products. -/
theorem correct_eq (h : w.Regular f) (hfillable : w.fillable = true) (hA : A.AddsOuter f.kind)
    (e e' : Engine) : w.correct e = w.correct e' := by
  obtain ⟨u, d, hfits, -, -, -, hcorrect⟩ := h.correct
  have hkind : A.AddsOuter u.inverse.kind := by rwa [Tensor.kind_of_frame hfits.inverse]
  obtain ⟨inverse, hinverse, he⟩ := hcorrect e
  obtain ⟨inverse', hinverse', he'⟩ := hcorrect e'
  rw [he, he', hinverse.exact hkind, hinverse'.exact hkind, turned_of_fillable hfillable,
    turned_of_fillable hfillable]

/-- A move to a point of the same frame makes it the iterate and the previous one. -/
theorem moveTo (h : w.Regular f) {point : Tensor A} (hp : point.frame = f) (e : Engine) :
    w.moveTo e point = .ok { w with iterate := point, previous := point } := by
  have hiterate : w.iterate.copyInto point = .ok point :=
    Tensor.copyInto_of_frame (hp.trans h.iterate.symm)
  have hprevious : w.previous.copyInto point = .ok point :=
    Tensor.copyInto_of_frame (hp.trans h.previous.symm)
  have hcast : point.castTo w.iterate.kind = point := by
    rw [Tensor.kind_of_frame h.iterate, Tensor.castTo_of_frame hp]
  cases e <;>
    simp only [Workspace.moveTo, hiterate, hprevious, hcast, bind, Except.bind, pure, Except.pure]

/-- A move to a point of the same shape goes to the point in the kind of the arrays. -/
theorem of_moveTo (h : w.Regular f) {point : Tensor A} (hp : point.shape = f.shape) {e : Engine}
    {w' : Workspace A} (hw : w.moveTo e point = .ok w') :
    ∃ u, u.frame = f ∧ (point.frame = f → u = point) ∧
      w' = { w with iterate := u, previous := u } := by
  cases e with
  | inPlace =>
    obtain ⟨u, hu, hw⟩ := Attempt.bind_eq_ok.mp hw
    have huf : u.frame = f := (Tensor.frame_of_copyInto hu).trans h.iterate
    have hprevious : w.previous.copyInto u = .ok u :=
      Tensor.copyInto_of_frame (huf.trans h.previous.symm)
    rw [hprevious] at hw
    refine ⟨u, huf, fun hpoint => ?_, (Attempt.pure_eq_ok.mp hw).symm⟩
    rw [Tensor.copyInto_of_frame (hpoint.trans h.iterate.symm)] at hu
    exact (Except.ok.inj hu).symm
  | rebuilding =>
    have hcast : point.castTo w.iterate.kind = point.castTo f.kind := by
      rw [Tensor.kind_of_frame h.iterate]
    refine ⟨point.castTo f.kind, ?_, fun hpoint => Tensor.castTo_of_frame hpoint, ?_⟩
    · rw [Tensor.frame_castTo, hp]
    · rw [← hcast]
      exact (Except.ok.inj hw).symm

/-- So does a move to a point of the same shape. -/
theorem moveTo_regular (h : w.Regular f) {point : Tensor A} (hp : point.shape = f.shape)
    {e : Engine} {w' : Workspace A} (hw : w.moveTo e point = .ok w') :
    w'.Regular f ∧ w'.fillable = w.fillable := by
  obtain ⟨u, hu, -, rfl⟩ := h.of_moveTo hp hw
  exact ⟨{ h with iterate := hu, previous := hu }, rfl⟩

end Regular

/-- A move that from regular workspaces leads to regular ones, the same in both forms, with
directions as fillable as before. -/
def Uniform (move : Engine → Workspace A → Attempt A (Workspace A)) : Prop :=
  ∀ f w, w.Regular f → ∃ w', (∀ e, move e w = .ok w') ∧ w'.Regular f ∧ w'.fillable = w.fillable

/-- Where such a move leads to it leads in both forms. -/
theorem Uniform.regular {move : Engine → Workspace A → Attempt A (Workspace A)}
    (hmove : Uniform move) {e : Engine} {f : Frame A} {w w' : Workspace A} (h : w.Regular f)
    (hw : move e w = .ok w') : w'.Regular f ∧ w'.fillable = w.fillable := by
  obtain ⟨w'', hsame, hregular⟩ := hmove f w h
  obtain rfl := Except.ok.inj ((hsame e).symm.trans hw)
  exact hregular

/-- If every kind is a working kind, both forms find the same direction. -/
theorem uniform_aim (hA : ∀ k, A.IsWorking k) : Uniform (A := A) aim := by
  intro f w h
  obtain ⟨v, d, -, -, hd, haim⟩ := h.aim
  have hturned (e : Engine) : w.turned e d = d := turned_of_fillable (h.fillable hA) e d
  exact ⟨{ w with direction := d }, fun e => (haim e).trans (by rw [hturned]),
    { h with direction := hd }, rfl⟩

/-- Both forms go a length alike. -/
theorem uniform_advance (length : A.Real) : Uniform (A := A) fun e => advance e length := by
  intro f w h
  obtain ⟨u, hu, -, hadvance⟩ := h.advance length
  exact ⟨_, hadvance, { h with iterate := hu, previous := h.iterate }, rfl⟩

/-- Both forms compute the change of the residual alike. -/
theorem uniform_compare : Uniform (A := A) compare := by
  intro f w h
  obtain ⟨y, hy, -, hcompare⟩ := h.compare
  exact ⟨_, hcompare, { h with change := hy }, rfl⟩

/-- Both forms take over the trial residual alike. -/
theorem uniform_commit : Uniform (A := A) commit := by
  intro f w h
  exact ⟨_, h.commit, { h with residual := h.trial }, rfl⟩

/-- Both forms reset the inverse Jacobian alike. -/
theorem uniform_reset : Uniform (A := A) reset := by
  intro f w h
  exact ⟨_, h.reset, { h with inverse := Tensor.frame_identity f.kind f.shape.size }, rfl⟩

end Workspace

end QuasiNewton
