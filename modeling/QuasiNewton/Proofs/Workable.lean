import QuasiNewton.Proofs.Consistency
import QuasiNewton.Proofs.Kinds

/-!
# Steps that answer

Arrays are workable if their shapes belong together and their elements have negatives. From workable
arrays a step answers, whatever values the residual function returns in arrays of the shape of the
iterate, if the norm and the line search answer and the numbers in effect are in range. The arrays
are workable again after it, and after every restart that answers.
-/

namespace QuasiNewton

open QuasiNewton.Action

variable {A : Arithmetic} {P : Type}

/-- What is joined with a kind that has negatives has negatives. -/
def Arithmetic.JoinsSigned (A : Arithmetic) : Prop :=
  ∀ k l, A.signed k = true → A.signed (A.join k l) = true

/-- Only truth values have no negatives, and they are joined to whatever is joined with them. -/
theorem Machine.joinsSigned : Machine.arithmetic.JoinsSigned := by
  intro (k : Kind) (l : Kind) hk
  have hk : k ≠ .truth := of_decide_eq_true (p := k ≠ .truth) hk
  have hjoin : k.join l ≠ .truth := by
    cases k with
    | truth => exact absurd rfl hk
    | _ => cases l <;> exact nofun
  exact decide_eq_true (p := k.join l ≠ .truth) hjoin

/-! ## Operations that answer -/

namespace Tensor

variable {a b c t : Tensor A}

/-- A tensor that is reshaped has the new shape. -/
theorem shape_of_reshape {shape : Shape} (h : t.reshape shape = .ok c) : c.shape = shape := by
  unfold reshape at h
  split at h
  · obtain rfl := Except.ok.inj h
    rfl
  · cases h

/-- A tensor is reshaped to every shape of its size. -/
theorem exists_reshape {shape : Shape} (h : t.size = shape.size) : ∃ c, t.reshape shape = .ok c :=
  ⟨_, dif_pos h⟩

/-- Tensors of one shape are subtracted if the first has negatives. -/
theorem exists_difference (hA : A.JoinsSigned) (h : a.shape = b.shape)
    (ha : A.signed a.kind = true) :
    ∃ c, a.sub b = .ok c ∧ c.shape = a.shape ∧ A.signed c.kind = true := by
  have hsigned := hA a.kind b.kind ha
  obtain ⟨c, hc, hshape⟩ := exists_combine h id A.sub
  have hsub : a.sub b = .ok c := (if_pos hsigned).trans hc
  refine ⟨c, hsub, hshape, ?_⟩
  rw [kind_of_sub hsub]
  exact hsigned

/-- A quotient by a single number has the shape of the dividend. -/
theorem exists_quotient {n : Nat} (ha : a.shape = [n]) (hb : b.shape = []) :
    ∃ c, a.div b = .ok c ∧ c.shape = [n] := by
  have hs : Shape.broadcast? [n] [] = some [n] := rfl
  rw [div, combine, ha, hb, hs]
  exact ⟨_, rfl, rfl⟩

/-- A square matrix times a column that fits it is a column. -/
theorem exists_matMul_column {n : Nat} (ha : a.shape = [n, n]) (hb : b.shape = [n]) :
    ∃ c, a.matMul b = .ok c ∧ c.shape = [n] :=
  ⟨_, matMul_matrix_column ha hb, rfl⟩

/-- A row times a square matrix that it fits is a row. -/
theorem exists_matMul_matrix {n : Nat} (ha : a.shape = [n]) (hb : b.shape = [n, n]) :
    ∃ c, a.matMul b = .ok c ∧ c.shape = [n] :=
  ⟨_, matMul_row_matrix ha hb, rfl⟩

/-- A tensor with one extent has as many elements. -/
theorem size_of_shape {n : Nat} (h : t.shape = [n]) : t.size = n := by
  rw [size, h]
  exact Nat.mul_one n

end Tensor

/-- An update of fitting arrays answers if the direction and the matrix have negatives. -/
theorem Secant.exists_answer (hA : A.JoinsSigned) {m d y : Tensor A} {n : Nat}
    (hm : m.shape = [n, n]) (hd : d.shape = [n]) (hy : y.shape = [n])
    (hsigned : A.signed d.kind = true) (hsigned' : A.signed m.kind = true) :
    ∃ u, update m d y = .ok u ∧ u.inverse.shape = [n, n] ∧ u.column.shape = [n] ∧
      A.signed u.inverse.kind = true := by
  let step := Tensor.ofFn d.kind d.shape fun i => A.neg d.kind (d.elem i)
  have hneg : d.neg = .ok step := if_pos hsigned
  have hstep : step.shape = [n] := hd
  obtain ⟨product, hproduct, hpshape⟩ := Tensor.exists_matMul_column hm hy
  obtain ⟨row, hrow, hrshape⟩ := Tensor.exists_matMul_matrix (a := step.conj) hstep hm
  have hinner : ∃ raw, step.inner product = .ok raw ∧ raw.shape = [] :=
    ⟨_, if_pos ((Tensor.size_of_shape hstep).trans (Tensor.size_of_shape hpshape).symm), rfl⟩
  have hdenominator : ∃ denom guarded, denominator m.kind step product = .ok (denom, guarded) ∧
      denom.shape = [] := by
    obtain ⟨raw, hraw, hshape⟩ := hinner
    rw [denominator, hraw]
    by_cases hzero : A.isZero raw.kind (raw.elem 0) = true
    · exact ⟨_, true, if_pos hzero, rfl⟩
    · exact ⟨raw, false, if_neg hzero, hshape⟩
  obtain ⟨denom, guarded, hdenom, hdshape⟩ := hdenominator
  obtain ⟨gap, hgap, hgshape, -⟩ :=
    Tensor.exists_difference hA (hstep.trans hpshape.symm) hsigned
  obtain ⟨column, hcolumn, hcshape⟩ := Tensor.exists_quotient (hgshape.trans hstep) hdshape
  have houter : m.shape = (column.outer row).shape := by
    change _ = [column.size, row.size]
    rw [hm, Tensor.size_of_shape hcshape, Tensor.size_of_shape hrshape]
  obtain ⟨inverse, hinverse, hishape⟩ := Tensor.exists_add houter
  refine ⟨⟨inverse, column, product, row, guarded⟩, ?_, hishape.trans hm, hcshape, ?_⟩
  · simp only [update, hneg, hproduct, hrow, hdenom, hgap, hcolumn, hinverse, bind, Except.bind,
      pure, Except.pure]
  · rw [Tensor.kind_of_add hinverse]
    exact hA _ _ hsigned'

/-! ## Residual functions that answer -/

namespace Residual

/-- The function answers with an array of the shape of the iterate, whose elements have negatives if
those of the iterate have; of what is written nothing more is asked. -/
def Answers : Residual A P → Prop
  | .returning f => ∀ n u p, ∃ v, f n u p = .ok v ∧ v.shape = u.shape ∧
      (A.signed u.kind = true → A.signed v.kind = true)
  | .writing f => ∀ n a u p, ∃ v, f n a u p = .ok v

/-- The function answers so at iterates that can take the place of a tensor: iterates of its shape,
and if the function writes, of its kind in arrays of its kind. -/
def AnswersLike (t : Tensor A) : Residual A P → Prop
  | .returning f => ∀ n u p, u.shape = t.shape → ∃ v, f n u p = .ok v ∧ v.shape = u.shape ∧
      (A.signed u.kind = true → A.signed v.kind = true)
  | .writing f => ∀ n a u p, a.frame = t.frame → u.frame = t.frame → ∃ v, f n a u p = .ok v

variable {R : Residual A P} {n : Nat} {a t u v : Tensor A} {p : P}

/-- A residual function that answers everywhere does so at points of one shape. -/
theorem Answers.like (hR : R.Answers) (t : Tensor A) : R.AnswersLike t := by
  cases R with
  | returning f => exact fun n u p _ => hR n u p
  | writing f => exact fun n a u p _ _ => hR n a u p

namespace AnswersLike

/-- Only the shape counts of the tensor whose place is taken, and if the function writes, the kind.
-/
theorem congr (hR : R.AnswersLike t) (hshape : u.shape = t.shape)
    (hframe : R.writes = true → u.frame = t.frame) : R.AnswersLike u := by
  cases R with
  | returning f => exact fun n v p hv => hR n v p (hv.trans hshape)
  | writing f =>
    exact fun n a v p ha hv => hR n a v p (ha.trans (hframe rfl)) (hv.trans (hframe rfl))

/-- At a point that is like the iterate a residual is evaluated, into an array of its frame. -/
theorem exists_evaluate (hR : R.AnswersLike u) (ha : R.writes = true → a.frame = u.frame) (n : Nat)
    (p : P) : ∃ v, (R.evaluate n a u p).1 = .ok v := by
  cases R with
  | returning f =>
    obtain ⟨v, hv, -⟩ := hR (n + 1) u p rfl
    exact ⟨v, hv⟩
  | writing f =>
    obtain ⟨v, hv⟩ := hR (n + 1) a u p (ha rfl) rfl
    exact ⟨a.overwrite v, congrArg (Except.map a.overwrite) hv⟩

/-- The answer has the shape of the iterate and negatives, if an array that is written has its
frame. -/
theorem of_evaluate (hR : R.AnswersLike u) (hu : A.signed u.kind = true)
    (ha : R.writes = true → a.frame = u.frame) (h : (R.evaluate n a u p).1 = .ok v) :
    v.shape = u.shape ∧ A.signed v.kind = true := by
  cases hw : R.writes with
  | true =>
    have hframe := (frame_evaluate hw h).trans (ha hw)
    exact ⟨Tensor.shape_congr hframe, (Tensor.kind_congr hframe).symm ▸ hu⟩
  | false =>
    cases R with
    | writing f => cases hw
    | returning f =>
      obtain ⟨v', hv', hshape, hsigned⟩ := hR (n + 1) u p rfl
      obtain rfl := Except.ok.inj (hv'.symm.trans h)
      exact ⟨hshape, hsigned hu⟩

end AnswersLike

end Residual

/-- Arrays are overwritten for functions that write. -/
theorem Setup.inPlace_of_writes {setup : Setup A P} (h : setup.residual.writes = true) :
    setup.engine = .inPlace :=
  if_pos h

/-! ## Workable arrays -/

namespace Workspace

/-- The arrays that the next step reads belong together: iterate and residual have one shape, which
is not empty, the inverse Jacobian belongs to it, and they have negatives. -/
structure Workable (e : Engine) (w : Workspace A) : Prop where
  ordered : w.Ordered e
  nonempty : w.iterate.size ≠ 0
  residual : w.residual.shape = w.iterate.shape
  inverse : w.inverse.shape = [w.iterate.size, w.iterate.size]
  signed : A.signed w.iterate.kind = true
  signed_inverse : A.signed w.inverse.kind = true

/-- So do the arrays that a step has filled on its way. -/
structure Underway (e : Engine) (w : Workspace A) : Prop extends Workable e w where
  direction : w.direction.shape = w.iterate.shape
  signed_direction : A.signed w.direction.kind = true
  trial : w.trial.shape = w.iterate.shape
  signed_trial : A.signed w.trial.kind = true

variable {e : Engine} {w w' : Workspace A}

namespace Workable

/-- The search direction can be computed, and fits the iterate. -/
theorem exists_direction (h : w.Workable e) (hA : A.JoinsSigned) :
    ∃ v d, w.inverse.matMul w.residual.flatten = .ok v ∧ v.reshape w.iterate.shape = .ok d ∧
      d.shape = w.iterate.shape ∧ A.signed d.kind = true := by
  have hsize : w.residual.size = w.iterate.size := congrArg Shape.size h.residual
  obtain ⟨v, hv, hshape⟩ := Tensor.exists_matMul_column h.inverse
    (w.residual.shape_flatten.trans (congrArg (fun n => [n]) hsize))
  obtain ⟨d, hd⟩ : ∃ d, v.reshape w.iterate.shape = .ok d :=
    Tensor.exists_reshape (Tensor.size_of_shape hshape)
  refine ⟨v, d, hv, hd, Tensor.shape_of_reshape hd, ?_⟩
  rw [Tensor.kind_of_reshape hd, Tensor.kind_of_matMul hv]
  exact hA _ _ h.signed_inverse

/-- Whatever is written to the direction, it fits the iterate and has a negative. -/
theorem turned (h : w.Workable e) {d : Tensor A} (hshape : d.shape = w.iterate.shape)
    (hsigned : A.signed d.kind = true) :
    (w.turned e d).shape = w.iterate.shape ∧ A.signed (w.turned e d).kind = true := by
  refine ⟨h.ordered.shape_turned hshape, ?_⟩
  rcases h.ordered.turned_eq_or d with heq | ⟨f, hf, heq⟩
  · rw [heq, hsigned]
  · rw [heq, Tensor.kind_of_frame hf.direction, ← Tensor.kind_of_frame hf.iterate, h.signed]

/-- The search direction is computed, and leaves the arrays workable. -/
theorem exists_aim (h : w.Workable e) (hA : A.JoinsSigned) :
    ∃ d, w.aim e = .ok { w with direction := d } ∧
      ({ w with direction := d } : Workspace A).Workable e ∧ d.shape = w.iterate.shape := by
  obtain ⟨v, d, hv, hd, hshape, hsigned⟩ := h.exists_direction hA
  have haim := h.ordered.aim_eq_ok hv hd
  exact ⟨_, haim, { h with ordered := h.ordered.aim haim }, (h.turned hshape hsigned).1⟩

/-- A step against a direction that fits the iterate can be taken. -/
theorem exists_point (h : w.Workable e) (hA : A.JoinsSigned) {d : Tensor A}
    (hd : d.shape = w.iterate.shape) (length : A.Real) :
    ∃ u, w.iterate.sub (d.scale length) = .ok u ∧ u.shape = w.iterate.shape ∧
      A.signed u.kind = true :=
  Tensor.exists_difference hA hd.symm h.signed

/-- The step along a direction that fits the iterate is taken. -/
theorem exists_advance (h : w.Workable e) (hA : A.JoinsSigned)
    (hd : w.direction.shape = w.iterate.shape) (length : A.Real) :
    ∃ u, w.advance e length = .ok { w with previous := w.iterate, iterate := u } ∧
      u.shape = w.iterate.shape := by
  obtain ⟨u, hu, hshape, -⟩ := h.exists_point hA hd length
  refine ⟨u, ?_, hshape⟩
  rw [h.ordered.move_eq (uniform_advance length)]
  simp only [Workspace.advance, hu, bind, Except.bind, pure, Except.pure]

/-- Arrays stay workable if they land on a point in the frame of the iterate and the residual is
evaluated there. -/
theorem land {setup : Setup A P} (h : w.Workable setup.engine)
    (hR : setup.residual.AnswersLike w.iterate) {u v : Tensor A} {n : Nat} {p : P}
    (hu : u.frame = w.iterate.frame)
    (hv : (setup.residual.evaluate n w.residual u p).1 = .ok v) :
    { w with iterate := u, previous := u, residual := v : Workspace A }.Workable setup.engine := by
  have hsize : u.size = w.iterate.size := congrArg Shape.size (Tensor.shape_congr hu)
  have hsigned : A.signed u.kind = true := Tensor.kind_congr hu ▸ h.signed
  have hordered : ({ w with iterate := u, previous := u } : Workspace A).Ordered setup.engine := by
    intro he
    obtain ⟨f, hf⟩ := h.ordered he
    exact ⟨f, { hf with iterate := hu.trans hf.iterate, previous := hu.trans hf.iterate }⟩
  obtain ⟨hshape, -⟩ := (hR.congr (Tensor.shape_congr hu) fun _ => hu).of_evaluate hsigned
    (fun hw => by
      obtain ⟨f, hf⟩ := h.ordered (Setup.inPlace_of_writes hw)
      exact hf.residual.trans (hf.iterate.symm.trans hu.symm)) hv
  exact
    { ordered := hordered.residual hv
      nonempty := fun h' => h.nonempty (hsize.symm.trans h')
      residual := hshape
      inverse := h.inverse.trans (congrArg (fun n => [n, n]) hsize.symm)
      signed := hsigned
      signed_inverse := h.signed_inverse }

end Workable

namespace Underway

/-- The change of the residual can be computed, and fits the iterate. -/
theorem exists_change (h : w.Underway e) (hA : A.JoinsSigned) :
    ∃ y, w.trial.sub w.residual = .ok y ∧ y.shape = w.iterate.shape := by
  obtain ⟨y, hy, hshape, -⟩ :=
    Tensor.exists_difference hA (h.trial.trans h.residual.symm) h.signed_trial
  exact ⟨y, hy, hshape.trans h.trial⟩

/-- The change of the residual is computed. -/
theorem exists_compare (h : w.Underway e) (hA : A.JoinsSigned) :
    ∃ w', w.compare e = .ok w' ∧ w'.Underway e ∧ w'.change.shape = w'.iterate.shape := by
  obtain ⟨y, hy, hshape⟩ := h.exists_change hA
  have hcompare : w.compare e = .ok { w with change := y } := by
    rw [h.ordered.move_eq uniform_compare]
    simp only [Workspace.compare, hy, bind, Except.bind, pure, Except.pure]
  exact ⟨_, hcompare, { h with ordered := h.ordered.move uniform_compare hcompare }, hshape⟩

/-- Arrays on their way stay so when the trial residual is taken over. -/
theorem commit (h : w.Underway e) : ({ w with residual := w.trial } : Workspace A).Underway e :=
  { h with ordered := h.ordered.move uniform_commit h.ordered.commit, residual := h.trial }

/-- The inverse Jacobian can be corrected by a change that fits the iterate. -/
theorem exists_update (h : w.Underway e) (hA : A.JoinsSigned) {y : Tensor A}
    (hy : y.shape = w.iterate.shape) :
    ∃ u d, Secant.update w.inverse w.direction.flatten y.flatten = .ok u ∧
      u.column.reshape w.iterate.shape = .ok d ∧ u.inverse.shape = w.inverse.shape ∧
      A.signed u.inverse.kind = true := by
  have hsize (t : Tensor A) (ht : t.shape = w.iterate.shape) :
      t.flatten.shape = [w.iterate.size] := by
    rw [Tensor.shape_flatten]
    exact congrArg (fun s => [Shape.size s]) ht
  obtain ⟨u, hu, hinverse, hcolumn, hsigned⟩ := Secant.exists_answer hA h.inverse
    (hsize _ h.direction) (hsize _ hy) h.signed_direction h.signed_inverse
  obtain ⟨d, hd⟩ : ∃ d, u.column.reshape w.iterate.shape = .ok d :=
    Tensor.exists_reshape (Tensor.size_of_shape hcolumn)
  exact ⟨u, d, hu, hd, hinverse.trans h.inverse.symm, hsigned⟩

/-- The inverse Jacobian is corrected. -/
theorem exists_correct (h : w.Underway e) (hA : A.JoinsSigned)
    (hy : w.change.shape = w.iterate.shape) : ∃ x, w.correct e = .ok x := by
  obtain ⟨u, d, hu, hd, -⟩ := h.exists_update hA hy
  exact h.ordered.exists_correct hu hd

end Underway

/-- A point can be moved to whose shape is that of the iterate, and that is of its kind if arrays
are overwritten. -/
theorem Ordered.exists_moveTo (h : w.Ordered e) {point : Tensor A}
    (hpoint : e = .inPlace → point.frame = w.iterate.frame) : ∃ w', w.moveTo e point = .ok w' := by
  cases e with
  | rebuilding => exact ⟨_, rfl⟩
  | inPlace =>
    obtain ⟨f, hf⟩ := h rfl
    have hcopy := Tensor.copyInto_of_frame (hpoint rfl)
    have hcopy' := Tensor.copyInto_of_frame
      (((hpoint rfl).trans hf.iterate).trans hf.previous.symm)
    refine ⟨{ w with iterate := point, previous := point }, ?_⟩
    simp only [Workspace.moveTo, hcopy, hcopy', bind, Except.bind, pure, Except.pure]

end Workspace

/-! ## Numbers in range -/

/-- The number has a magnitude, and arrays can be compared with it and multiplied by it. -/
structure Quantity.InRange (A : Arithmetic) (q : Quantity A.Real) : Prop where
  magnitude : ∃ y, q.magnitude (M := A.toMagnitudes) = .ok y
  whole : ∀ n, q = .whole n → ∀ k, A.comparable k n = true ∧ A.multipliable k n = true

/-- The number has a magnitude, and an array of a kind can be compared with it and multiplied by it.
-/
structure Quantity.InRangeAt (A : Arithmetic) (k : A.Kind) (q : Quantity A.Real) : Prop where
  magnitude : ∃ y, q.magnitude (M := A.toMagnitudes) = .ok y
  whole : ∀ n, q = .whole n → A.comparable k n = true ∧ A.multipliable k n = true

/-- A number in range is so for every kind. -/
theorem Quantity.InRange.inRangeAt {q : Quantity A.Real} (hq : q.InRange A) (k : A.Kind) :
    q.InRangeAt A k where
  magnitude := hq.magnitude
  whole n hn := hq.whole n hn k

/-- The option is a number in range. -/
def Setting.InRange (A : Arithmetic) (x : Setting A.Real) : Prop :=
  ∃ q, x = .number q ∧ Quantity.InRange A q

/-- Both tolerances are numbers in range. -/
def Tolerances.InRange (t : Tolerances A) : Prop :=
  Setting.InRange A t.absolute ∧ Setting.InRange A t.relative

namespace Tensor

variable {a b t : Tensor A} {q : Quantity A.Real}

/-- Magnitudes are compared with a number in range of their kind. -/
theorem exists_allWithin (hq : Quantity.InRangeAt A (A.absolute t.kind) q) :
    ∃ answer, t.allWithin q = .ok answer := by
  cases q with
  | real x => exact ⟨_, rfl⟩
  | flag b => exact ⟨_, rfl⟩
  | whole n => exact ⟨_, if_pos (hq.whole n rfl).1⟩

/-- A tensor is multiplied by a number in range of its kind, and keeps its shape. -/
theorem exists_scaleBy (hq : Quantity.InRangeAt A t.kind q) :
    ∃ c, t.scaleBy q = .ok c ∧ c.shape = t.shape := by
  cases q with
  | real x => exact ⟨_, rfl, rfl⟩
  | flag b => exact ⟨_, rfl, rfl⟩
  | whole n => exact ⟨_, if_pos (hq.whole n rfl).2, rfl⟩

/-- Tensors of one shape are compared element by element. -/
theorem exists_allLe (h : a.shape = b.shape) : ∃ answer, a.allLe b = .ok answer := by
  rw [allLe, ← h, Shape.broadcast?_self]
  exact ⟨_, rfl⟩

end Tensor

/-- The criterion of a residual of the shape of the iterate can be decided if the absolute tolerance
is in range for the magnitudes of the residual and the relative one for those of the sum. -/
theorem Mode.exists_holds_of_inRangeAt {norm : Norm A}
    (hnorm : ∀ t, t.size ≠ 0 → ∃ x, norm t = .ok x) {residual iterate : Tensor A}
    {a r : Quantity A.Real} (ha : a.InRangeAt A (A.absolute residual.kind))
    (hr : r.InRangeAt A (A.absolute (A.join residual.kind iterate.kind)))
    (hshape : residual.shape = iterate.shape) (hsize : iterate.size ≠ 0) (mode : Mode) :
    ∃ answer, mode.holds norm ⟨.number a, .number r⟩ residual iterate = .ok answer := by
  obtain ⟨objective, hobjective⟩ := hnorm residual (by rwa [Tensor.size, hshape])
  obtain ⟨sum, hsum, hsumshape⟩ := Tensor.exists_add hshape
  obtain ⟨scale, hscale⟩ := hnorm sum (by rwa [Tensor.size, hsumshape, hshape])
  obtain ⟨factor, hfactor⟩ := hr.magnitude
  have hquantity (q : Quantity A.Real) : Setting.quantity (.number q) = .ok q := rfl
  have habsolute : mode = .absoluteNorm ∨ mode = .absoluteBest →
      ∃ answer, mode.holds norm ⟨.number a, .number r⟩ residual iterate = .ok answer := by
    rintro (rfl | rfl) <;>
    · simp only [holds, hobjective, hquantity, bind, Except.bind, pure, Except.pure]
      exact ⟨_, rfl⟩
  have hrelative : mode = .relativeNorm ∨ mode = .relativeBest →
      ∃ answer, mode.holds norm ⟨.number a, .number r⟩ residual iterate = .ok answer := by
    rintro (rfl | rfl) <;>
    · simp only [holds, hobjective, hsum, hscale, hquantity, hfactor, bind, Except.bind, pure,
        Except.pure]
      exact ⟨_, rfl⟩
  cases mode with
  | absolute => exact Tensor.exists_allWithin ha
  | relative =>
    have hrange : r.InRangeAt A sum.abs.kind := by
      rw [← Tensor.kind_of_add hsum] at hr
      exact hr
    obtain ⟨bound, hbound, hbshape⟩ := Tensor.exists_scaleBy hrange
    simp only [holds, hsum, Tensor.multiple, hbound, bind, Except.bind]
    exact Tensor.exists_allLe (hsumshape.symm.trans hbshape.symm)
  | absoluteNorm => exact habsolute (.inl rfl)
  | absoluteBest => exact habsolute (.inr rfl)
  | relativeNorm => exact hrelative (.inl rfl)
  | relativeBest => exact hrelative (.inr rfl)

/-- The criterion of a residual of the shape of the iterate can be decided. -/
theorem Mode.exists_holds {norm : Norm A} (hnorm : ∀ t, t.size ≠ 0 → ∃ x, norm t = .ok x)
    {tolerances : Tolerances A} (ht : tolerances.InRange) {residual iterate : Tensor A}
    (hshape : residual.shape = iterate.shape) (hsize : iterate.size ≠ 0) (mode : Mode) :
    ∃ answer, mode.holds norm tolerances residual iterate = .ok answer := by
  obtain ⟨absolute, relative⟩ := tolerances
  obtain ⟨⟨a, rfl, ha⟩, r, rfl, hr⟩ := ht
  exact exists_holds_of_inRangeAt hnorm (ha.inRangeAt _) (hr.inRangeAt _) hshape hsize mode

/-- A monitor that stops has seen a success, or a reason to fall back. -/
theorem Monitor.status_ne_of_check {norm : Norm A} {m m' : Monitor A} {residual iterate : Tensor A}
    {status : Status} (h : m.check norm residual iterate = (.ok true, m'))
    (hsuccess : status ≠ .success) (hback : status.fallsBack = false) : m'.status ≠ status := by
  rcases check_eq_ok h with ⟨-, -, rfl⟩ | ⟨-, hfalls⟩
  · exact hsuccess.symm
  · rintro rfl
    exact Bool.false_ne_true (hback.symm.trans (hfalls rfl))

/-- A monitor whose numbers are in range answers. -/
theorem Monitor.exists_check {norm : Norm A} (hnorm : ∀ t, t.size ≠ 0 → ∃ x, norm t = .ok x)
    {m : Monitor A} (ht : m.tolerances.InRange) (hthreshold : m.condition.threshold.InRange A)
    {residual iterate : Tensor A} (hshape : residual.shape = iterate.shape)
    (hsize : iterate.size ≠ 0) :
    ∃ stop, (m.check norm residual iterate).1 = .ok stop := by
  obtain ⟨passes, hpasses⟩ := m.condition.mode.exists_holds hnorm ht hshape hsize
  obtain ⟨objective, hobjective⟩ := hnorm residual (by rwa [Tensor.size, hshape])
  obtain ⟨q, hq, hin⟩ := hthreshold
  obtain ⟨factor, hfactor⟩ := hin.magnitude
  have hverdict : ∃ status, (m.observe objective iterate).verdict objective = .ok status := by
    have hquantity : Setting.quantity (.number q) = .ok q := rfl
    have hcondition : (m.observe objective iterate).condition.threshold = .number q := by
      unfold observe
      split <;> exact hq
    obtain ⟨answer, hanswer⟩ : ∃ answer,
        (m.observe objective iterate).diverges objective = .ok answer := by
      unfold diverges
      split
      · simp only [hcondition, hquantity, hfactor, bind, Except.bind, pure, Except.pure]
        exact ⟨_, rfl⟩
      · exact ⟨true, rfl⟩
    unfold verdict
    rw [hanswer]
    cases answer with
    | true => exact ⟨_, rfl⟩
    | false =>
      cases (m.observe objective iterate).isStalled with
      | true => exact ⟨_, rfl⟩
      | false => exact ⟨_, rfl⟩
  obtain ⟨status, hstatus⟩ := hverdict
  unfold check
  rw [hpasses]
  cases passes with
  | true => exact ⟨true, rfl⟩
  | false =>
    dsimp only
    split
    · rw [hobjective]
      dsimp only [watch]
      rw [hstatus]
      cases status <;> exact ⟨_, rfl⟩
    · exact ⟨false, rfl⟩

end QuasiNewton
