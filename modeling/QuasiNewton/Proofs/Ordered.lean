import QuasiNewton.Proofs.Regular
import QuasiNewton.Solver.Start

/-!
# Arrays in order

Arrays that are overwritten keep their frames, so that regular ones stay regular whatever is done to
them and whatever a residual function writes; of arrays that are replaced nothing is asked. In such
order both forms of every move put one result in the place of one array, but that a direction may
not take what is written to it.
-/

namespace QuasiNewton

variable {A : Arithmetic} {P : Type}

/-! ## Residuals -/

/-- What a function writes takes the frame of the array it is handed. -/
theorem Tensor.frame_overwrite (a x : Tensor A) : (a.overwrite x).frame = a.frame := by
  unfold overwrite
  split
  case isTrue hshape => exact frame_eq (kind_castTo _ _) ((shape_castTo _ _).trans hshape)
  case isFalse => rfl

/-- So does what a function that writes answers. -/
theorem Residual.frame_evaluate {R : Residual A P} (hR : R.writes = true) {n : Nat}
    {a u v : Tensor A} {p : P} (h : (R.evaluate n a u p).1 = .ok v) : v.frame = a.frame := by
  cases R with
  | returning f => cases hR
  | writing f =>
    change (f (n + 1) a u p).map a.overwrite = .ok v at h
    cases hf : f (n + 1) a u p with
    | error e =>
      rw [hf] at h
      cases h
    | ok x =>
      rw [hf] at h
      obtain rfl := Except.ok.inj h
      exact a.frame_overwrite x

/-- Arrays are overwritten by functions that write only. -/
theorem Setup.writes_of_inPlace {setup : Setup A P} (h : setup.engine = .inPlace) :
    setup.residual.writes = true := by
  unfold engine at h
  split at h
  case isTrue hwrites => exact hwrites
  case isFalse => cases h

/-- Arrays are replaced by functions that return only. -/
theorem Setup.writes_of_rebuilding {setup : Setup A P} (h : setup.engine = .rebuilding) :
    setup.residual.writes = false := by
  unfold engine at h
  split at h
  case isTrue => cases h
  case isFalse hreturns => exact Bool.eq_false_iff.mpr hreturns

namespace Workspace

/-- Arrays that are overwritten are regular. -/
def Ordered (e : Engine) (w : Workspace A) : Prop := e = .inPlace → ∃ f, w.Regular f

/-! ## Moves to a point -/

variable {e : Engine} {w w' : Workspace A}

/-- A move to a point lands in the kind of the iterate, and in its shape if arrays are overwritten
or else in the shape of the point. It lands on the point itself if that has the same frame. -/
structure Landing (e : Engine) (w : Workspace A) (point u : Tensor A) : Prop where
  kind : u.kind = w.iterate.kind
  frame : e = .inPlace → u.frame = w.iterate.frame
  shape : e = .rebuilding → u.shape = point.shape
  exact : point.kind = w.iterate.kind → (e = .inPlace → point.shape = w.iterate.shape) → u = point

/-- A point of the shape of the iterate is reached in the frame of the iterate. -/
theorem Landing.frame_eq {point u : Tensor A} (h : Landing e w point u)
    (hpoint : point.shape = w.iterate.shape) : u.frame = w.iterate.frame := by
  cases e with
  | inPlace => exact h.frame rfl
  | rebuilding => exact Tensor.frame_eq h.kind ((h.shape rfl).trans hpoint)

/-- A move lands on a point, if the arrays of iterate and previous iterate are of one frame. -/
theorem of_moveTo {point : Tensor A} (h : w.moveTo e point = .ok w')
    (hprevious : e = .inPlace → w.previous.frame = w.iterate.frame) :
    ∃ u, Landing e w point u ∧ w' = { w with iterate := u, previous := u } := by
  cases e with
  | inPlace =>
    obtain ⟨u, hu, h⟩ := Attempt.bind_eq_ok.mp h
    have hframe : u.frame = w.iterate.frame := Tensor.frame_of_copyInto hu
    rw [Tensor.copyInto_of_frame (hframe.trans (hprevious rfl).symm)] at h
    refine ⟨u, ⟨Tensor.kind_congr hframe, fun _ => hframe, (nomatch ·), fun hkind hshape => ?_⟩,
      (Attempt.pure_eq_ok.mp h).symm⟩
    rw [Tensor.copyInto_of_frame (Tensor.frame_eq hkind (hshape rfl))] at hu
    exact (Except.ok.inj hu).symm
  | rebuilding =>
    refine ⟨_, ⟨Tensor.kind_castTo _ _, (nomatch ·), fun _ => Tensor.shape_castTo _ _,
      fun hkind _ => ?_⟩, (Except.ok.inj h).symm⟩
    rw [← hkind, Tensor.castTo_self]

namespace Ordered

/-- In order both forms of a uniform move come to the same. -/
theorem move_eq (h : w.Ordered e) {move : Engine → Workspace A → Attempt A (Workspace A)}
    (hmove : Uniform move) : move e w = move .rebuilding w := by
  cases e with
  | inPlace =>
    obtain ⟨f, hf⟩ := h rfl
    obtain ⟨w', hsame, -⟩ := hmove f w hf
    rw [hsame, hsame]
  | rebuilding => rfl

/-- A uniform move leaves arrays in order. -/
theorem move (h : w.Ordered e) {move : Engine → Workspace A → Attempt A (Workspace A)}
    (hmove : Uniform move) (hw : move e w = .ok w') : w'.Ordered e := by
  intro he
  obtain ⟨f, hf⟩ := h he
  exact ⟨f, (hmove.regular hf hw).1⟩

/-! ## What moves do -/

/-- If every kind is a working kind, a direction in order becomes what is written to it. -/
theorem turned_eq (h : w.Ordered e) (hA : ∀ k, A.IsWorking k) (d : Tensor A) :
    w.turned e d = d := by
  cases e with
  | inPlace =>
    obtain ⟨f, hf⟩ := h rfl
    exact turned_of_fillable (hf.fillable hA) _ d
  | rebuilding => rfl

/-- In order a direction becomes what is written to it, or arrays are regular and it stays. -/
theorem turned_eq_or (h : w.Ordered e) (d : Tensor A) :
    w.turned e d = d ∨ ∃ f, w.Regular f ∧ w.turned e d = w.direction := by
  cases e with
  | inPlace =>
    obtain ⟨f, hf⟩ := h rfl
    exact (w.turned_eq_or .inPlace d).imp_right fun heq => ⟨f, hf, heq⟩
  | rebuilding => exact .inl rfl

/-- Whatever is written to the direction, it keeps the shape of the iterate. -/
theorem shape_turned (h : w.Ordered e) {d : Tensor A} (hd : d.shape = w.iterate.shape) :
    (w.turned e d).shape = w.iterate.shape := by
  rcases h.turned_eq_or d with heq | ⟨f, hf, heq⟩
  · rw [heq, hd]
  · rw [heq, Tensor.shape_of_frame hf.direction, Tensor.shape_of_frame hf.iterate]

/-- A row that can be computed for the direction is written to it. -/
theorem aim_eq_ok (h : w.Ordered e) {v d : Tensor A}
    (hv : w.inverse.matMul w.residual.flatten = .ok v)
    (hd : v.reshape w.iterate.shape = .ok d) :
    w.aim e = .ok { w with direction := w.turned e d } := by
  cases e with
  | inPlace =>
    obtain ⟨f, hf⟩ := h rfl
    obtain ⟨v', d', hv', hd', -, haim⟩ := hf.aim
    obtain rfl := Except.ok.inj (hv'.symm.trans hv)
    rw [← Tensor.shape_of_frame hf.iterate, hd] at hd'
    obtain rfl := Except.ok.inj hd'
    exact haim .inPlace
  | rebuilding =>
    simp only [Workspace.aim, filled, hv, hd, bind, Except.bind, pure, Except.pure]
    rfl

/-- The search direction is the product of the inverse Jacobian and the residual, if it takes it. -/
theorem of_aim (h : w.Ordered e) (hw : w.aim e = .ok w') :
    ∃ v d, w.inverse.matMul w.residual.flatten = .ok v ∧ v.reshape w.iterate.shape = .ok d ∧
      w' = { w with direction := w.turned e d } := by
  cases e with
  | inPlace =>
    obtain ⟨f, hf⟩ := h rfl
    obtain ⟨v, d, hv, hd, -, haim⟩ := hf.aim
    rw [Tensor.shape_of_frame hf.iterate]
    exact ⟨v, d, hv, hd, (Except.ok.inj ((haim _).symm.trans hw)).symm⟩
  | rebuilding =>
    obtain ⟨v, hv, hw⟩ := Attempt.bind_eq_ok.mp hw
    obtain ⟨d, hd, hw⟩ := Attempt.bind_eq_ok.mp hw
    exact ⟨v, d, hv, hd, (Attempt.pure_eq_ok.mp hw).symm⟩

/-- A step goes to the difference of the iterate and a multiple of the direction. -/
theorem of_advance (h : w.Ordered e) {length : A.Real} (hw : w.advance e length = .ok w') :
    ∃ u, w.iterate.sub (w.direction.scale length) = .ok u ∧
      w' = { w with previous := w.iterate, iterate := u } := by
  rw [h.move_eq (uniform_advance length)] at hw
  obtain ⟨u, hu, hw⟩ := Attempt.bind_eq_ok.mp hw
  exact ⟨u, hu, (Attempt.pure_eq_ok.mp hw).symm⟩

/-- The change is the difference of the two residuals. -/
theorem of_compare (h : w.Ordered e) (hw : w.compare e = .ok w') :
    ∃ y, w.trial.sub w.residual = .ok y ∧ w' = { w with change := y } := by
  rw [h.move_eq uniform_compare] at hw
  obtain ⟨y, hy, hw⟩ := Attempt.bind_eq_ok.mp hw
  exact ⟨y, hy, (Attempt.pure_eq_ok.mp hw).symm⟩

/-- The trial residual is taken over as it is. -/
theorem commit (h : w.Ordered e) : w.commit e = .ok { w with residual := w.trial } :=
  h.move_eq uniform_commit

/-- A reset starts from the identity again. -/
theorem reset (h : w.Ordered e) :
    w.reset e = .ok { w with inverse := Secant.initial w.iterate w.residual } :=
  h.move_eq uniform_reset

/-- An update that can be computed corrects the inverse Jacobian. -/
theorem exists_correct (h : w.Ordered e) {u : Secant.Update A} {d : Tensor A}
    (hu : Secant.update w.inverse w.direction.flatten w.change.flatten = .ok u)
    (hd : u.column.reshape w.iterate.shape = .ok d) : ∃ x, w.correct e = .ok x := by
  cases e with
  | inPlace =>
    obtain ⟨f, hf⟩ := h rfl
    obtain ⟨u', d', -, -, -, -, hcorrect⟩ := hf.correct
    obtain ⟨inverse, -, hcorrect⟩ := hcorrect .inPlace
    exact ⟨_, hcorrect⟩
  | rebuilding =>
    simp only [Workspace.correct, secant, filled, hu, hd, bind, Except.bind, pure, Except.pure]
    exact ⟨_, rfl⟩

/-- A correction is the secant update, but for what a rank-one update in place leaves of the sum. -/
theorem of_correct (h : w.Ordered e) {x : Workspace A × Bool} (hw : w.correct e = .ok x) :
    ∃ u inverse d, Secant.update w.inverse w.direction.flatten w.change.flatten = .ok u ∧
      u.inverse.Accumulates inverse ∧ u.column.reshape w.iterate.shape = .ok d ∧
      x = ({ w with
        inverse, direction := w.turned e d, row := u.row, product := u.product }, u.guarded) := by
  cases e with
  | inPlace =>
    obtain ⟨f, hf⟩ := h rfl
    obtain ⟨u, d, -, -, hd, hu, hcorrect⟩ := hf.correct
    obtain ⟨inverse, hinverse, hcorrect⟩ := hcorrect .inPlace
    rw [Tensor.shape_of_frame hf.iterate]
    exact ⟨u, inverse, d, hu, hinverse, hd, (Except.ok.inj (hcorrect.symm.trans hw)).symm⟩
  | rebuilding =>
    obtain ⟨u, hu, hw⟩ := Attempt.bind_eq_ok.mp hw
    obtain ⟨d, hd, hw⟩ := Attempt.bind_eq_ok.mp hw
    exact ⟨u, u.inverse, d, hu, .refl _, hd, (Attempt.pure_eq_ok.mp hw).symm⟩

/-- A move lands on a point. -/
theorem of_moveTo (h : w.Ordered e) {point : Tensor A} (hw : w.moveTo e point = .ok w') :
    ∃ u, Landing e w point u ∧ w' = { w with iterate := u, previous := u } := by
  refine Workspace.of_moveTo hw fun he => ?_
  obtain ⟨f, hf⟩ := h he
  exact hf.previous.trans hf.iterate.symm

/-! ## Order is kept -/

/-- A search direction leaves arrays in order. -/
theorem aim (h : w.Ordered e) (hw : w.aim e = .ok w') : w'.Ordered e := by
  intro he
  obtain ⟨f, hf⟩ := h he
  exact ⟨f, (hf.of_aim hw).1⟩

/-- So does a correction. -/
theorem correct (h : w.Ordered e) {x : Workspace A × Bool} (hw : w.correct e = .ok x) :
    x.1.Ordered e := by
  intro he
  obtain ⟨f, hf⟩ := h he
  exact ⟨f, (hf.of_correct hw).1⟩

/-- So does a move to a point. -/
theorem moveTo (h : w.Ordered e) {point : Tensor A} (hw : w.moveTo e point = .ok w') :
    w'.Ordered e := by
  intro he
  obtain ⟨f, hf⟩ := h he
  obtain ⟨u, hu, rfl⟩ := h.of_moveTo hw
  have huf : u.frame = f := (hu.frame he).trans hf.iterate
  exact ⟨f, { hf with iterate := huf, previous := huf }⟩

/-- So does a reset in place. -/
theorem identity (h : w.Ordered e) {m : Tensor A} (hm : w.inverse.resetToIdentity = .ok m) :
    ({ w with inverse := m } : Workspace A).Ordered e := by
  intro he
  obtain ⟨f, hf⟩ := h he
  rw [Tensor.resetToIdentity_of_frame hf.inverse] at hm
  obtain rfl := Except.ok.inj hm
  exact ⟨f, { hf with inverse := Tensor.frame_identity _ _ }⟩

variable {setup : Setup A P} {n : Nat} {p : P} {u v : Tensor A}

/-- So does an evaluation at the point just reached. -/
theorem trial (h : w.Ordered setup.engine)
    (hv : (setup.residual.evaluate n w.trial u p).1 = .ok v) :
    ({ w with trial := v } : Workspace A).Ordered setup.engine := by
  intro he
  obtain ⟨f, hf⟩ := h he
  have hframe := Residual.frame_evaluate (Setup.writes_of_inPlace he) hv
  exact ⟨f, { hf with trial := hframe.trans hf.trial }⟩

/-- So does an evaluation at the iterate. -/
theorem residual (h : w.Ordered setup.engine)
    (hv : (setup.residual.evaluate n w.residual u p).1 = .ok v) :
    ({ w with residual := v } : Workspace A).Ordered setup.engine := by
  intro he
  obtain ⟨f, hf⟩ := h he
  have hframe := Residual.frame_evaluate (Setup.writes_of_inPlace he) hv
  exact ⟨f, { hf with residual := hframe.trans hf.residual }⟩

end Ordered

end Workspace

/-! ## Starting points -/

namespace Origin

variable {origin : Origin A} {R R' : Residual A P}

/-- A point of a working kind is copied row by row. -/
theorem isRowwise_of_isWorking (h : A.IsWorking origin.point.kind) : origin.isRowwise = true := by
  have hkind : (origin.point.kind == A.working origin.point.kind) = true := beq_iff_eq.mpr h.symm
  rw [isRowwise, hkind, Bool.true_or, Bool.true_or]

/-- A direction that is stored row by row takes a row, whatever is done to it. -/
theorem fillable_of_isRowwise (h : origin.isRowwise = true) (R : Residual A P) :
    origin.fillable R = true := by
  rw [fillable, h, Bool.or_true]

/-- A direction that is replaced takes a row, however it is stored. -/
theorem fillable_of_returns (h : R.writes = false) (origin : Origin A) :
    origin.fillable R = true := by
  rw [fillable, h, Bool.not_false, Bool.true_or]

/-- Directions take rows alike under functions of one form, and all take them that are stored row by
row. -/
theorem fillable_congr (h : R.writes = R'.writes ∨ origin.isRowwise = true) :
    origin.fillable R = origin.fillable R' := by
  rcases h with h | h
  · rw [fillable, fillable, h]
  · rw [fillable_of_isRowwise h, fillable_of_isRowwise h]

/-- What makes a starting point ready: a first iterate in a working kind, the residual there, and
both brought to the kind that joins theirs. -/
theorem ready_eq_ok {p : P} {n : Nat} {ready : Ready A} (h : (origin.ready R p n).1 = .ok ready) :
    ∃ u v, origin.point.size ≠ 0 ∧ u = origin.point.castTo (A.working origin.point.kind) ∧
      (R.evaluate n u.zerosLike u p).1 = .ok v ∧ v.shape = u.shape ∧
      ready = ⟨u.castTo (A.join u.kind v.kind), v.castTo (A.join u.kind v.kind),
        origin.shares && u.kind == A.join u.kind v.kind, origin.fillable R⟩ := by
  unfold Origin.ready at h
  split at h
  case isTrue => cases h
  case isFalse hsize =>
    dsimp only at h
    generalize hu : origin.point.castTo (A.working origin.point.kind) = u at h
    cases hv : (R.evaluate n u.zerosLike u p).1 with
    | error e =>
      rw [hv] at h
      cases h
    | ok v =>
      rw [hv] at h
      simp only [Except.bind, Ready.join] at h
      split at h
      case isTrue hshape =>
        obtain rfl := Except.ok.inj h
        exact ⟨u, v, hsize, rfl, hv, hshape, rfl⟩
      case isFalse => cases h

/-- If every kind is a working kind, every direction takes a row. -/
theorem fillable_of_ready {p : P} {n : Nat} {ready : Ready A}
    (h : (origin.ready R p n).1 = .ok ready) (hA : ∀ k, A.IsWorking k) : ready.fillable = true := by
  obtain ⟨u, v, -, -, -, -, rfl⟩ := ready_eq_ok h
  exact fillable_of_isRowwise (isRowwise_of_isWorking (hA _)) R

end Origin

/-- New arrays are in order. -/
theorem Workspace.ordered_allocate {setup : Setup A P} {origin : Origin A} {p : P} {n : Nat}
    {ready : Ready A} (h : (origin.ready setup.residual p n).1 = .ok ready) :
    (allocate ready.fillable ready.iterate ready.residual).Ordered setup.engine := by
  intro he
  have hfillable := Origin.fillable_of_ready h
  obtain ⟨u, v, hsize, hu, hv, hshape, rfl⟩ := Origin.ready_eq_ok h
  have hframe : v.frame = u.frame :=
    Residual.frame_evaluate (a := u.zerosLike) (Setup.writes_of_inPlace he) hv
  have hkind : A.join u.kind v.kind = u.kind := by rw [Tensor.kind_congr hframe, A.join_self]
  have hiterate : (u.castTo (A.join u.kind v.kind)).frame = u.frame := by
    rw [hkind, Tensor.castTo_self]
  have hresidual : (v.castTo (A.join u.kind v.kind)).frame = u.frame := by
    rw [hkind, ← Tensor.kind_congr hframe, Tensor.castTo_self, hframe]
  refine ⟨u.frame, regular_allocate ?_ ?_ hiterate hresidual hfillable⟩
  · rw [hu, Tensor.frame_castTo]
    exact .working _
  · rw [hu, Tensor.frame_castTo]
    exact hsize

end QuasiNewton
