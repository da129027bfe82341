import QuasiNewton.Proofs.Storage

/-!
# The kind of a solve

A start brings its point and the first residual to the kind that joins theirs. Residuals that are
returned later are stored in the kind they come in, so that iterate, search direction and inverse
Jacobian are computed from arrays of two kinds, of which the first takes up the second. What is
computed so is of the first kind again, and nothing else is asked of the residual function: over
every history of steps, runs and restarts that stay in the shape of the starting point these arrays
keep their kind and their shape, whichever operations fail. Residuals and their change may be of
either kind.
-/

namespace QuasiNewton

open QuasiNewton.Action

variable {A : Arithmetic} {P : Type} {f : Frame A} {d : A.Kind}

/-! ## Kinds that take up others -/

/-- A working kind in which arrays of it are combined with arrays of another one, in either order.
-/
structure Arithmetic.TakesUp (A : Arithmetic) (c d : A.Kind) : Prop where
  working : A.IsWorking c
  right : A.join c d = c
  left : A.join d c = c

/-- Arrays of either kind are combined with those of the first one in that. -/
theorem Arithmetic.TakesUp.join_eq {c k : A.Kind} (h : A.TakesUp c d) (hk : k = c ∨ k = d) :
    A.join c k = c := by
  rcases hk with rfl | rfl
  · exact A.join_self _
  · exact h.right

/-- Arrays of the two kinds are combined in one of them. -/
theorem Arithmetic.TakesUp.join_mem {c j k : A.Kind} (h : A.TakesUp c d) (hj : j = c ∨ j = d)
    (hk : k = c ∨ k = d) : A.join j k = c ∨ A.join j k = d := by
  rcases hj with rfl | rfl
  · exact .inl (h.join_eq hk)
  · rcases hk with rfl | rfl
    · exact .inl h.left
    · exact .inr (A.join_self _)

/-- What joins a working kind and another one takes up the other one. -/
theorem Machine.takesUp {j : arithmetic.Kind} (hj : arithmetic.IsWorking j)
    (k : arithmetic.Kind) : arithmetic.TakesUp (arithmetic.join j k) k where
  working := joinsWorking j k hj
  right := join_absorbs j k
  left := (Kind.join_comm k _).trans (join_absorbs j k)

namespace Tensor

/-- An array of the shape of a frame, in its kind or in another one. -/
structure InEither (f : Frame A) (d : A.Kind) (t : Tensor A) : Prop where
  shape : t.shape = f.shape
  kind : t.kind = f.kind ∨ t.kind = d

variable {a b c m y : Tensor A}

/-- An array of the frame is of one of the two kinds. -/
theorem inEither_of_frame (h : a.frame = f) : a.InEither f d :=
  ⟨shape_of_frame h, .inl (kind_of_frame h)⟩

/-- A difference of two such arrays is one. -/
theorem InEither.sub (h : A.TakesUp f.kind d) (ha : a.InEither f d) (hb : b.InEither f d)
    (hc : a.sub b = .ok c) : c.InEither f d where
  shape := (shape_of_sub hc (ha.shape.trans hb.shape.symm)).trans ha.shape
  kind := by
    rw [kind_of_sub hc]
    exact h.join_mem ha.kind hb.kind

/-- A matrix times a column is the same when the column is brought to the kind of the matrix first,
if that takes it up. -/
theorem matMul_castTo (h : A.join m.kind y.kind = m.kind) :
    m.matMul (y.castTo m.kind) = m.matMul y := by
  have hkind : A.join m.kind (y.castTo m.kind).kind = A.join m.kind y.kind := by
    rw [kind_castTo, A.join_self, h]
  have hcast : (y.castTo m.kind).castTo m.kind = y.castTo m.kind := if_pos (kind_castTo _ _)
  simp only [matMul, matMulKeeping, shape_castTo, hkind, h, hcast]

end Tensor

/-- So a change of either kind corrects a matrix within the kind of the matrix. -/
theorem Secant.fits_of_update (h : A.TakesUp f.kind d) (hn : f.shape.size ≠ 0) {m x y : Tensor A}
    {u : Update A} (hm : m.frame = f.matrix) (hx : x.frame = f.vector) (hy : y.InEither f.vector d)
    (hu : update m x y = .ok u) : u.Fits f := by
  have hkind : m.kind = f.kind := Tensor.kind_of_frame (f := f.matrix) hm
  have hjoin : A.join m.kind y.kind = m.kind := by
    rw [hkind]
    exact h.join_eq hy.kind
  have hcast : (y.castTo m.kind).frame = f.vector := by
    rw [Tensor.frame_castTo, hkind, hy.shape]
    rfl
  -- the change goes into the product with the matrix and nowhere else
  have hsame : update m x (y.castTo m.kind) = update m x y := by
    simp only [update, Tensor.matMul_castTo hjoin]
  obtain ⟨u', left, hfits, -, hu', -⟩ := update_of_frame h.working hn hm hx hcast hx hx
  obtain rfl := Except.ok.inj (hu'.symm.trans (hsame.trans hu))
  exact hfits

/-! ## Residuals -/

namespace Residual

/-- Of which kind a residual is that is returned. -/
inductive Yield (A : Arithmetic) where
  /-- Of one kind, whatever the kind of the iterate. -/
  | always (k : A.Kind)
  /-- Of the kind of the iterate. -/
  | alike

/-- The kind of the residual at an iterate of a kind. -/
def Yield.kind : Yield A → A.Kind → A.Kind
  | .always k, _ => k
  | .alike, k => k

/-- Joining the kind of the residual to that of the iterate does not change it. -/
theorem Yield.kind_join (y : Yield A) (k : A.Kind) : y.kind (A.join k (y.kind k)) = y.kind k := by
  cases y with
  | always k' => rfl
  | alike => exact A.join_self k

/-- Residuals that are returned are of the shape of the iterate and of a kind that is known. What is
written takes the kind of the array it is written to, which is that of the iterate. -/
def Yields : Residual A P → Yield A → Prop
  | .returning f, y => ∀ n u p v, f n u p = .ok v → v.shape = u.shape ∧ v.kind = y.kind u.kind
  | .writing _, y => y = .alike

variable {R : Residual A P} {y : Yield A} {n : Nat} {a u v : Tensor A} {p : P}

/-- In an array of the kind of the iterate the residual is stored in the kind that it has there. -/
theorem Yields.kind_eq (hR : R.Yields y) (ha : a.kind = u.kind)
    (hv : (R.evaluate n a u p).1 = .ok v) : v.kind = y.kind u.kind := by
  cases R with
  | returning g => exact (hR (n + 1) u p v hv).2
  | writing g =>
    obtain rfl : y = .alike := hR
    exact (Tensor.kind_congr (frame_evaluate (R := .writing g) rfl hv)).trans ha

/-- The residual at an iterate of a frame is stored in the kind of the frame or in its own. -/
theorem Yields.inEither (hR : R.Yields y) (ha : a.InEither f (y.kind f.kind)) (hu : u.frame = f)
    (hv : (R.evaluate n a u p).1 = .ok v) : v.InEither f (y.kind f.kind) := by
  cases R with
  | returning g =>
    obtain ⟨hshape, hkind⟩ := hR (n + 1) u p v hv
    exact ⟨hshape.trans (Tensor.shape_of_frame hu),
      .inr (hkind.trans (congrArg y.kind (Tensor.kind_of_frame hu)))⟩
  | writing g =>
    have hframe := frame_evaluate (R := .writing g) rfl hv
    refine ⟨(Tensor.shape_congr hframe).trans ha.shape, ?_⟩
    rw [Tensor.kind_congr hframe]
    exact ha.kind

end Residual

/-- At iterates of a frame that is not empty, the residuals are of a kind that the kind of the frame
takes up, or stored in an array of one of the two. -/
structure Setup.Feeds (setup : Setup A P) (f : Frame A) (d : A.Kind) : Prop where
  takesUp : A.TakesUp f.kind d
  nonempty : f.shape.size ≠ 0
  residual : ∀ {n a u p v}, a.InEither f d → u.frame = f →
    (setup.residual.evaluate n a u p).1 = .ok v → v.InEither f d

/-! ## Arrays -/

namespace Workspace

/-- The arrays that are computed from others are of one kind and of the shapes that belong to one
shape; residuals and their change are of that shape and of that kind or another one. -/
structure Graded (f : Frame A) (d : A.Kind) (w : Workspace A) : Prop where
  iterate : w.iterate.frame = f
  previous : w.previous.frame = f
  direction : w.direction.frame = f
  residual : w.residual.InEither f d
  trial : w.trial.InEither f d
  change : w.change.InEither f d
  inverse : w.inverse.frame = f.matrix
  row : w.row.frame = f.vector
  product : w.product.frame = f.vector

/-- Regular arrays are all of one kind. -/
theorem Regular.graded {w : Workspace A} (h : w.Regular f) : w.Graded f d where
  iterate := h.iterate
  previous := h.previous
  direction := h.direction
  residual := Tensor.inEither_of_frame h.residual
  trial := Tensor.inEither_of_frame h.trial
  change := Tensor.inEither_of_frame h.change
  inverse := h.inverse
  row := h.row
  product := h.product

namespace Graded

variable {w : Workspace A} {v x : Tensor A}

/-- The product with the residual is of the kind of the matrix. -/
theorem aim (h : w.Graded f d) (hd : A.TakesUp f.kind d)
    (hv : w.inverse.matMul w.residual.flatten = .ok v)
    (hx : v.reshape w.iterate.shape = .ok x) : x.frame = f := by
  have hinverse : w.inverse.kind = f.kind := Tensor.kind_of_frame (f := f.matrix) h.inverse
  refine Tensor.frame_eq ?_ ((Tensor.shape_of_reshape hx).trans (Tensor.shape_of_frame h.iterate))
  rw [Tensor.kind_of_reshape hx, Tensor.kind_of_matMul hv, Tensor.kind_flatten, hinverse]
  exact hd.join_eq h.residual.kind

/-- Whatever is written to the direction leaves it in its frame. -/
theorem frame_turned (h : w.Graded f d) (hx : x.frame = f) (e : Engine) :
    (w.turned e x).frame = f := by
  rcases w.turned_eq_or e x with heq | heq
  · rw [heq, hx]
  · rw [heq, h.direction]

/-- A step goes to a point of the kind and the shape of the iterate. -/
theorem advance (h : w.Graded f d) (hd : A.TakesUp f.kind d) {length : A.Real}
    (hx : w.iterate.sub (w.direction.scale length) = .ok x) : x.frame = f := by
  obtain ⟨u, hu, huf⟩ := Tensor.sub_of_frame hd.working h.iterate
    (Tensor.frame_scale hd.working h.direction length)
  obtain rfl := Except.ok.inj (hu.symm.trans hx)
  exact huf

/-- The identity is of the kind that joins those of iterate and residual. -/
theorem reset (h : w.Graded f d) (hd : A.TakesUp f.kind d) :
    (Secant.initial w.iterate w.residual).frame = f.matrix := by
  have hkind : A.join w.iterate.kind w.residual.kind = f.kind := by
    rw [Tensor.kind_of_frame h.iterate]
    exact hd.join_eq h.residual.kind
  rw [Secant.initial, hkind, Tensor.size_of_frame h.iterate]
  exact Tensor.frame_identity _ _

/-- A correction is of the kind of the matrix, and so is the column that is left of it. -/
theorem correct (h : w.Graded f d) (hd : A.TakesUp f.kind d) (hn : f.shape.size ≠ 0)
    {u : Secant.Update A}
    (hu : Secant.update w.inverse w.direction.flatten w.change.flatten = .ok u)
    (hx : u.column.reshape w.iterate.shape = .ok x) : u.Fits f ∧ x.frame = f := by
  have hdirection : w.direction.flatten.frame = f.vector := congrArg Frame.vector h.direction
  have hchange : w.change.flatten.InEither f.vector d :=
    ⟨congrArg (fun s => [Shape.size s]) h.change.shape, h.change.kind⟩
  have hfits := Secant.fits_of_update hd hn h.inverse hdirection hchange hu
  refine ⟨hfits, Tensor.frame_eq ?_
    ((Tensor.shape_of_reshape hx).trans (Tensor.shape_of_frame h.iterate))⟩
  exact (Tensor.kind_of_reshape hx).trans (Tensor.kind_of_frame (f := f.vector) hfits.column)

end Graded

/-- A move that goes to points of the shape of the iterate leaves the arrays of their kinds. -/
theorem enduring_graded {setup : Setup A P} (hF : setup.Feeds f d) :
    Enduring setup (fun w => w.Ordered setup.engine ∧ w.Graded f d) fun b => b.shape = f.shape where
  iterate h := Tensor.shape_of_frame h.2.iterate
  aim h hw := by
    have hordered := h.1.aim hw
    obtain ⟨v, x, hv, hx, rfl⟩ := h.1.of_aim hw
    have hdirection := h.2.frame_turned (h.2.aim hF.takesUp hv hx) setup.engine
    exact ⟨hordered, { h.2 with direction := hdirection }⟩
  advance {w w' length} h hw := by
    obtain ⟨u, hu, hw'⟩ := h.1.of_advance hw
    subst hw'
    exact ⟨h.1.move (uniform_advance length) hw,
      { h.2 with iterate := h.2.advance hF.takesUp hu, previous := h.2.iterate }⟩
  trial h hv := ⟨h.1.trial hv, { h.2 with trial := hF.residual h.2.trial h.2.iterate hv }⟩
  compare h hw := by
    obtain ⟨x, hx, rfl⟩ := h.1.of_compare hw
    have hchange := h.2.trial.sub hF.takesUp h.2.residual hx
    exact ⟨h.1.move uniform_compare hw, { h.2 with change := hchange }⟩
  commit h hw := by
    obtain rfl := Except.ok.inj (h.1.commit.symm.trans hw)
    exact ⟨h.1.move uniform_commit hw, { h.2 with residual := h.2.trial }⟩
  reset h hw := by
    obtain rfl := Except.ok.inj (h.1.reset.symm.trans hw)
    exact ⟨h.1.move uniform_reset hw, { h.2 with inverse := h.2.reset hF.takesUp }⟩
  correct h hw := by
    have hordered := h.1.correct hw
    obtain ⟨u, inverse, x, hu, hinverse, hx, rfl⟩ := h.1.of_correct hw
    obtain ⟨hfits, hxf⟩ := h.2.correct hF.takesUp hF.nonempty hu hx
    exact ⟨hordered, { h.2 with
      inverse := hinverse.frame.trans hfits.inverse
      direction := h.2.frame_turned hxf setup.engine
      row := hfits.row
      product := hfits.product }⟩
  moveTo h hpoint hw := by
    obtain ⟨u, hu, rfl⟩ := h.1.of_moveTo hw
    have hframe : u.frame = f :=
      (hu.frame_eq (hpoint.trans (Tensor.shape_of_frame h.2.iterate).symm)).trans h.2.iterate
    exact ⟨h.1.moveTo hw, { h.2 with iterate := hframe, previous := hframe }⟩
  residual h hv :=
    ⟨h.1.residual hv, { h.2 with residual := hF.residual h.2.residual h.2.iterate hv }⟩

end Workspace

/-! ## Sessions -/

/-- The kind of the residuals of a solve. -/
def Origin.yielded (origin : Origin A) (y : Residual.Yield A) : A.Kind := y.kind origin.frame.kind

/-- The frame of the iterates of a solve: the kind that joins that of the starting point, brought to
a working kind, with that of the residuals, and the shape of the starting point. -/
def Origin.joined (origin : Origin A) (y : Residual.Yield A) : Frame A :=
  ⟨A.join origin.frame.kind (origin.yielded y), origin.point.shape⟩

namespace Session

variable {setup : Setup A P} {s : Session A P} {y : Residual.Yield A}

/-- A session whose arrays are of two kinds, and whose best iterate has their shape. -/
abbrev Graded (setup : Setup A P) (f : Frame A) (d : A.Kind) (s : Session A P) : Prop :=
  s.Maintains (fun w => w.Ordered setup.engine ∧ w.Graded f d) fun b => b.shape = f.shape

/-- What a residual function yields feeds a solve that starts at a point that is not empty. -/
theorem feeds_of_yields (hR : setup.residual.Yields y) {origin : Origin A}
    (hsize : origin.point.size ≠ 0)
    (hd : A.TakesUp (origin.joined y).kind (origin.yielded y)) :
    setup.Feeds (origin.joined y) (origin.yielded y) where
  takesUp := hd
  nonempty := hsize
  residual := by
    -- residuals of the kind of the iterate are not of another one in the joined kind
    have hyield : y.kind (origin.joined y).kind = origin.yielded y := y.kind_join origin.frame.kind
    rw [← hyield]
    intro n a u p v ha hu hv
    exact hR.inEither ha hu hv

/-- A start brings the iterate and the first residual to the joined kind. -/
theorem graded_start (hR : setup.residual.Yields y) {request : Request A P} {n : Nat}
    (hd : A.TakesUp (request.origin.joined y).kind (request.origin.yielded y))
    (hstart : start setup request = (.ok s, n)) :
    setup.Feeds (request.origin.joined y) (request.origin.yielded y) ∧
      s.Graded setup (request.origin.joined y) (request.origin.yielded y) := by
  have hordered := (Workspace.stable_ordered setup).start hstart
  obtain ⟨budget, ready, c, tolerances, objective, check, rule, hready, -, rfl⟩ := of_start hstart
  obtain ⟨u, v, hsize, hu, hv, hshape, hjoined⟩ := Origin.ready_eq_ok (congrArg Prod.fst hready)
  have hiterate := congrArg Ready.iterate hjoined
  have hresidual := congrArg Ready.residual hjoined
  have huf : u.frame = request.origin.frame := hu ▸ request.origin.frame_iterate
  have hushape : u.shape = request.origin.point.shape := Tensor.shape_of_frame huf
  have hvkind : v.kind = request.origin.yielded y := by
    rw [Origin.yielded, ← Tensor.kind_of_frame huf]
    exact hR.kind_eq (a := u.zerosLike) rfl hv
  have hkind : A.join u.kind v.kind = (request.origin.joined y).kind := by
    rw [Tensor.kind_of_frame huf, hvkind]
    rfl
  have hi : ready.iterate.frame = request.origin.joined y := by
    rw [hiterate, Tensor.frame_castTo, hkind, hushape]
    rfl
  have hr : ready.residual.frame = request.origin.joined y := by
    rw [hresidual, Tensor.frame_castTo, hkind, hshape, hushape]
    rfl
  have hregular := Workspace.regular_allocate hd.working hsize hi hr
    (Origin.fillable_of_ready (congrArg Prod.fst hready))
  exact ⟨feeds_of_yields hR hsize hd, ⟨hordered, hregular.graded⟩, Tensor.shape_of_frame hi⟩

section

variable (hF : setup.Feeds f d)

include hF

/-- A restart at a point of the shape of the arrays, or at the iterate, leaves them of their kinds.
-/
theorem Graded.restart (hs : s.Graded setup f d) {r : Restart A P}
    (hpoint : ∀ point ∈ r.point, point.shape = f.shape) :
    Upholds (fun _ => Graded setup f d) (Graded setup f d) (Session.restart setup r) s := by
  have hI := Workspace.enduring_graded hF
  refine Maintains.restart hs (fun _ h => hI.iterate h) fun s hs => ?_
  have hiterate : s.work.iterate.shape = f.shape := hI.iterate hs.arrays
  have hto : (r.point.getD s.work.iterate).shape = f.shape := by
    cases hr : r.point with
    | none => exact hiterate
    | some point => exact hpoint point hr
  refine hI.relocate_stay (fun {w m} h hm => ?_) hs hto (hto.trans hiterate.symm) r.layout
  -- the inverse Jacobian is reset where it is, in its own kind
  refine ⟨h.1.identity hm, { h.2 with inverse := ?_ }⟩
  rw [Tensor.resetToIdentity_of_frame h.2.inverse] at hm
  obtain rfl := Except.ok.inj hm
  exact Tensor.frame_identity _ _

/-- Over a history that stays in their shape the arrays stay of their kinds. -/
theorem Graded.after (hs : s.Graded setup f d) {ops : List (Operation A P)}
    (hops : ∀ op ∈ ops, op.IsSolving)
    (hpoints : ∀ op ∈ ops, ∀ point ∈ op.point, point.shape = f.shape) :
    (Session.after setup s ops).Graded setup f d :=
  (Workspace.enduring_graded hF).invariant.after_of_robust hops
    (fun _ _ hr hs => Graded.restart hF hs (hpoints _ hr)) hs

/-- A run reports an iterate of their kind. -/
theorem Graded.report (hs : s.Graded setup f d) {r : Report A} {s' : Session A P}
    (h : (run setup).outcome s = (.ok r, s')) : r.iterate.frame = f := by
  have hs' := ((Workspace.enduring_graded hF).invariant.run hs).of_ok h
  obtain ⟨norm, -, rfl⟩ := of_run h
  exact hs'.arrays.2.iterate

end

/-- A solve stays in its kind, in every arithmetic in which the joined kind takes up that of the
residuals. Over every history of steps, runs and restarts at points of the shape of the starting
point, whether its operations answer or fail, the iterate and the one before it, the search
direction, the inverse Jacobian and what is left of its last correction are of the joined kind, the
residuals and their change are of that kind or of the one that is returned, and all are of the
shapes that belong to the starting point. So is an iterate that a run reports. -/
theorem graded_after (hR : setup.residual.Yields y) {request : Request A P} {n : Nat}
    (hd : A.TakesUp (request.origin.joined y).kind (request.origin.yielded y))
    (hstart : start setup request = (.ok s, n)) {ops : List (Operation A P)}
    (hops : ∀ op ∈ ops, op.IsSolving)
    (hpoints : ∀ op ∈ ops, ∀ point ∈ op.point, point.shape = request.origin.point.shape) :
    (after setup s ops).work.Graded (request.origin.joined y) (request.origin.yielded y) ∧
      ∀ r s', (run setup).outcome (after setup s ops) = (.ok r, s') →
        r.iterate.frame = request.origin.joined y := by
  obtain ⟨hF, hs⟩ := graded_start hR hd hstart
  have hafter := Graded.after hF hs hops hpoints
  exact ⟨hafter.arrays.2, fun r s' h => Graded.report hF hafter h⟩

end Session

/-! ## Machine numbers -/

namespace Machine.Kind

/-- Are the numbers complex? -/
def isComplex : Kind → Bool
  | .complex _ => true
  | _ => false

/-- Numbers are combined as complex ones if either of them is complex. -/
theorem isComplex_join (j k : Kind) : (j.join k).isComplex = (j.isComplex || k.isComplex) := by
  cases j <;> cases k <;> rfl

/-- Numbers of one precision are combined in that precision. -/
theorem precision?_join {j k : Kind} {p : Precision} (hj : j.precision? = some p)
    (hk : k.precision? = some p) : (j.join k).precision? = some p := by
  cases j with
  | truth => cases hj
  | integer => cases hj
  | _ =>
    cases k with
    | truth => cases hk
    | integer => cases hk
    | _ =>
      obtain rfl := Option.some.inj hj
      obtain rfl := Option.some.inj hk
      exact congrArg some (Precision.join_self _)

end Machine.Kind

namespace Session

open QuasiNewton.Machine

/-- A solve in machine numbers stays in its kind: whatever the kinds of the starting point and of
the residuals are, the one that joins them takes up that of the residuals. If the starting point and
the residuals are of one precision, the iterate is of it, and it is complex if and only if one of
the two is. -/
theorem working_kind_stable {setup : Setup arithmetic P} {request : Request arithmetic P}
    {y : Residual.Yield arithmetic} (hR : setup.residual.Yields y) {s : Session arithmetic P}
    {n : Nat} (hstart : start setup request = (.ok s, n)) {ops : List (Operation arithmetic P)}
    (hops : ∀ op ∈ ops, op.IsSolving)
    (hpoints : ∀ op ∈ ops, ∀ point ∈ op.point, point.shape = request.origin.point.shape) :
    (after setup s ops).work.Graded (request.origin.joined y) (request.origin.yielded y) ∧
      (∀ r s', (run setup).outcome (after setup s ops) = (.ok r, s') →
        r.iterate.frame = request.origin.joined y) ∧
      (∀ p, Kind.precision? request.origin.frame.kind = some p →
        Kind.precision? (request.origin.yielded y) = some p →
        Kind.precision? (after setup s ops).work.iterate.kind = some p) ∧
      Kind.isComplex (after setup s ops).work.iterate.kind =
        (Kind.isComplex request.origin.frame.kind ||
          Kind.isComplex (request.origin.yielded y)) := by
  have hd : arithmetic.TakesUp (request.origin.joined y).kind (request.origin.yielded y) :=
    takesUp (.working _) _
  obtain ⟨hgraded, hreport⟩ := graded_after hR hd hstart hops hpoints
  have hkind := Tensor.kind_of_frame hgraded.iterate
  refine ⟨hgraded, hreport, fun p hj hk => ?_, ?_⟩
  · rw [hkind]
    exact Kind.precision?_join hj hk
  · rw [hkind]
    exact Kind.isComplex_join _ _

end Session

namespace Affine

/-- Complex numbers of single precision. -/
def complexSingle : Machine.arithmetic.Kind := Machine.Kind.complex .single

/-- Twice the real part of the iterate less the parameter, as a real number. -/
def realPart : Setup Machine.arithmetic Int :=
  { problem with residual := .returning fun _ u p => residual 2 (u.castTo single) p }

/-- Two steps, a restart at another point of the same shape, and a run. -/
def tour : List (Operation Machine.arithmetic Int) :=
  [.steps 2, .restart (restartAt double [4] 5), .run]

end Affine

namespace Session

open QuasiNewton.Affine

/-- A complex start in single precision with residuals that are real keeps its kind over two steps,
a restart and a run. -/
theorem working_kind_stable_single :
    ∃ s n, start realPart (startAt complexSingle [1] 3) = (.ok s, n) ∧
      (after realPart s tour).work.Graded ⟨complexSingle, [1]⟩ single ∧
      (after realPart s tour).work.residual.kind = single := by
  obtain ⟨s, n, hstart, hresidual⟩ := exists_started realPart (startAt complexSingle [1] 3)
    (fun s => (after realPart s tour).work.residual.kind = single) (by decide +kernel)
  have hyields : realPart.residual.Yields (.always single) := by
    intro n u p v hv
    obtain rfl := Except.ok.inj hv
    exact ⟨Tensor.shape_castTo _ _, Tensor.kind_castTo _ _⟩
  have hops : ∀ op ∈ tour, op.IsSolving := by decide
  have hpoints : ∀ op ∈ tour, ∀ point ∈ op.point, point.shape = [1] := by decide
  have hstable := working_kind_stable hyields hstart hops hpoints
  exact ⟨s, n, hstart, hstable.1, hresidual⟩

end Session

end QuasiNewton
