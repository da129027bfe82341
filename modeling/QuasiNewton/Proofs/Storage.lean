import QuasiNewton.Proofs.Affine
import QuasiNewton.Proofs.Kinds
import QuasiNewton.Proofs.Sizes

/-!
# Arrays that are kept

A restart at a point of the shape of the iterate keeps the arrays, and with them their kind: it goes
to the point as far as that kind can hold it. From there it agrees with a fresh start. It fails
where a start at the converted point fails, and otherwise it stores the iterate, the residual and
the inverse Jacobian that such a start makes ready; `restart_afresh` says so for both engines. That
the kind is kept makes it differ from a start at the point itself.
-/

namespace QuasiNewton

open QuasiNewton.Action

variable {A : Arithmetic} {P : Type} {F : Tensor A → P → Attempt A (Tensor A)} {setup : Setup A P}
  {s s' : Session A P}

/-! ## Working kinds -/

/-- What is combined with arrays of a working kind is of a working kind again. -/
def Arithmetic.JoinsWorking (A : Arithmetic) : Prop :=
  ∀ k l, A.IsWorking k → A.IsWorking (A.join k l)

/-- Real and complex numbers stay real or complex, whatever they are combined with. -/
theorem Machine.joinsWorking : Machine.arithmetic.JoinsWorking := by
  intro (k : Kind) (l : Kind) hk
  have hk : k.inexact = k := hk
  change (k.join l).inexact = k.join l
  cases k with
  | truth => cases hk
  | integer => cases hk
  | real p => cases l <;> rfl
  | complex p => cases l <;> rfl

/-- Joined with one of two kinds once more, their join stays as it is. -/
theorem Machine.join_absorbs (j k : arithmetic.Kind) :
    arithmetic.join (arithmetic.join j k) k = arithmetic.join j k :=
  (Kind.join_assoc j k k).trans (congrArg (Kind.join j) (Kind.join_self k))

/-- The iterate is of a working kind, whatever the residual function answers. -/
theorem Workspace.preserved_working (hA : A.JoinsWorking) (setup : Setup A P) :
    Preserved setup fun w => A.IsWorking w.iterate.kind where
  allocate := by
    intro origin p n ready h
    obtain ⟨u, v, -, rfl, -, -, rfl⟩ := Origin.ready_eq_ok h
    change A.IsWorking (Tensor.castTo _ _).kind
    rw [Tensor.kind_castTo, Tensor.kind_castTo]
    exact hA _ _ (.working _)
  aim := fun h _ _ => h
  advance := by
    intro w u length h hu
    change A.IsWorking u.kind
    rw [Tensor.kind_of_sub hu]
    exact hA _ _ h
  trial := fun h _ => h
  compare := fun h _ => h
  commit := fun h => h
  reset := fun h => h
  correct := fun h _ _ _ => h
  moveTo := by
    intro w u h hu
    change A.IsWorking u.kind
    rw [hu]
    exact h
  residual := fun h _ => h
  identity := fun h _ => h

/-! ## Starts in a working kind -/

/-- An iterate takes a residual of its shape and of a kind that its own takes up. -/
def Tensor.Takes (u v : Tensor A) : Prop := v.shape = u.shape ∧ A.join u.kind v.kind = u.kind

/-- A residual that the iterate takes is brought to the kind of the iterate. -/
theorem Ready.join_of_takes {u v : Tensor A} (h : u.Takes v) (shared fillable : Bool) :
    join u v shared fillable = .ok ⟨u, v.castTo u.kind, shared, fillable⟩ := by
  have hsame : (u.kind == u.kind) = true := beq_iff_eq.mpr rfl
  rw [join, if_pos h.1]
  simp only [h.2, Tensor.castTo_self, hsame, Bool.and_true]

/-- A point of a working kind that takes the residual there is ready as it is. -/
theorem Origin.ready_of_takes {R : Residual A P} {u : Tensor A} (hu : A.IsWorking u.kind)
    (hn : u.size ≠ 0) (layout : Layout) {p : P} {n : Nat}
    (h : ∀ v, (R.evaluate n u.zerosLike u p).1 = .ok v → u.Takes v) :
    (Origin.ready { point := u, layout } R p n).1 =
      (R.evaluate n u.zerosLike u p).1.map fun v => ⟨u, v.castTo u.kind, false, true⟩ := by
  have hworking : u.castTo (A.working u.kind) = u := by rw [hu, Tensor.castTo_self]
  have hrowwise : Origin.isRowwise { point := u, layout } = true := isRowwise_of_isWorking hu
  have hfillable := fillable_of_isRowwise hrowwise R
  unfold ready
  rw [if_neg hn]
  dsimp only
  rw [hworking, hfillable]
  change (R.evaluate n u.zerosLike u p).1.bind (fun v => Ready.join u v false true) = _
  cases hv : (R.evaluate n u.zerosLike u p).1 with
  | error e => rfl
  | ok v => exact Ready.join_of_takes (h v hv) false true

/-- What is evaluated at an iterate it takes: in an array that is overwritten always, else if the
residual function answers so there. -/
theorem Tensor.takes_of_evaluate (hR : setup.residual.Computes F) {u v : Tensor A} {p : P} {n : Nat}
    (hF : setup.engine = .rebuilding → ∀ v, F u p = .ok v → u.Takes v)
    (hv : (setup.residual.evaluate n u.zerosLike u p).1 = .ok v) :
    u.Takes v ∧ (setup.engine = .inPlace → v.kind = u.kind) := by
  cases he : setup.engine with
  | inPlace =>
    have hframe : v.frame = u.frame :=
      Residual.frame_evaluate (a := u.zerosLike) (Setup.writes_of_inPlace he) hv
    have hkind := kind_congr hframe
    exact ⟨⟨shape_congr hframe, by rw [hkind, A.join_self]⟩, fun _ => hkind⟩
  | rebuilding =>
    rw [hR.evaluate_of_returns (Setup.writes_of_rebuilding he)] at hv
    exact ⟨hF he v hv, nofun⟩

namespace Session

/-! ## Moves within the arrays -/

/-- The arrays of a session can be kept: the inverse Jacobian belongs to the iterate, and so do the
arrays that are overwritten. -/
structure Keeping (setup : Setup A P) (s : Session A P) : Prop where
  working : A.IsWorking s.work.iterate.kind
  inverse : s.work.inverse.frame = s.work.iterate.frame.matrix
  previous : setup.engine = .inPlace → s.work.previous.frame = s.work.iterate.frame
  residual : setup.engine = .inPlace → s.work.residual.frame = s.work.iterate.frame

/-- Arrays that are overwritten can always be kept. -/
theorem keeping_of_reachable (hA : A.JoinsWorking) {request : Request A P} {s₀ : Session A P}
    {n : Nat} (hstart : start setup request = (.ok s₀, n)) {ops : List (Operation A P)}
    (hops : ∀ op ∈ ops, op.IsSolving) (hs : s = after setup s₀ ops)
    (hinverse : setup.engine = .rebuilding →
      s.work.inverse.frame = s.work.iterate.frame.matrix) : s.Keeping setup := by
  have hordered := (Workspace.stable_ordered setup).after hstart hops
  have hworking := ((Workspace.preserved_working hA setup).stable.after hstart hops).2
  rw [← hs] at hordered hworking
  cases he : setup.engine with
  | inPlace =>
    obtain ⟨f, hf⟩ := hordered he
    exact
      { working := hworking
        inverse := hf.inverse.trans (congrArg Frame.matrix hf.iterate.symm)
        previous := fun _ => hf.previous.trans hf.iterate.symm
        residual := fun _ => hf.residual.trans hf.iterate.symm }
  | rebuilding =>
    exact
      { working := hworking
        inverse := hinverse he
        previous := fun h => by cases he.symm.trans h
        residual := fun h => by cases he.symm.trans h }

variable {point : Tensor A} {layout : Layout}

/-- A point of the shape of the iterate is reached in the kind of the iterate. -/
theorem Keeping.moveTo (h : s.Keeping setup) (hshape : point.shape = s.work.iterate.shape)
    (hstorable : setup.engine = .inPlace →
      A.storable point.kind s.work.iterate.kind = true) :
    s.work.moveTo setup.engine point = .ok { s.work with
      iterate := point.castTo s.work.iterate.kind
      previous := point.castTo s.work.iterate.kind } := by
  cases he : setup.engine with
  | inPlace =>
    have hcopy : s.work.iterate.copyInto point = .ok (point.castTo s.work.iterate.kind) := by
      rw [Tensor.copyInto, if_pos (hstorable he), Tensor.assign, Tensor.broadcastTo, if_pos hshape]
      rfl
    have hframe : (point.castTo s.work.iterate.kind).frame = s.work.previous.frame := by
      rw [h.previous he, Tensor.frame_castTo, hshape]
      rfl
    simp only [Workspace.moveTo, hcopy, Tensor.copyInto_of_frame hframe, bind, Except.bind, pure,
      Except.pure]
  | rebuilding => rfl

/-- An array that cannot hold the point refuses it. -/
theorem relocate_refused (he : setup.engine = .inPlace)
    (hshape : point.shape = s.work.iterate.shape)
    (hstorable : A.storable point.kind s.work.iterate.kind = false) :
    (relocate setup point layout).outcome s = (.error .unsuitableType, s) := by
  have hmove : s.work.moveTo setup.engine point = .error .unsuitableType := by
    rw [he]
    simp only [Workspace.moveTo, Tensor.copyInto, hstorable, bind, Except.bind]
    rfl
  unfold relocate Session.moveTo
  rw [outcome_get_bind, if_pos hshape, outcome_bind, outcome_bind, outcome_rework, hmove]

/-- What a session stores that kept its arrays for a point. -/
def kept (s : Session A P) (u v : Tensor A) : Workspace A :=
  { s.work with
    iterate := u
    previous := u
    residual := v
    inverse := Tensor.identity u.kind u.size }

/-- Into the residual of a session that keeps its arrays the same is put as into a new array. -/
theorem Keeping.evaluate_eq (h : s.Keeping setup) (hR : setup.residual.Computes F) {u : Tensor A}
    (hu : u.frame = s.work.iterate.frame) (n n' : Nat) (p : P) :
    (setup.residual.evaluate n' s.work.residual u p).1 =
      (setup.residual.evaluate n u.zerosLike u p).1 := by
  refine hR.evaluate_same ?_ n' n u p
  intro hw
  rw [h.residual (if_pos hw), Tensor.frame_zerosLike, hu]

variable {u v : Tensor A} {n : Nat} {e : Fault A.Real}

/-- A move within the arrays comes to an evaluation at the point. -/
theorem Keeping.outcome_moveTo (h : s.Keeping setup)
    (hshape : point.shape = s.work.iterate.shape)
    (hstorable : setup.engine = .inPlace → A.storable point.kind s.work.iterate.kind = true)
    (hu : u = point.castTo s.work.iterate.kind) :
    ∃ origin shared, (Session.moveTo setup point).outcome s =
      (do
        let residual ← evaluate setup s.work.residual
        modify fun s => { s with work := { s.work with residual } } : Action A P Unit).outcome
        { s with work := { s.work with iterate := u, previous := u }, origin, shared } := by
  have hmove := h.moveTo hshape hstorable
  rw [← hu] at hmove
  unfold Session.moveTo
  rw [outcome_bind, outcome_rework, hmove]
  dsimp only
  obtain ⟨origin, shared, hsettle⟩ := outcome_settleOrigin_bind setup _ _
  rw [hsettle]
  exact ⟨origin, shared, rfl⟩

/-- It fails where the residual fails. -/
theorem Keeping.relocate_eq_error (h : s.Keeping setup) (hR : setup.residual.Computes F)
    (hshape : point.shape = s.work.iterate.shape)
    (hstorable : setup.engine = .inPlace → A.storable point.kind s.work.iterate.kind = true)
    (hu : u = point.castTo s.work.iterate.kind)
    (hv : (setup.residual.evaluate n u.zerosLike u s.parameter).1 = .error e) :
    ∃ s', (relocate setup point layout).outcome s = (.error e, s') := by
  obtain ⟨origin, shared, hmove⟩ := h.outcome_moveTo hshape hstorable hu
  have hframe : u.frame = s.work.iterate.frame := by
    rw [hu, Tensor.frame_castTo, hshape]
    rfl
  rw [← h.evaluate_eq hR hframe n s.evaluations] at hv
  unfold relocate
  rw [outcome_get_bind, if_pos hshape, outcome_bind, hmove, outcome_bind, outcome_evaluate, hv]
  exact ⟨_, rfl⟩

/-- It stores the residual where that is computed, and resets the inverse Jacobian. -/
theorem Keeping.relocate_eq_ok (h : s.Keeping setup) (hR : setup.residual.Computes F)
    (hshape : point.shape = s.work.iterate.shape)
    (hstorable : setup.engine = .inPlace → A.storable point.kind s.work.iterate.kind = true)
    (hu : u = point.castTo s.work.iterate.kind)
    (hv : (setup.residual.evaluate n u.zerosLike u s.parameter).1 = .ok v) :
    ∃ s', (relocate setup point layout).outcome s = (.ok (), s') ∧ s'.work = s.kept u v := by
  obtain ⟨origin, shared, hmove⟩ := h.outcome_moveTo hshape hstorable hu
  have hframe : u.frame = s.work.iterate.frame := by
    rw [hu, Tensor.frame_castTo, hshape]
    rfl
  have hreset : s.work.inverse.resetToIdentity = .ok (Tensor.identity u.kind u.size) := by
    rw [Tensor.resetToIdentity_of_frame (h.inverse.trans (congrArg Frame.matrix hframe.symm))]
    rfl
  rw [← h.evaluate_eq hR hframe n s.evaluations] at hv
  unfold relocate
  rw [outcome_get_bind, if_pos hshape, outcome_bind, hmove, outcome_bind, outcome_evaluate, hv]
  dsimp only
  rw [outcome_modify]
  dsimp only
  rw [outcome_rework, hreset]
  exact ⟨_, rfl, rfl⟩

/-- Parameter and budget of a restart are taken over without touching the arrays. -/
theorem Keeping.adopted (h : s.Keeping setup) (r : Restart A P) (budget : Quantity A.Real) :
    (s.adopted r budget).Keeping setup :=
  ⟨h.working, h.inverse, h.previous, h.residual⟩

/-! ## Restarts within the arrays -/

/-- A restart that keeps the condition and has moved answers if the norm answers, and leaves the
arrays as they are. -/
theorem restart_of_moved {r : Restart A P} {budget : Quantity A.Real} {s₁ : Session A P}
    (hbudget : r.budgetAfter s.budget = .ok budget)
    (h : (relocate setup (r.point.getD s.work.iterate) r.layout).outcome (s.adopted r budget) =
      (.ok (), s₁)) (hkept : r.condition = .setting .absent) :
    ((∃ s', (restart setup r).outcome s = (.ok (), s')) ↔
      ∃ x, setup.norm s₁.work.residual = .ok x) ∧
    ∀ s', (restart setup r).outcome s = (.ok (), s') → s'.work = s₁.work := by
  rw [outcome_restart hbudget, outcome_bind, h]
  dsimp only
  rw [outcome_bind, outcome_renewMonitor, Restart.monitor_of_kept hkept, Monitor.restart]
  cases hnorm : setup.norm s₁.work.residual with
  | error e =>
    dsimp only
    constructor
    · constructor
      · rintro ⟨s', h'⟩
        cases (Prod.mk.inj h').1
      · rintro ⟨x, hx⟩
        cases hx
    · intro s' h'
      cases (Prod.mk.inj h').1
  | ok x =>
    dsimp only
    rw [outcome_modify]
    constructor
    · exact ⟨fun _ => ⟨x, rfl⟩, fun _ => ⟨_, rfl⟩⟩
    · intro s' h'
      obtain rfl := (Prod.mk.inj h').2
      rfl

/-- A restart at a point with a parameter that leaves everything else. -/
def restartTo (point : Tensor A) (layout : Layout) (p : P) : Restart A P where
  point := some point
  layout
  parameter := some p

/-- Such a restart leaves the budget. -/
theorem budgetAfter_restartTo (point : Tensor A) (layout : Layout) (p : P) (q : Quantity A.Real) :
    (restartTo point layout p).budgetAfter q = .ok q :=
  Restart.budgetAfter_of_absent rfl q

variable {p : P}

/-- A restart that fails to move fails. -/
theorem restartTo_eq_error
    (h : (relocate setup point layout).outcome (s.adopted (restartTo point layout p) s.budget) =
      (.error e, s')) :
    (restart setup (restartTo point layout p)).outcome s = (.error e, s') := by
  let r := restartTo point layout p
  have hmoved : (relocate setup (r.point.getD s.work.iterate) r.layout).outcome
      (s.adopted r s.budget) = (.error e, s') := h
  rw [outcome_restart (budgetAfter_restartTo point layout p s.budget), outcome_bind, hmoved]

/-- A session stores what a start has made ready, and a residual. -/
structure Afresh (ready : Ready A) (v : Tensor A) (s : Session A P) : Prop where
  iterate : s.work.iterate = ready.iterate
  residual : s.work.residual = v
  inverse : s.work.inverse = Secant.initial ready.iterate ready.residual

/-- A restart within the arrays stores the residual where that is computed, and answers if the norm
does. -/
theorem Keeping.restart_eq_ok (h : s.Keeping setup) (hR : setup.residual.Computes F)
    (hshape : point.shape = s.work.iterate.shape)
    (hstorable : setup.engine = .inPlace → A.storable point.kind s.work.iterate.kind = true)
    (hu : u = point.castTo s.work.iterate.kind)
    (hv : (setup.residual.evaluate n u.zerosLike u p).1 = .ok v) :
    ((∃ s', (restart setup (restartTo point layout p)).outcome s = (.ok (), s')) ↔
      ∃ x, setup.norm v = .ok x) ∧
    ∀ s', (restart setup (restartTo point layout p)).outcome s = (.ok (), s') →
      s'.Afresh ⟨u, v.castTo u.kind, false, true⟩ v := by
  obtain ⟨s₁, hmoved, hwork⟩ :=
    (h.adopted (restartTo point layout p) s.budget).relocate_eq_ok hR hshape hstorable hu hv
  have hresidual : s₁.work.residual = v := congrArg Workspace.residual hwork
  have hinitial : Tensor.identity u.kind u.size = Secant.initial u (v.castTo u.kind) := by
    rw [Secant.initial, Tensor.kind_castTo, A.join_self]
  obtain ⟨hanswer, hkept⟩ :=
    restart_of_moved (budgetAfter_restartTo point layout p s.budget) hmoved rfl
  rw [hresidual] at hanswer
  refine ⟨hanswer, ?_⟩
  intro s' h'
  have hwork' := (hkept s' h').trans hwork
  exact
    { iterate := congrArg Workspace.iterate hwork'
      residual := congrArg Workspace.residual hwork'
      inverse := (congrArg Workspace.inverse hwork').trans hinitial }

/-- A restart at a point of the shape of the iterate keeps the kind of the iterate. Arrays that are
overwritten refuse a point of a kind they cannot hold. Otherwise the restart agrees with a start at
the point brought to that kind: it fails where that fails, and where that is ready it answers just
when the norm does and stores the same iterate, residual and inverse Jacobian; arrays that are
replaced may store the residual as it was returned. -/
theorem restart_afresh (hA : A.JoinsWorking) (hR : setup.residual.Computes F)
    {request : Request A P} {s₀ : Session A P} {n : Nat}
    (hstart : start setup request = (.ok s₀, n)) {ops : List (Operation A P)}
    (hops : ∀ op ∈ ops, op.IsSolving) (hs : s = after setup s₀ ops)
    (hinverse : setup.engine = .rebuilding → s.work.inverse.frame = s.work.iterate.frame.matrix)
    {point u : Tensor A} (hshape : point.shape = s.work.iterate.shape)
    (hu : u = point.castTo s.work.iterate.kind) (layout layout' : Layout) (p : P) (calls : Nat) :
    (setup.engine = .inPlace → A.storable point.kind s.work.iterate.kind = false →
      ∃ s', (restart setup (restartTo point layout p)).outcome s = (.error .unsuitableType, s')) ∧
    (A.storable point.kind s.work.iterate.kind = true →
      (setup.engine = .rebuilding → ∀ v, F u p = .ok v → u.Takes v) →
      (∀ e, (Origin.ready { point := u, layout := layout' } setup.residual p calls).1 = .error e →
        ∃ s', (restart setup (restartTo point layout p)).outcome s = (.error e, s')) ∧
      ∀ ready, (Origin.ready { point := u, layout := layout' } setup.residual p calls).1 =
        .ok ready →
        ∃ v, v.castTo s.work.iterate.kind = ready.residual ∧
          (setup.engine = .inPlace → v = ready.residual) ∧
          ((∃ s', (restart setup (restartTo point layout p)).outcome s = (.ok (), s')) ↔
            ∃ x, setup.norm v = .ok x) ∧
          ∀ s', (restart setup (restartTo point layout p)).outcome s = (.ok (), s') →
            s'.Afresh ready v) := by
  have hkeeping := keeping_of_reachable hA hstart hops hs hinverse
  have hsize : s.work.iterate.size ≠ 0 := hs ▸ (populated_after hstart hops).iterate
  have hkind : u.kind = s.work.iterate.kind := by rw [hu, Tensor.kind_castTo]
  constructor
  · intro he hstorable
    exact ⟨_, restartTo_eq_error (relocate_refused he hshape hstorable)⟩
  intro hstorable hF
  have htakes (v : Tensor A) (hv : (setup.residual.evaluate calls u.zerosLike u p).1 = .ok v) :=
    Tensor.takes_of_evaluate hR hF hv
  have hready : (Origin.ready { point := u, layout := layout' } setup.residual p calls).1 =
      (setup.residual.evaluate calls u.zerosLike u p).1.map fun v =>
        ⟨u, v.castTo u.kind, false, true⟩ := by
    refine Origin.ready_of_takes (hkind ▸ hkeeping.working) ?_ layout' fun v hv => (htakes v hv).1
    rwa [Tensor.size, hu, Tensor.shape_castTo, hshape]
  rw [hready]
  cases hv : (setup.residual.evaluate calls u.zerosLike u p).1 with
  | error e' =>
    constructor
    · intro e he
      obtain rfl : e' = e := Except.error.inj he
      have hadopted := hkeeping.adopted (restartTo point layout p) s.budget
      obtain ⟨s', hmoved⟩ := hadopted.relocate_eq_error hR hshape (fun _ => hstorable) hu hv
      exact ⟨s', restartTo_eq_error hmoved⟩
    · intro ready hr
      cases hr
  | ok v =>
    constructor
    · intro e he
      cases he
    · intro ready hr
      obtain rfl := Except.ok.inj hr
      obtain ⟨hanswer, hafresh⟩ := hkeeping.restart_eq_ok hR hshape (fun _ => hstorable) hu hv
      refine ⟨v, by rw [hkind], ?_, hanswer, hafresh⟩
      intro he
      have hcast : v.castTo u.kind = v := by rw [← (htakes v hv).2 he, Tensor.castTo_self]
      exact hcast.symm

section

open QuasiNewton.Affine

/-- After a step and the restart at two elements, a restart of the affine problem at single
precision agrees with a start in double precision. -/
theorem restart_afresh_affine :
    ∃ s₀ n ready v s', start problem request = (.ok s₀, n) ∧
      (Origin.ready { point := (vector single [1, 4]).castTo double } problem.residual 7 0).1 =
        .ok ready ∧
      (restart problem (restartTo (vector single [1, 4]) .packed 7)).outcome
        (after problem s₀ detour) = (.ok (), s') ∧
      s'.Afresh ready v := by
  obtain ⟨s₀, n, hstart, hkind, hshape, hinverse, ⟨⟩, hanswer⟩ := exists_started problem request
    (fun s₀ =>
      let w := (after problem s₀ detour).work
      w.iterate.kind = double ∧ w.iterate.shape = [2] ∧
        (w.inverse.kind = double ∧ w.inverse.shape = [2, 2]) ∧
        ∃ a, ((restart problem (restartTo (vector single [1, 4]) .packed 7)).outcome
          (after problem s₀ detour)).1 = .ok a)
    (by decide +kernel)
  have hsolving : ∀ op ∈ detour, op.IsSolving := by decide
  have hcomputes : problem.residual.Computes (residual 2) := computes_residual 2
  have hframe : (after problem s₀ detour).work.inverse.frame =
      (after problem s₀ detour).work.iterate.frame.matrix := by
    refine Tensor.frame_eq (hinverse.1.trans hkind.symm) (hinverse.2.trans ?_)
    rw [Frame.shape_matrix, Tensor.frame, hshape]
    rfl
  have hpoint : (vector single [1, 4]).shape = (after problem s₀ detour).work.iterate.shape :=
    hshape.symm
  obtain ⟨-, hrestart⟩ := restart_afresh Machine.joinsWorking hcomputes hstart hsolving rfl
    (fun _ => hframe) hpoint rfl .packed .packed 7 0
  rw [hkind] at hrestart
  obtain ⟨-, hafresh⟩ := hrestart rfl fun _ v hv => by
    have hv := conforms_residual 2 _ _ _ hv
    refine ⟨Tensor.shape_congr hv, ?_⟩
    rw [Tensor.kind_congr hv, Machine.arithmetic.join_self]
  have hready : ∃ ready, (Origin.ready { point := (vector single [1, 4]).castTo double }
      problem.residual 7 0).1 = .ok ready := by
    rw [Origin.ready_of_computes hcomputes (conforms_residual 2), if_neg (by decide)]
    exact ⟨_, rfl⟩
  obtain ⟨ready, hready⟩ := hready
  obtain ⟨v, -, -, -, hstores⟩ := hafresh ready hready
  exact ⟨s₀, n, ready, v, _, hstart, hready, Prod.ext hanswer rfl,
    hstores _ (Prod.ext hanswer rfl)⟩

/-- A start at a vector of single precision is ready in single precision. A restart there keeps the
double precision in which the session was started. -/
theorem storage_kept :
    ∃ s₀ n s' ready, start problem request = (.ok s₀, n) ∧
      (vector single [1]).shape = s₀.work.iterate.shape ∧
      (restart problem (restartTo (vector single [1]) .packed 3)).outcome s₀ = (.ok (), s') ∧
      (Origin.ready { point := vector single [1] } problem.residual 3 0).1 = .ok ready ∧
      s'.work.iterate ≠ ready.iterate := by
  obtain ⟨s₀, n, hstart, hshape, ⟨⟨⟩, hanswer⟩, hkind⟩ := exists_started problem request
    (fun s₀ =>
      let moved := (restart problem (restartTo (vector single [1]) .packed 3)).outcome s₀
      s₀.work.iterate.shape = [1] ∧ (∃ a, moved.1 = .ok a) ∧ moved.2.work.iterate.kind = double)
    (by decide +kernel)
  have hcomputes : problem.residual.Computes (residual 2) := computes_residual 2
  have hready : ∃ ready, (Origin.ready { point := vector single [1] } problem.residual 3 0).1 =
      .ok ready ∧ ready.iterate.kind = single := by
    rw [Origin.ready_of_computes hcomputes (conforms_residual 2), if_neg (by decide)]
    exact ⟨_, rfl, rfl⟩
  obtain ⟨ready, hready, hsingle⟩ := hready
  refine ⟨s₀, n, _, ready, hstart, hshape.symm, Prod.ext hanswer rfl, hready, fun hsame => ?_⟩
  rw [hsame, hsingle] at hkind
  cases hkind

end

end Session

end QuasiNewton
