import QuasiNewton.Proofs.Keeping
import QuasiNewton.Proofs.Lockstep
import QuasiNewton.Proofs.Ordered

/-!
# Operations in lockstep

Sessions that are alike answer every operation alike. After a run they are alike as before; after a
restart they are so in the frame of the new point.
-/

namespace QuasiNewton

open QuasiNewton.Action

variable {A : Arithmetic} {P : Type} {F : Tensor A → P → Attempt A (Tensor A)}
  {setup setup' : Setup A P} {τ : Tie A} {s t : Session A P}
  {fail : Session A P → Session A P → Prop}

namespace Session

/-! ## Runs -/

/-- The lines about the start of a run are reported alike. -/
theorem announce_agree (hw : setup.Twins F setup') (hs : Alike setup τ s t)
    (hfail : ∀ s t, Alike setup τ s t → fail s t) :
    Agree (fun _ => Alike setup τ) fail (announce setup) (announce setup') s t := by
  unfold announce
  refine .seq (speaks_agree hw hs hfail 1) fun b s₁ t₁ h₁ => ?_
  split
  · refine .get_seq ?_
    rw [← h₁.tolerances, ← h₁.budget, ← h₁.work.iterate, ← hw.resetBudget]
    refine .seq (.of_attempt rfl (fun _ _ => h₁) (hfail _ _ h₁)) fun a s₂ t₂ h₂ => ?_
    refine .seq (.of_attempt rfl (fun _ _ => h₂) (hfail _ _ h₂)) fun r s₃ t₃ h₃ => ?_
    exact report_agree h₃ _
  · exact .of_pure rfl h₁

/-- So are the lines about its progress. -/
theorem progress_agree (hw : setup.Twins F setup') (hs : Alike setup τ s t)
    (hfail : ∀ s t, Alike setup τ s t → fail s t) :
    Agree (fun _ => Alike setup τ) fail (progress setup) (progress setup') s t := by
  unfold progress
  refine .seq (speaks_agree hw hs hfail 1) fun b s₁ t₁ h₁ => ?_
  split
  · refine .get_seq ?_
    rw [← h₁.statistics, ← h₁.resets, ← h₁.work.residual, ← hw.norm]
    split
    · refine .seq (.of_attempt rfl (fun _ _ => h₁) (hfail _ _ h₁)) fun norm s₂ t₂ h₂ => ?_
      exact report_agree h₂ _
    · exact .of_pure rfl h₁
  · exact .of_pure rfl h₁

/-- Sessions that are alike may both go on, or neither. -/
theorem Alike.mayContinue_eq (hs : Alike setup τ s t) : s.mayContinue = t.mayContinue := by
  rw [mayContinue, mayContinue, hs.stopped, hs.budget, hs.statistics]

/-- The loops of their runs answer alike. -/
theorem iterate_agree (hw : setup.Twins F setup') (hs : Alike setup τ s t)
    (hu : τ.Usable setup setup') (hfail : ∀ s t, Alike setup τ s t → fail s t)
    (hb : τ.best = τ.frame) (fuel : Nat) :
    Agree (fun _ => Alike setup τ) fail (iterate setup fuel) (iterate setup' fuel) s t := by
  induction fuel generalizing s t with
  | zero => exact .of_pure rfl hs
  | succ fuel ih =>
    unfold iterate
    refine .get_seq ?_
    rw [← hs.mayContinue_eq]
    split
    · refine .seq (step_agree hw hs hu hfail hb) fun _ s₁ t₁ h₁ => ?_
      exact .seq (progress_agree hw h₁ hfail) fun _ s₂ t₂ h₂ => ih h₂
    · exact .of_pure rfl hs

/-- The end of a budget is noted alike. -/
theorem exhaust_agree (hs : Alike setup τ s t) :
    Agree (fun _ => Alike setup τ) fail exhaust exhaust s t := by
  refine .of_modify ?_
  rw [← hs.stopped]
  split
  · exact hs
  · exact { hs with status := rfl, stopped := rfl }

/-- Their summaries are the same. -/
theorem Alike.summary_eq (hs : Alike setup τ s t) : s.summary = t.summary := by
  funext norm
  rw [summary, summary, hs.work.iterate, hs.work.residual, hs.status, hs.statistics, hs.resets]

/-- Their runs are closed alike. -/
theorem close_agree (hw : setup.Twins F setup') (hs : Alike setup τ s t)
    (hfail : ∀ s t, Alike setup τ s t → fail s t) :
    Agree (fun _ => Alike setup τ) fail (close setup) (close setup') s t := by
  unfold close
  refine .get_seq ?_
  rw [← hs.summary_eq, ← hs.status, ← hs.statistics, ← hs.resets, ← hs.work.residual, ← hw.norm]
  refine .seq (.of_attempt rfl (fun _ _ => hs) (hfail _ _ hs)) fun norm s₁ t₁ h₁ => ?_
  refine .seq (speaks_agree hw h₁ hfail 0) fun b s₂ t₂ h₂ => ?_
  split
  · refine .seq (report_agree h₂ _) fun _ s₃ t₃ h₃ => ?_
    refine .seq (report_agree h₃ _) fun _ s₄ t₄ h₄ => ?_
    exact .seq (report_agree h₄ _) fun _ s₅ t₅ h₅ => .of_pure rfl h₅
  · exact .of_pure rfl h₂

/-- Runs of sessions that are alike answer the same and leave them alike. -/
theorem run_agree (hw : setup.Twins F setup') (hs : Alike setup τ s t)
    (hu : τ.Usable setup setup') (hfail : ∀ s t, Alike setup τ s t → fail s t)
    (hb : τ.best = τ.frame) :
    Agree (fun _ => Alike setup τ) fail (run setup) (run setup') s t := by
  unfold run
  refine .seq (announce_agree hw hs hfail) fun _ s₁ t₁ h₁ => .get_seq ?_
  rw [← h₁.budget]
  refine .seq (iterate_agree hw h₁ hu hfail hb _) fun _ s₂ t₂ h₂ => ?_
  exact .seq (exhaust_agree h₂) fun _ s₃ t₃ h₃ => close_agree hw h₃ hfail

/-- So does any number of steps. -/
theorem steps_agree (hw : setup.Twins F setup') (hs : Alike setup τ s t)
    (hu : τ.Usable setup setup') (hfail : ∀ s t, Alike setup τ s t → fail s t)
    (hb : τ.best = τ.frame) (n : Nat) :
    Agree (fun _ => Alike setup τ) fail (steps setup n) (steps setup' n) s t := by
  induction n generalizing s t with
  | zero => exact .of_pure rfl hs
  | succ n ih => exact .seq (step_agree hw hs hu hfail hb) fun _ s₁ t₁ h₁ => ih h₁

end Session

/-! ## Starting points -/

/-- Iterate and residual of one frame are joined as they are. -/
theorem Ready.join_of_frame {f : Frame A} {u v : Tensor A} (hu : u.frame = f) (hv : v.frame = f)
    (shared fillable : Bool) : join u v shared fillable = .ok ⟨u, v, shared, fillable⟩ := by
  have hkind : A.join u.kind v.kind = f.kind := by
    rw [Tensor.kind_of_frame hu, Tensor.kind_of_frame hv, A.join_self]
  have hsame : (u.kind == f.kind) = true := beq_iff_eq.mpr (Tensor.kind_of_frame hu)
  rw [join, if_pos ((Tensor.shape_of_frame hv).trans (Tensor.shape_of_frame hu).symm)]
  simp only [hkind, Tensor.castTo_of_frame hu, Tensor.castTo_of_frame hv, hsame, Bool.and_true]

namespace Origin

/-- The frame in which the iteration from a starting point is carried out. -/
def frame (origin : Origin A) : Frame A := ⟨A.working origin.point.kind, origin.point.shape⟩

/-- The first iterate. -/
def iterate (origin : Origin A) : Tensor A := origin.point.castTo origin.frame.kind

/-- The first iterate has the frame of the iteration. -/
theorem frame_iterate (origin : Origin A) : origin.iterate.frame = origin.frame :=
  Tensor.frame_castTo _ _

/-- A starting point that is not empty is ready once the residual there is computed, in one call. -/
theorem ready_of_computes {R : Residual A P} (hR : R.Computes F) (hF : Residual.Conforms F)
    (origin : Origin A) (p : P) (n : Nat) :
    origin.ready R p n =
      if origin.point.size = 0 then (.error .emptyStart, n)
      else ((F origin.iterate p).map fun v =>
        ⟨origin.iterate, v, origin.shares, origin.fillable R⟩, n + 1) := by
  have hvalue : (R.evaluate n origin.iterate.zerosLike origin.iterate p).1 = F origin.iterate p :=
    hR.evaluate hF (Tensor.frame_zerosLike _) n p
  unfold ready
  split
  · rfl
  · refine Prod.ext ?_ (Residual.evaluate_snd ..)
    change Except.bind (R.evaluate n origin.iterate.zerosLike origin.iterate p).1
      (fun v => Ready.join origin.iterate v origin.shares (origin.fillable R)) = _
    rw [hvalue]
    cases hv : F origin.iterate p with
    | error e => rfl
    | ok v =>
      exact Ready.join_of_frame origin.frame_iterate ((hF _ _ _ hv).trans origin.frame_iterate) _ _

variable {R R' : Residual A P}

/-- Residual functions that compute the same make a starting point ready alike, if they are of one
form or the arrays are stored row by row. -/
theorem ready_congr (hR : R.Computes F) (hR' : R'.Computes F) (hF : Residual.Conforms F)
    {origin : Origin A} (h : R.writes = R'.writes ∨ origin.isRowwise = true) (p : P) (k n : Nat) :
    origin.ready R p (k + n) = ((origin.ready R' p n).1, k + (origin.ready R' p n).2) := by
  rw [ready_of_computes hR hF, ready_of_computes hR' hF, fillable_congr h]
  split <;> rfl

/-- A starting point that is ready: the first iterate and the residual there, of one frame. -/
theorem of_ready (hR : R.Computes F) (hF : Residual.Conforms F) {origin : Origin A} {p : P}
    {n : Nat} {ready : Ready A} (h : (origin.ready R p n).1 = .ok ready) :
    origin.frame.shape.size ≠ 0 ∧ ready.iterate = origin.iterate ∧
      F origin.iterate p = .ok ready.residual ∧ ready.residual.frame = origin.frame ∧
      ready.fillable = origin.fillable R ∧ (origin.ready R p n).2 = n + 1 := by
  rw [ready_of_computes hR hF] at h ⊢
  split at h
  case isTrue => cases h
  case isFalse hsize =>
    cases hv : F origin.iterate p with
    | error e =>
      rw [hv] at h
      cases h
    | ok v =>
      rw [hv] at h
      obtain rfl := Except.ok.inj h
      refine ⟨hsize, rfl, rfl, (hF _ _ _ hv).trans origin.frame_iterate, rfl, ?_⟩
      rw [if_neg hsize]

end Origin

/-! ## Restarts -/

/-- The frame of a solve after a restart at a point. -/
def Frame.moved (f : Frame A) (point : Tensor A) : Frame A :=
  if point.shape = f.shape then f else ⟨A.working point.kind, point.shape⟩

/-- The frame of a solve after a restart. -/
def Restart.frame (r : Restart A P) (f : Frame A) : Frame A :=
  match r.point with
  | none => f
  | some point => f.moved point

/-- A restart without a point is one at the iterate. -/
theorem Restart.frame_eq (r : Restart A P) {f : Frame A} {u : Tensor A} (hu : u.frame = f) :
    r.frame f = f.moved (r.point.getD u) := by
  unfold Restart.frame
  cases r.point with
  | none => exact (if_pos (Tensor.shape_of_frame hu)).symm
  | some point => rfl

/-- The monitor after a restart, which may be refused: with the condition in effect it is started
over, with a new condition it is made anew. -/
def Restart.monitor (r : Restart A P) (norm : Norm A) (m : Monitor A) (tolerances : Tolerances A)
    (residual iterate : Tensor A) : Attempt A Unit × Monitor A :=
  match r.condition with
  | .setting .absent => m.restart r.absolute r.relative norm residual iterate
  | choice =>
    let tolerances := tolerances.replace r.absolute r.relative
    match Monitor.make choice tolerances.absolute tolerances.relative norm residual iterate with
    | .ok m' => (.ok (), m')
    | .error e => (.error e, m)

/-- Without a condition the monitor is started over. -/
theorem Restart.monitor_of_kept {r : Restart A P} (h : r.condition = .setting .absent)
    (norm : Norm A) (m : Monitor A) (tolerances : Tolerances A) (residual iterate : Tensor A) :
    r.monitor norm m tolerances residual iterate =
      m.restart r.absolute r.relative norm residual iterate := by
  simp only [monitor, h]

/-- With a condition the monitor is made anew, or stays if that is refused. -/
theorem Restart.monitor_of_given {r : Restart A P} (h : r.condition ≠ .setting .absent)
    (norm : Norm A) (m : Monitor A) (tolerances : Tolerances A) (residual iterate : Tensor A) :
    r.monitor norm m tolerances residual iterate =
      match Monitor.make r.condition (tolerances.replace r.absolute r.relative).absolute
        (tolerances.replace r.absolute r.relative).relative norm residual iterate with
      | .ok m' => (.ok (), m')
      | .error e => (.error e, m) := by
  unfold monitor
  split
  · exact absurd ‹_› h
  · rfl

/-- A monitor made or started over has seen the residual and the iterate only. -/
theorem Restart.of_monitor {r : Restart A P} {norm : Norm A} {m : Monitor A}
    {tolerances : Tolerances A} {residual iterate : Tensor A}
    (h : (r.monitor norm m tolerances residual iterate).1 = .ok ()) :
    ∃ c t objective, norm residual = .ok objective ∧
      (r.monitor norm m tolerances residual iterate).2 = Monitor.start c t objective iterate := by
  unfold Restart.monitor at h ⊢
  split at h
  · unfold Monitor.restart at h ⊢
    cases hn : norm residual with
    | error e =>
      rw [hn] at h
      cases h
    | ok objective => exact ⟨_, _, objective, rfl, rfl⟩
  · dsimp only at h ⊢
    split at h
    case h_1 m' hm =>
      obtain ⟨c, t, objective, -, -, hn, rfl⟩ := Monitor.make_eq_ok.mp hm
      exact ⟨c, t, objective, hn, rfl⟩
    case h_2 => cases h

/-- A monitor that is not made or started over keeps its best iterate. -/
theorem Restart.bestIterate_monitor {r : Restart A P} {norm : Norm A} {m : Monitor A}
    {tolerances : Tolerances A} {residual iterate : Tensor A} {e : Fault A.Real}
    (h : (r.monitor norm m tolerances residual iterate).1 = .error e) :
    (r.monitor norm m tolerances residual iterate).2.bestIterate = m.bestIterate := by
  unfold Restart.monitor at h ⊢
  split at h
  · unfold Monitor.restart at h ⊢
    cases hn : norm residual with
    | error e => rfl
    | ok objective =>
      rw [hn] at h
      cases h
  · dsimp only at h ⊢
    split at h
    case h_1 => cases h
    case h_2 => rfl

/-- A budget that passes the check is at least one. -/
theorem checkBudget_positive {given : Setting A.Real} {q : Quantity A.Real}
    (h : checkBudget given = .ok q) : q.isBelow (M := A.toMagnitudes) 1 = false := by
  obtain ⟨q', -, h⟩ := Attempt.bind_eq_ok.mp h
  split at h
  case isTrue => cases h
  case isFalse hbelow =>
    obtain rfl : q' = q := Attempt.pure_eq_ok.mp h
    exact Bool.eq_false_iff.mpr hbelow

namespace Session

/-- What is alike as closely as a tie says is so without regard to frames. -/
theorem Alike.loosen (hs : Alike setup τ s t) :
    Alike setup { τ with frame := none, best := none } s t :=
  { hs with
    regular := fun f hf => by cases hf
    fillable := fun f hf => by cases hf
    check := fun f hf => by cases hf
    best := fun f hf => by cases hf }

/-- What is alike as closely as a tie says is so without regard to the best iterate. -/
theorem Alike.unfit (hs : Alike setup τ s t) : Alike setup { τ with best := none } s t :=
  { hs with best := fun f hf => by cases hf }

/-- Parameter and budget of a restart are taken over alike. -/
theorem adopt_agree (hs : Alike setup τ s t) (hfail : ∀ s t, Alike setup τ s t → fail s t)
    (r : Restart A P) : Agree (fun _ => Alike setup τ) fail (adopt r) (adopt r) s t := by
  have h₁ : Alike setup τ { s with parameter := r.parameter.getD s.parameter }
      { t with parameter := r.parameter.getD t.parameter } :=
    { hs with parameter := congrArg r.parameter.getD hs.parameter }
  unfold adopt
  refine .modify_seq ?_
  split
  · exact .of_pure rfl h₁
  · refine .same_seq (fun _ _ => hfail _ _ h₁) fun q hq => .of_modify ?_
    exact { h₁ with budget := rfl, positive := checkBudget_positive hq }

/-- The new points at which two alike sessions can be restarted: with one engine any, unless the
directions have to take rows, and else those of the kind of the arrays. -/
def Suits (setup setup' : Setup A P) (τ : Tie A) (point : Tensor A) : Prop :=
  (setup.engine = setup'.engine ∧ τ.fillable = false) ∨ ∀ f ∈ τ.frame, point.kind = f.kind

/-- A direction at a new point that suits takes rows in both sessions or in neither. -/
theorem Suits.fillable (hs : Alike setup τ s t) (hu : τ.Usable setup setup') {point : Tensor A}
    (hpoint : Suits setup setup' τ point) (layout : Layout) :
    (setup.residual.writes = setup'.residual.writes ∨
        Origin.isRowwise { point, layout } = true) ∧
      ∀ f ∈ τ.frame, τ.fillable = true → Origin.isRowwise { point, layout } = true := by
  rcases hpoint with ⟨he, hτ⟩ | hkind
  · exact ⟨.inl (Setup.writes_eq he), fun f _ hτ' => Bool.noConfusion (hτ.symm.trans hτ')⟩
  · have hrow : ∀ f ∈ τ.frame, Origin.isRowwise { point, layout } = true := by
      intro f hf
      have hworking : A.IsWorking point.kind := hkind f hf ▸ (hs.regular f hf).working
      exact Origin.isRowwise_of_isWorking hworking
    refine ⟨?_, fun f hf _ => hrow f hf⟩
    exact hu.imp Setup.writes_eq fun ⟨_, f, hf, _⟩ => hrow f hf

/-- Sessions that are alike are so in another frame if they get the same new arrays of that frame.
-/
theorem Alike.reallocated (hs : Alike setup τ s t) (n : Nat) {frame : Option (Frame A)}
    {w : Workspace A} {check : ResetCheck A} (hregular : ∀ g ∈ frame, w.Regular g)
    (hfillable : ∀ g ∈ frame, τ.fillable = true → w.fillable = true)
    (hcheck : ∀ g ∈ frame, ResetCheck.forKind g.kind setup.options.resetTolerance = .ok check) :
    Alike setup { τ with frame, best := none }
      { s with evaluations := τ.calls + n, work := w, shared := false, resetCheck := check }
      { t with evaluations := n, work := w, shared := false, resetCheck := check } :=
  { hs.unfit with
    evaluations := rfl
    work := .refl _ _
    resetCheck := rfl
    regular := hregular
    fillable := hfillable
    check := hcheck }

/-- New arrays are the same in both, whatever the old ones were. If there are none, the old ones are
as they were. -/
theorem reopen_agree (hw : setup.Twins F setup') (hs : Alike setup τ s t)
    (hu : τ.Usable setup setup') {point : Tensor A} (hpoint : Suits setup setup' τ point)
    (layout : Layout) (hshape : point.shape ≠ s.work.iterate.shape) :
    Agree (fun _ => Alike setup { τ with frame := τ.frame.map (·.moved point), best := none })
      (fun s' t' => Alike setup { τ with best := none } s' t' ∨
        Alike setup { τ with frame := τ.frame.map (·.moved point), best := none } s' t')
      (reopen setup point layout) (reopen setup' point layout) s t := by
  have hmoved : ∀ g ∈ τ.frame.map (·.moved point), g = ⟨A.working point.kind, point.shape⟩ ∧
      ∃ k c, ResetCheck.forKind k setup.options.resetTolerance = .ok c := by
    intro g hg
    obtain ⟨f, hf, rfl⟩ := Option.map_eq_some_iff.mp hg
    refine ⟨if_neg fun h => hshape ?_, f.kind, s.resetCheck, hs.check f hf⟩
    exact h.trans (Tensor.shape_of_frame (hs.regular f hf).iterate).symm
  obtain ⟨hform, hrow⟩ := hpoint.fillable hs hu layout
  unfold reopen
  refine .get_seq ?_
  rw [hs.parameter, hs.evaluations, Origin.ready_congr hw.computes hw.computes' hw.conforms hform]
  have h₁ (n : Nat) : Alike setup { τ with best := none } { s with evaluations := τ.calls + n }
      { t with evaluations := n } := { hs.unfit with evaluations := rfl }
  refine .modify_seq (.same_seq (fun _ _ => .inl (h₁ _)) fun ready hready =>
    .modify_seq (.get_seq ?_))
  obtain ⟨hn, hiterate, -, hresidual, hfillable, -⟩ :=
    Origin.of_ready hw.computes' hw.conforms hready
  have hregular : (Workspace.allocate ready.fillable ready.iterate ready.residual).Regular
      ⟨A.working point.kind, point.shape⟩ :=
    Workspace.regular_allocate (.working _) hn (hiterate ▸ Origin.frame_iterate _) hresidual
      (Origin.fillable_of_ready hready)
  have hregular' : ∀ g ∈ τ.frame.map (·.moved point),
      (Workspace.allocate ready.fillable ready.iterate ready.residual).Regular g := by
    intro g hg
    rw [(hmoved g hg).1]
    exact hregular
  have hfillable' : ∀ g ∈ τ.frame.map (·.moved point), τ.fillable = true →
      ready.fillable = true := by
    intro g hg hτ
    obtain ⟨f, hf, -⟩ := Option.map_eq_some_iff.mp hg
    exact hfillable.trans (Origin.fillable_of_isRowwise (hrow f hf hτ) _)
  rw [← hw.resetTolerance, Tensor.kind_of_frame hregular.inverse]
  refine .same_seq (fun e he => .inr ?_) fun check hcheck =>
    .of_modify (hs.reallocated _ hregular' hfillable' fun g hg => ?_)
  · -- A check that could be made once can be made again, so the old one is kept in no frame.
    have hcheck : ∀ g ∈ τ.frame.map (·.moved point),
        ResetCheck.forKind g.kind setup.options.resetTolerance = .ok s.resetCheck := by
      intro g hg
      obtain ⟨-, k, c, hc⟩ := hmoved g hg
      obtain ⟨c', hc'⟩ := ResetCheck.forKind_working hc point.kind
      cases he.symm.trans hc'
    have hstale := hs.reallocated
      (Origin.ready { point, layout } setup'.residual t.parameter t.evaluations).2 hregular'
      hfillable' hcheck
    exact { hstale with resetCheck := hs.resetCheck }
  · rw [(hmoved g hg).1]
    exact hcheck

/-- At a point of the shape of the iterate the arrays are kept. -/
theorem stay_agree (hw : setup.Twins F setup') (hs : Alike setup τ s t)
    (hu : τ.Usable setup setup') {point : Tensor A}
    (hpoint : setup.engine = setup'.engine ∨ ∀ f ∈ τ.frame, point.kind = f.kind) (layout : Layout)
    (hshape : point.shape = s.work.iterate.shape) :
    Agree (fun _ => Alike setup τ) (Alike setup τ) (relocate setup point layout)
      (relocate setup' point layout) s t := by
  have hfit : ∀ f ∈ τ.frame, point.shape = f.shape := fun f hf =>
    hshape.trans (Tensor.shape_of_frame (hs.regular f hf).iterate)
  have hkind : setup.engine = setup'.engine ∨ ∀ f ∈ τ.frame, point.frame = f :=
    hpoint.imp_right fun h f hf => Tensor.frame_eq (h f hf) (hfit f hf)
  unfold relocate
  refine .get_seq ?_
  rw [← hs.work.iterate, if_pos hshape, if_pos hshape]
  refine .seq (moveTo_agree hw hs hu (fun _ _ h => h) hfit hkind) fun _ s₁ t₁ h₁ => ?_
  refine rework_agree h₁ (fun _ _ h => h) h₁.work.resetToIdentity fun f hf w hwork => ?_
  have hr := h₁.regular f hf
  simp only [Tensor.resetToIdentity_of_frame hr.inverse, bind, Except.bind, pure,
    Except.pure] at hwork
  obtain rfl := Except.ok.inj hwork
  exact ⟨{ hr with inverse := Tensor.frame_identity _ _ }, rfl⟩

/-- At a point of another shape there are new arrays. -/
theorem move_away_agree (hw : setup.Twins F setup') (hs : Alike setup τ s t)
    (hu : τ.Usable setup setup') {point : Tensor A} (hpoint : Suits setup setup' τ point)
    (layout : Layout) (hshape : point.shape ≠ s.work.iterate.shape) :
    Agree (fun _ => Alike setup { τ with frame := τ.frame.map (·.moved point), best := none })
      (fun s' t' => Alike setup { τ with best := none } s' t' ∨
        Alike setup { τ with frame := τ.frame.map (·.moved point), best := none } s' t')
      (relocate setup point layout) (relocate setup' point layout) s t := by
  unfold relocate
  refine .get_seq ?_
  rw [← hs.work.iterate, if_neg hshape, if_neg hshape]
  exact reopen_agree hw hs hu hpoint layout hshape

/-- What starting the monitor over answers and leaves, as one attempt on the monitor. -/
theorem outcome_renewMonitor (setup : Setup A P) (r : Restart A P) (s : Session A P) :
    (renewMonitor setup r).outcome s =
      match r.monitor setup.norm s.monitor s.tolerances s.work.residual s.work.iterate with
      | (.ok (), m) => (.ok (), { s with monitor := m, tolerances := m.tolerances })
      | (.error e, m) => (.error e, { s with monitor := m }) := by
  unfold renewMonitor
  rw [outcome_bind, outcome_get]
  dsimp only
  split
  case h_1 habsent =>
    simp only [Restart.monitor, habsent]
    rcases s.monitor.restart r.absolute r.relative setup.norm s.work.residual s.work.iterate with
      ⟨_ | _, m⟩ <;> rfl
  case h_2 hgiven =>
    simp only [Restart.monitor]
    generalize Monitor.make r.condition _ _ _ _ _ = made
    cases made <;> rfl

/-- The monitor that is started over has seen nothing but the iterate; one that is not keeps its
best iterate. -/
theorem renewMonitor_agree (hw : setup.Twins F setup') (hs : Alike setup τ s t)
    (r : Restart A P) :
    Agree (fun _ => Alike setup { τ with best := τ.frame }) (Alike setup τ) (renewMonitor setup r)
      (renewMonitor setup' r) s t := by
  unfold Agree
  rw [outcome_renewMonitor, outcome_renewMonitor, ← hs.monitor, ← hs.tolerances,
    ← hs.work.residual, ← hs.work.iterate, ← hw.norm]
  rcases hm : r.monitor setup.norm s.monitor s.tolerances s.work.residual s.work.iterate with
    ⟨_ | _, m⟩
  · have hbest := Restart.bestIterate_monitor (congrArg Prod.fst hm)
    rw [hm] at hbest
    exact ⟨rfl, { hs with monitor := rfl, tolerances := rfl, best := hbest ▸ hs.best }⟩
  · refine ⟨rfl, { hs with monitor := rfl, tolerances := rfl, best := fun f hf => ?_ }⟩
    obtain ⟨c, t, o, -, hstart⟩ := Restart.of_monitor (congrArg Prod.fst hm)
    rw [hm] at hstart
    obtain rfl : m = _ := hstart
    exact (hs.regular f hf).iterate

/-- Sessions that are alike are alike after a restart, in the frame of the new point. After one that
fails their arrays are so in the old frame or in the new one, but the best iterate may belong to
neither. -/
theorem restart_agree (hw : setup.Twins F setup') (hs : Alike setup τ s t)
    (hu : τ.Usable setup setup') {r : Restart A P}
    (hr : ∀ point ∈ r.point, Suits setup setup' τ point) :
    Agree (fun _ => Alike setup
        { τ with frame := τ.frame.map r.frame, best := τ.frame.map r.frame })
      (fun s' t' => Alike setup { τ with best := none } s' t' ∨
        Alike setup { τ with frame := τ.frame.map r.frame, best := none } s' t')
      (restart setup r) (restart setup' r) s t := by
  unfold restart
  refine .seq ((adopt_agree hs (fun _ _ h => h) r).mono (fun _ _ _ h => h) fun _ _ h =>
    .inl h.unfit) fun _ s₁ t₁ h₁ => .get_seq ?_
  rw [← h₁.work.iterate]
  have hiterate : ∀ f ∈ τ.frame, s₁.work.iterate.frame = f := fun f hf => (h₁.regular f hf).iterate
  have hpoint : Suits setup setup' τ (r.point.getD s₁.work.iterate) := by
    cases hp : r.point with
    | some point => exact hr point hp
    | none => exact .inr fun f hf => Tensor.kind_of_frame (hiterate f hf)
  have hframe : τ.frame.map r.frame = τ.frame.map (·.moved (r.point.getD s₁.work.iterate)) :=
    Option.map_congr fun f hf => r.frame_eq (hiterate f hf)
  rw [hframe]
  by_cases hshape : (r.point.getD s₁.work.iterate).shape = s₁.work.iterate.shape
  · have hsame : τ.frame.map (·.moved (r.point.getD s₁.work.iterate)) = τ.frame := by
      cases hτ : τ.frame with
      | none => rfl
      | some f =>
        exact congrArg some (if_pos (hshape.trans (Tensor.shape_of_frame (hiterate f hτ))))
    rw [hsame]
    have hstay := stay_agree hw h₁ hu (hpoint.imp_left And.left) r.layout hshape
    refine .seq (hstay.mono (fun _ _ _ h => h) fun _ _ h => .inl h.unfit) fun _ s₂ t₂ h₂ => ?_
    refine .seq ((renewMonitor_agree hw h₂ r).mono (fun _ _ _ h => h) fun _ _ h => .inl h.unfit)
      fun _ s₃ t₃ h₃ => .of_modify ?_
    exact { h₃ with statistics := rfl, resets := rfl, stopped := rfl, status := rfl }
  · refine .seq (move_away_agree hw h₁ hu hpoint r.layout hshape) fun _ s₂ t₂ h₂ => ?_
    refine .seq ((renewMonitor_agree hw h₂ r).mono (fun _ _ _ h => h) fun _ _ h => .inr h)
      fun _ s₃ t₃ h₃ => .of_modify ?_
    exact { h₃ with statistics := rfl, resets := rfl, stopped := rfl, status := rfl }

end Session

end QuasiNewton
