import QuasiNewton.Proofs.Beginnings

/-!
# Histories

A history is a list of operations on a session, each of which answers or fails. Over a history of
steps, runs and restarts the arrays of a session that was started stay regular, and two sessions
that are alike answer alike and stay alike, as long as steps are taken only while the best iterate
belongs to the arrays. A restart that fails may have made new arrays but left the monitor with a
best iterate for the old ones.
-/

namespace QuasiNewton

open QuasiNewton.Action

variable {A : Arithmetic} {P : Type}

namespace Operation

/-- Is the operation one of solving? The others write to a session by hand. -/
def IsSolving : Operation A P → Prop
  | .steps _ | .run | .restart _ => True
  | .setResidual _ | .setInverse _ | .setStopped _ => False

instance (op : Operation A P) : Decidable op.IsSolving :=
  match op with
  | .steps _ | .run | .restart _ => .isTrue trivial
  | .setResidual _ | .setInverse _ | .setStopped _ => .isFalse id

/-- Does the operation take steps? -/
def TakesSteps : Operation A P → Prop
  | .steps _ | .run => True
  | _ => False

instance (op : Operation A P) : Decidable op.TakesSteps :=
  match op with
  | .steps _ | .run => .isTrue trivial
  | .restart _ | .setResidual _ | .setInverse _ | .setStopped _ => .isFalse id

/-- Taking steps is part of solving. -/
theorem TakesSteps.isSolving {op : Operation A P} (h : op.TakesSteps) : op.IsSolving := by
  cases op with
  | steps n => trivial
  | run => trivial
  | _ => exact h.elim

/-- The point of a restart. -/
def point : Operation A P → Option (Tensor A)
  | .restart r => r.point
  | _ => none

/-- The frame of a solve after an operation that answered. -/
def frame : Operation A P → Frame A → Frame A
  | .restart r => r.frame
  | _ => id

/-- A point of the kind of the arrays leaves them in their kind. -/
theorem kind_frame {op : Operation A P} {f : Frame A} (hf : A.IsWorking f.kind)
    (h : ∀ point ∈ op.point, point.kind = f.kind) : (op.frame f).kind = f.kind := by
  cases op with
  | restart r =>
    change (r.frame f).kind = f.kind
    unfold Restart.frame
    cases hp : r.point with
    | none => rfl
    | some point =>
      have hkind : point.kind = f.kind := h point hp
      simp only [Frame.moved]
      split
      · rfl
      · rw [hkind]
        exact hf
  | _ => rfl

end Operation

namespace Session

/-- The session after an operation, whether that answered or failed. -/
def next (setup : Setup A P) (s : Session A P) (op : Operation A P) : Session A P :=
  ((perform setup op).outcome s).2

/-- The session after a history. -/
def after (setup : Setup A P) (s : Session A P) (ops : List (Operation A P)) : Session A P :=
  ops.foldl (next setup) s

/-- Does the best iterate of the monitor belong to the arrays? -/
def Fits (s : Session A P) : Prop := s.monitor.bestIterate.frame = s.work.iterate.frame

/-- What the operations of a history answer. -/
def answers (setup : Setup A P) :
    Session A P → List (Operation A P) → List (Attempt A (Option (Report A)))
  | _, [] => []
  | s, op :: ops => ((perform setup op).outcome s).1 :: answers setup (next setup s op) ops

/-- Every operation of a history answers. -/
def Completes (setup : Setup A P) : Session A P → List (Operation A P) → Prop
  | _, [] => True
  | s, op :: ops =>
    (∃ a, ((perform setup op).outcome s).1 = .ok a) ∧ Completes setup (next setup s op) ops

/-- Steps are taken only while the best iterate belongs to the arrays. -/
def Fitting (setup : Setup A P) : Session A P → List (Operation A P) → Prop
  | _, [] => True
  | s, op :: ops => (op.TakesSteps → s.Fits) ∧ Fitting setup (next setup s op) ops

section

variable {setup : Setup A P}

instance (s : Session A P) : Decidable s.Fits := inferInstanceAs (Decidable (_ = _))

instance {α : Type} (x : Attempt A α) : Decidable (∃ a, x = .ok a) :=
  match x with
  | .ok a => .isTrue ⟨a, rfl⟩
  | .error _ => .isFalse fun h => by
      obtain ⟨a, h⟩ := h
      cases h

/-- Whether every operation answers can be tried out. -/
instance Completes.decidable : ∀ s ops, Decidable (Completes setup s ops)
  | _, [] => .isTrue trivial
  | s, op :: ops =>
    have := Completes.decidable (next setup s op) ops
    inferInstanceAs (Decidable ((∃ _, _) ∧ _))

instance Fitting.decidable : ∀ s ops, Decidable (Fitting setup s ops)
  | _, [] => .isTrue trivial
  | s, op :: ops =>
    have := Fitting.decidable (next setup s op) ops
    inferInstanceAs (Decidable ((op.TakesSteps → s.Fits) ∧ _))

end

/-- A history may be taken apart. -/
theorem after_append (setup : Setup A P) (s : Session A P) (ops ops' : List (Operation A P)) :
    after setup s (ops ++ ops') = after setup (after setup s ops) ops' :=
  List.foldl_append

/-- A history answers if its parts do. -/
theorem Completes.append {setup : Setup A P} {s : Session A P} {ops ops' : List (Operation A P)}
    (h : Completes setup s ops) (h' : Completes setup (after setup s ops) ops') :
    Completes setup s (ops ++ ops') := by
  induction ops generalizing s with
  | nil => exact h'
  | cons op ops ih => exact ⟨h.1, ih h.2 h'⟩

section

variable {F : Tensor A → P → Attempt A (Tensor A)} {setup setup' : Setup A P} {τ : Tie A}
  {s t : Session A P}

/-- Sessions that are alike are alike after an operation of solving, in the frame it leads to. After
one that fails their arrays are so in the old frame or in the new one. -/
theorem perform_agree (hw : setup.Twins F setup') (hs : Alike setup τ s t)
    (hu : τ.Usable setup setup') {op : Operation A P} (hop : op.IsSolving)
    (hb : op.TakesSteps → τ.best = τ.frame)
    (hpoint : ∀ point ∈ op.point, Suits setup setup' τ point) :
    Agree (fun _ => Alike setup
        { τ with frame := τ.frame.map op.frame, best := τ.frame.map op.frame })
      (fun s' t' => Alike setup { τ with best := none } s' t' ∨
        Alike setup { τ with frame := τ.frame.map op.frame, best := none } s' t')
      (perform setup op) (perform setup' op) s t := by
  have hstay : ∀ s' t', Alike setup τ s' t' → Alike setup { τ with best := none } s' t' ∨
      Alike setup { τ with frame := τ.frame.map op.frame, best := none } s' t' :=
    fun _ _ h => .inl h.unfit
  have hsame (h : τ.best = τ.frame) :
      { τ with frame := τ.frame.map id, best := τ.frame.map id } = τ := by
    obtain ⟨known, searches, calls, earlier, frame, best, fillable⟩ := τ
    obtain rfl : best = frame := h
    simp only [Option.map_id_fun, id]
  cases op with
  | steps n =>
    rw [show Operation.frame (.steps n : Operation A P) = id from rfl, hsame (hb trivial)]
    exact .seq (steps_agree hw hs hu hstay (hb trivial) n) fun _ _ _ h => .of_pure rfl h
  | run =>
    rw [show Operation.frame (.run : Operation A P) = id from rfl, hsame (hb trivial)]
    exact .seq (run_agree hw hs hu hstay (hb trivial)) fun _ _ _ h => .of_pure rfl h
  | restart r => exact .seq (restart_agree hw hs hu hpoint) fun _ _ _ h => .of_pure rfl h
  | setResidual t => exact hop.elim
  | setInverse t => exact hop.elim
  | setStopped b => exact hop.elim

/-- The same over a history. The frame of the arrays may change. -/
theorem after_agree (hw : setup.Twins F setup') {f : Frame A}
    (hs : Alike setup { τ with frame := some f, best := none } s t)
    (hu : setup.engine = setup'.engine ∨ τ.fillable = true ∧ A.AddsOuter f.kind)
    {ops : List (Operation A P)} (hops : ∀ op ∈ ops, op.IsSolving) (hfit : Fitting setup s ops)
    (hpoint : (setup.engine = setup'.engine ∧ τ.fillable = false) ∨
      ∀ op ∈ ops, ∀ point ∈ op.point, point.kind = f.kind) :
    answers setup s ops = answers setup' t ops ∧
      ∃ g, Alike setup { τ with frame := some g, best := none } (after setup s ops)
        (after setup' t ops) := by
  induction ops generalizing s t f with
  | nil => exact ⟨rfl, f, hs⟩
  | cons op ops ih =>
    obtain ⟨b, hb, hs'⟩ : ∃ b : Option (Frame A), (op.TakesSteps → b = some f) ∧
        Alike setup { τ with frame := some f, best := b } s t := by
      by_cases hsteps : op.TakesSteps
      · refine ⟨some f, fun _ => rfl, { hs with best := fun g hg => ?_ }⟩
        exact (hfit.1 hsteps).trans (hs.regular g hg).iterate
      · exact ⟨none, fun h => absurd h hsteps, hs⟩
    have hsuits : ∀ point ∈ op.point,
        Suits setup setup' { τ with frame := some f, best := b } point := by
      intro point hp
      refine hpoint.imp_right fun h g hg => ?_
      obtain rfl : f = g := Option.some.inj hg
      exact h op List.mem_cons_self point hp
    have husable : Tie.Usable { τ with frame := some f, best := b } setup setup' :=
      hu.imp_right fun ⟨hτ, hA⟩ => ⟨hτ, f, rfl, hA⟩
    have hstep := perform_agree hw hs' husable (hops op List.mem_cons_self) hb hsuits
    obtain ⟨g, hg, hkind⟩ : ∃ g : Frame A,
        Alike setup { τ with frame := some g, best := none } (next setup s op) (next setup' t op) ∧
        ((∀ point ∈ op.point, point.kind = f.kind) → g.kind = f.kind) := by
      rcases hstep.after (fun _ _ _ h => .inr h.unfit) fun _ _ h => h with h | h
      · exact ⟨f, h, fun _ => rfl⟩
      · exact ⟨op.frame f, h, Operation.kind_frame (hs.regular f rfl).working⟩
    have hkeep : (setup.engine = setup'.engine ∧ τ.fillable = false) ∨
        ∀ op' ∈ ops, ∀ point ∈ op'.point, point.kind = g.kind := by
      refine hpoint.imp_right fun h op' hop' point hp => ?_
      rw [hkind (h op List.mem_cons_self)]
      exact h op' (List.mem_cons_of_mem _ hop') point hp
    have hu' : setup.engine = setup'.engine ∨ τ.fillable = true ∧ A.AddsOuter g.kind := by
      rcases hpoint with ⟨he, -⟩ | h
      · exact .inl he
      · rwa [hkind (h op List.mem_cons_self)]
    obtain ⟨hrest, hafter⟩ :=
      ih hg hu' (fun op' h => hops op' (List.mem_cons_of_mem _ h)) hfit.2 hkeep
    refine ⟨?_, hafter⟩
    rw [answers, answers, hstep.answer_eq, hrest]

/-- Over a history arrays and settings stay together. -/
theorem Composed.after (hR : setup.residual.Computes F) (hF : Residual.Conforms F) {f : Frame A}
    (hs : s.Composed setup f) {ops : List (Operation A P)} (hops : ∀ op ∈ ops, op.IsSolving)
    (hfit : Fitting setup s ops) : ∃ g, (Session.after setup s ops).Composed setup g := by
  obtain ⟨-, g, hg⟩ := after_agree (τ := Tie.same f) (.refl hR hF) (composed_iff_alike.mp hs)
    (.inl rfl) hops hfit (.inl ⟨rfl, rfl⟩)
  exact ⟨g, composed_iff_alike.mpr hg⟩

/-- From a starting point that is stored row by row, over a history at points of the kind of the
arrays, the direction takes rows all along. -/
theorem fillable_after (hR : setup.residual.Computes F) (hF : Residual.Conforms F)
    {request : Request A P} {n : Nat} (hstart : start setup request = (.ok s, n))
    (hrow : request.origin.isRowwise = true) {ops : List (Operation A P)}
    (hops : ∀ op ∈ ops, op.IsSolving)
    (hpoint : ∀ op ∈ ops, ∀ point ∈ op.point, point.kind = request.origin.frame.kind)
    (hfit : Fitting setup s ops) : (Session.after setup s ops).work.fillable = true := by
  have hself := (regular_start hR hF hstart).alike_rowwise (fillable_start hR hF hstart hrow)
  obtain ⟨-, g, hg⟩ := after_agree (τ := Tie.rowwise request.origin.frame) (.refl hR hF) hself
    (.inl rfl) hops hfit (.inr hpoint)
  exact hg.fillable g rfl rfl

/-- If every operation of a history answers, the best iterate always belongs to the arrays. -/
theorem Regular.fitting (hR : setup.residual.Computes F) (hF : Residual.Conforms F) {f : Frame A}
    (hs : s.Regular setup f) {ops : List (Operation A P)} (hops : ∀ op ∈ ops, op.IsSolving)
    (hanswer : Completes setup s ops) : Fitting setup s ops := by
  induction ops generalizing s f with
  | nil => trivial
  | cons op ops ih =>
    obtain ⟨⟨a, ha⟩, hrest⟩ := hanswer
    refine ⟨fun _ => hs.best.trans hs.work.iterate.symm, ?_⟩
    have hstep := perform_agree (.refl hR hF) (regular_iff_alike.mp hs) (.inl rfl)
      (hops op List.mem_cons_self) (fun _ => rfl) fun _ _ => .inl ⟨rfl, rfl⟩
    obtain ⟨t, ht, halike⟩ := hstep.of_ok (Prod.ext ha rfl)
    obtain rfl : next setup s op = t := congrArg Prod.snd ht
    have hnext : (next setup s op).Regular setup (op.frame f) := regular_iff_alike.mpr halike
    exact ih hnext (fun op' h => hops op' (List.mem_cons_of_mem _ h)) hrest

/-- Sessions with one engine that are alike regardless of frames stay so over every operation. -/
theorem perform_agree_loose (hw : setup.Twins F setup') (he : setup.engine = setup'.engine)
    (hs : Alike setup { τ with frame := none, best := none } s t) (op : Operation A P) :
    Agree (fun _ => Alike setup { τ with frame := none, best := none })
      (Alike setup { τ with frame := none, best := none }) (perform setup op) (perform setup' op)
      s t := by
  have hnone {f : Frame A} (hf : f ∈ (none : Option (Frame A))) : False := by cases hf
  by_cases hop : op.IsSolving
  · have hsuits (point : Tensor A) :
        Suits setup setup' { τ with frame := none, best := none } point :=
      .inr fun f hf => (hnone hf).elim
    exact (perform_agree hw hs (.inl he) hop (fun _ => rfl) fun point _ => hsuits point).mono
      (fun _ _ _ h => h) fun _ _ h => h.elim id id
  · cases op with
    | setResidual v =>
      have hcorr := hs.work.setResidual setup.engine v
      refine .seq (rework_agree hs (fun _ _ h => h) (he ▸ hcorr) fun f hf w _ => (hnone hf).elim)
        fun _ _ _ h => .of_pure rfl h
    | setInverse m =>
      refine .seq (rework_agree hs (fun _ _ h => h) (hs.work.setInverse m)
        fun f hf w _ => (hnone hf).elim) fun _ _ _ h => .of_pure rfl h
    | setStopped b =>
      exact .modify_seq (.of_pure rfl { hs with stopped := rfl })
    | _ => exact absurd trivial hop

/-- The same over any history. -/
theorem after_agree_loose (hw : setup.Twins F setup') (he : setup.engine = setup'.engine)
    (hs : Alike setup { τ with frame := none, best := none } s t) (ops : List (Operation A P)) :
    answers setup s ops = answers setup' t ops ∧
      Alike setup { τ with frame := none, best := none } (after setup s ops)
        (after setup' t ops) := by
  induction ops generalizing s t with
  | nil => exact ⟨rfl, hs⟩
  | cons op ops ih =>
    have hstep := perform_agree_loose hw he hs op
    obtain ⟨hrest, hafter⟩ := ih (hstep.after (fun _ _ _ h => h) fun _ _ h => h)
    refine ⟨?_, hafter⟩
    rw [answers, answers, hstep.answer_eq]
    exact congrArg _ hrest

end

end Session

end QuasiNewton
