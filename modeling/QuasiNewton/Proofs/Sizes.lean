import QuasiNewton.Proofs.Judgements
import QuasiNewton.Proofs.Workable

/-!
# Shapes of iterates

A step keeps the shape of the iterate, and the best iterate has been visited. So what holds of the
shapes of both holds after steps, whatever the residual function answers and whichever steps fail.
A start refuses an empty point, so that neither of the two is ever empty.
-/

namespace QuasiNewton

open QuasiNewton.Action

variable {A : Arithmetic} {P : Type} {setup : Setup A P} {s s' : Session A P}

/-- A difference within one shape keeps it. -/
theorem Tensor.shape_of_sub {a b c : Tensor A} (h : a.sub b = .ok c) (hshape : a.shape = b.shape) :
    c.shape = a.shape := by
  unfold sub at h
  split at h
  · obtain ⟨c', hc, hc'⟩ := exists_combine hshape id A.sub
    obtain rfl := Except.ok.inj (hc.symm.trans h)
    exact hc'
  · cases h

/-- A move keeps the shape of the iterate or takes that of the point. -/
theorem Workspace.shape_of_moveTo {e : Engine} {w w' : Workspace A} {point : Tensor A}
    (h : w.moveTo e point = .ok w') :
    w'.iterate.shape = w.iterate.shape ∨ w'.iterate.shape = point.shape := by
  cases e with
  | inPlace =>
    obtain ⟨u, hu, h⟩ := Attempt.bind_eq_ok.mp h
    obtain ⟨v, -, h⟩ := Attempt.bind_eq_ok.mp h
    cases h
    exact .inl (Tensor.shape_congr (Tensor.frame_of_copyInto hu))
  | rebuilding =>
    cases h
    exact .inr (Tensor.shape_castTo _ _)

namespace Session

/-! ## Where a session is -/

/-- Where a session is and what its monitor has seen. -/
def iterateAndMonitor (s : Session A P) : Tensor A × Monitor A := (s.work.iterate, s.monitor)

/-- To settle the caller's array leaves iterate and monitor alone. -/
theorem iterateAndMonitor_settleOrigin (setup : Setup A P) :
    (settleOrigin setup).Keeps iterateAndMonitor :=
  keeps_settleOrigin setup fun _ _ _ => rfl

/-- So does an evaluation. -/
theorem iterateAndMonitor_evaluate (setup : Setup A P) (array : Tensor A) :
    (evaluate setup array).Keeps iterateAndMonitor :=
  keeps_evaluate setup (fun _ _ => rfl) array

/-- So does a line about an event. -/
theorem iterateAndMonitor_log (setup : Setup A P) (what : Event A.Real) :
    (log setup what).Keeps iterateAndMonitor :=
  (keeps_log setup what).map iterateAndMonitor

/-- So does the evaluation at the point reached. -/
theorem iterateAndMonitor_evaluateTrial (setup : Setup A P) :
    (evaluateTrial setup).Keeps iterateAndMonitor := by
  refine .get_bind fun _ => .bind (iterateAndMonitor_evaluate setup _) fun _ => ?_
  exact .bind (.of_modify fun _ => rfl) fun _ => .of_modify fun _ => rfl

/-- The second half of a step that goes on stays where it is. -/
theorem iterateAndMonitor_refine (setup : Setup A P) :
    (refine setup).Keeps iterateAndMonitor := by
  have hiterate := (keeps_reached_refine setup).map (·.1.1)
  have hmonitor := (settingsAndCalls_refine setup).map (·.2.1)
  exact fun s => Prod.ext (hiterate s) (hmonitor s)

/-- The shapes of the iterate and of the best iterate have a property. -/
structure Shaped (Q : Shape → Prop) (s : Session A P) : Prop where
  iterate : Q s.work.iterate.shape
  best : Q s.monitor.bestIterate.shape

section

variable {Q : Shape → Prop}

/-- To be shaped is a matter of the arrays and the best iterate. -/
theorem shaped_iff {Q : Shape → Prop} (s : Session A P) :
    s.Shaped Q ↔ s.Maintains (fun w => Q w.iterate.shape) fun b => Q b.shape :=
  ⟨fun h => ⟨h.iterate, h.best⟩, fun h => ⟨h.arrays, h.best⟩⟩

/-- To be shaped is a matter of iterate and monitor. -/
theorem Shaped.of_iterateAndMonitor (h : s.Shaped Q)
    (hsame : s'.iterateAndMonitor = s.iterateAndMonitor) : s'.Shaped Q := by
  obtain ⟨hiterate, hmonitor⟩ := Prod.mk.inj hsame
  constructor
  · rw [hiterate]
    exact h.iterate
  · rw [hmonitor]
    exact h.best

/-- What keeps the two keeps a session shaped. -/
theorem Shaped.kept {α : Type} {x : Action A P α} (h : s.Shaped Q)
    (hx : x.Keeps iterateAndMonitor) :
    Upholds (fun _ => Shaped Q) (Shaped Q) x s :=
  .of_keeps hx fun _ => h.of_iterateAndMonitor

/-! ## Steps -/

/-- The first half of a step keeps the shape of the iterate. -/
theorem Shaped.probe (hs : s.Ordered setup) (h : s.Shaped Q) :
    Upholds (fun _ => Shaped Q) (Shaped Q) (Session.probe setup) s := by
  have hI := Workspace.stable_ordered setup
  refine .seq (m := fun _ s₁ => s₁.Ordered setup ∧ s₁.Shaped Q ∧
    s₁.work.iterate.shape = s₁.work.direction.shape)
    (.of_rework (fun w hw => ?_) fun _ _ => h) fun _ s₁ h₁ => ?_
  · have hw' := hI.aim hs hw
    obtain ⟨_, d, -, hd, rfl⟩ := Workspace.Ordered.of_aim hs hw
    have hshape := Workspace.Ordered.shape_turned hs (Tensor.shape_of_reshape hd)
    exact ⟨hw', ⟨h.iterate, h.best⟩, hshape.symm⟩
  have hlength : (stepLength : Action A P A.Real).Keeps workAndMonitor :=
    keeps_stepLength fun _ _ => rfl
  refine .seq (m := fun _ s₂ => s₂.work = s₁.work ∧ s₂.Shaped Q)
    ((Upholds.of_keeps hlength fun s₂ h₂ => ?_).mono (fun _ _ h₂ => h₂) fun _ h₂ => h₂.2)
    fun length s₂ h₂ => ?_
  · obtain ⟨hwork, hmonitor⟩ := Prod.mk.inj h₂
    have hsame : s₂.iterateAndMonitor = s₁.iterateAndMonitor :=
      Prod.ext (congrArg Workspace.iterate hwork) hmonitor
    exact ⟨hwork, h₁.2.1.of_iterateAndMonitor hsame⟩
  refine .seq (m := fun _ => Shaped Q) (.of_rework (fun w hw => ?_) fun _ _ => h₂.2)
    fun _ s₃ h₃ => ?_
  · rw [h₂.1] at hw
    obtain ⟨u, hu, rfl⟩ := Workspace.Ordered.of_advance h₁.1 hw
    have hshape := Tensor.shape_of_sub hu h₁.2.2
    refine ⟨?_, h₂.2.best⟩
    rw [hshape]
    exact h₁.2.1.iterate
  exact h₃.kept (.bind (iterateAndMonitor_settleOrigin setup) fun _ =>
    iterateAndMonitor_evaluateTrial setup)

/-- A move to a point of a shape with the property keeps a session shaped. -/
theorem Shaped.moveTo (h : s.Shaped Q) {point : Tensor A} (hp : Q point.shape) :
    Upholds (fun _ => Shaped Q) (Shaped Q) (Session.moveTo setup point) s := by
  refine .seq (m := fun _ => Shaped Q) (.of_rework (fun w hw => ?_) fun _ _ => h) fun _ s₁ h₁ => ?_
  · refine ⟨?_, h.best⟩
    rcases Workspace.shape_of_moveTo hw with hshape | hshape
    · rw [hshape]
      exact h.iterate
    · rw [hshape]
      exact hp
  · exact h₁.kept (.bind (iterateAndMonitor_settleOrigin setup) fun _ => .get_bind fun _ =>
      .bind (iterateAndMonitor_evaluate setup _) fun _ => .of_modify fun _ => rfl)

/-- So does the end of a session, which may return to the best iterate. -/
theorem Shaped.conclude (h : s.Shaped Q) :
    Upholds (fun _ => Shaped Q) (Shaped Q) (Session.conclude setup) s := by
  have h₁ : ({ s with status := s.monitor.status, stopped := true } : Session A P).Shaped Q :=
    ⟨h.iterate, h.best⟩
  refine .modify_seq (.seq (m := fun _ => Shaped Q) (.of_rework (fun w hw => ?_) fun _ _ => h₁)
    fun _ s₂ h₂ => .get_seq ?_)
  · have hiterate : w.iterate = s.work.iterate := congrArg Prod.fst (Workspace.reached_commit hw)
    exact h₁.of_iterateAndMonitor (Prod.ext hiterate rfl)
  · split
    · refine .get_seq (.seq (h₂.moveTo h₂.best) fun _ s₃ h₃ => ?_)
      exact h₃.kept (.bind (.of_modify fun _ => rfl) fun _ => .get_bind fun _ =>
        iterateAndMonitor_log setup _)
    · exact .of_pure h₂

/-- So does the monitor's answer, which may remember the iterate as the best one. -/
theorem Shaped.consult (h : s.Shaped Q) :
    Upholds (fun _ => Shaped Q) (Shaped Q) (Session.consult setup) s :=
  (Upholds.congr shaped_iff).mpr (((shaped_iff s).mp h).consult h.iterate)

/-- So does a whole step of a session in order. -/
theorem Shaped.advance (hs : s.Ordered setup) (h : s.Shaped Q) :
    Upholds (fun _ => Shaped Q) (Shaped Q) (Session.advance setup) s := by
  have hs₁ : ({ s with statistics := s.statistics.bump .steps 1 } : Session A P).Ordered setup := hs
  have h₁ : ({ s with statistics := s.statistics.bump .steps 1 } : Session A P).Shaped Q :=
    ⟨h.iterate, h.best⟩
  refine .modify_seq (.seq (h₁.probe hs₁) fun _ s₂ h₂ => .seq h₂.consult fun stop s₃ h₃ => ?_)
  split
  · exact h₃.conclude
  · exact h₃.kept (iterateAndMonitor_refine setup)

/-- Steps and runs of a session in order keep what holds of the two shapes. -/
theorem invariant_shaped (setup : Setup A P) (Q : Shape → Prop) :
    Invariant setup (fun s => s.Ordered setup ∧ s.Shaped Q)
      fun s => s.Ordered setup ∧ s.Shaped Q where
  advance := fun hs _ => ((Workspace.stable_ordered setup).session_advance hs.1).and
    (hs.2.advance hs.1)
  exhaust := fun hs _ => ⟨hs.1, hs.2.iterate, hs.2.best⟩
  lines := fun _ hs => ⟨hs.1, hs.2.iterate, hs.2.best⟩
  weaken := fun hs => hs

/-! ## Restarts -/

/-- A move to a new point goes to one of the shape of the iterate, or makes new arrays. What holds
of the shapes of all points that are ready survives it. -/
theorem Shaped.relocate (hQ : ∀ {origin : Origin A} {p : P} {n : Nat} {ready : Ready A},
      (origin.ready setup.residual p n).1 = .ok ready → Q ready.iterate.shape)
    (h : s.Shaped Q) (point : Tensor A) (layout : Layout) :
    Upholds (fun _ => Shaped Q) (Shaped Q) (Session.relocate setup point layout) s := by
  refine .get_seq ?_
  split
  case isTrue hshape =>
    have hpoint : Q point.shape := hshape ▸ h.iterate
    refine .seq (h.moveTo hpoint) fun _ s₁ h₁ => h₁.kept (.of_rework fun s w hw => ?_)
    obtain ⟨inverse, -, hw⟩ := Attempt.bind_eq_ok.mp hw
    obtain rfl := Attempt.pure_eq_ok.mp hw
    rfl
  case isFalse =>
    have hstay (calls : Nat) : ({ s with evaluations := calls } : Session A P).Shaped Q :=
      ⟨h.iterate, h.best⟩
    refine .get_seq (.modify_seq (.attempt_seq (fun _ _ => hstay _) fun ready hready =>
      .modify_seq (.get_seq ?_)))
    exact .attempt_seq (fun _ _ => ⟨hQ hready, h.best⟩) fun check _ =>
      .of_modify ⟨hQ hready, h.best⟩

/-- So it does a restart. -/
theorem Shaped.restart (hQ : ∀ {origin : Origin A} {p : P} {n : Nat} {ready : Ready A},
      (origin.ready setup.residual p n).1 = .ok ready → Q ready.iterate.shape)
    (h : s.Shaped Q) (r : Restart A P) :
    Upholds (fun _ => Shaped Q) (Shaped Q) (Session.restart setup r) s :=
  (Upholds.congr shaped_iff).mpr (((shaped_iff s).mp h).restart (fun _ h => h) fun s hs =>
    (Upholds.congr shaped_iff).mp (((shaped_iff s).mpr hs).relocate hQ _ _))

end

/-! ## Sizes -/

/-- Neither the iterate nor the best iterate is empty. -/
abbrev Populated : Session A P → Prop := Shaped (·.size ≠ 0)

/-- A starting point that is ready is not empty. -/
theorem size_of_ready {origin : Origin A} {p : P} {n : Nat} {ready : Ready A}
    (h : (origin.ready setup.residual p n).1 = .ok ready) : ready.iterate.size ≠ 0 := by
  obtain ⟨u, v, hsize, hu, -, -, rfl⟩ := Origin.ready_eq_ok h
  rw [Tensor.size, Tensor.shape_castTo, hu, Tensor.shape_castTo]
  exact hsize

/-- A start leaves neither of the two empty. -/
theorem populated_start {request : Request A P} {n : Nat}
    (h : start setup request = (.ok s, n)) : s.Populated := by
  obtain ⟨budget, ready, c, tolerances, objective, check, rule, hready, -, rfl⟩ := of_start h
  have hsize := size_of_ready (congrArg Prod.fst hready)
  exact ⟨hsize, hsize⟩

/-- Over every history of solving neither the iterate nor the best iterate is empty. -/
theorem populated_after {request : Request A P} {s₀ : Session A P} {n : Nat}
    (hstart : start setup request = (.ok s₀, n)) {ops : List (Operation A P)}
    (hops : ∀ op ∈ ops, op.IsSolving) : (after setup s₀ ops).Populated := by
  have hI := Workspace.stable_ordered setup
  have hafter := (invariant_shaped setup (·.size ≠ 0)).after_of_robust hops
    (fun s r _ hs => (hI.restart hs.1 r).and (hs.2.restart size_of_ready r))
    ⟨hI.start hstart, populated_start hstart⟩
  exact hafter.2

end Session

end QuasiNewton
