import QuasiNewton.Proofs.Invariants
import QuasiNewton.Proofs.Ordered

/-!
# Properties of the arrays

What every move of the arrays preserves, every operation of solving preserves, whether it answers or
fails and whatever the residual function answers. Moves to a point may ask something of the point;
then the best iterate has to have it, since a step may return there. Order is a property that asks
nothing, and in order it is enough to look at the replacing form of every move.
-/

namespace QuasiNewton

open QuasiNewton.Action

variable {A : Arithmetic} {P : Type} {α : Type} {setup : Setup A P} {s s' : Session A P}

/-- A property of arrays that every move of a step preserves, as long as it goes to points with a
property that the iterates of such arrays have. -/
structure Workspace.Enduring (setup : Setup A P) (I : Workspace A → Prop) (Q : Tensor A → Prop) :
    Prop where
  iterate : ∀ {w}, I w → Q w.iterate
  aim : ∀ {w w'}, I w → w.aim setup.engine = .ok w' → I w'
  advance : ∀ {w w' length}, I w → w.advance setup.engine length = .ok w' → I w'
  trial : ∀ {w v n p}, I w → (setup.residual.evaluate n w.trial w.iterate p).1 = .ok v →
    I { w with trial := v }
  compare : ∀ {w w'}, I w → w.compare setup.engine = .ok w' → I w'
  commit : ∀ {w w'}, I w → w.commit setup.engine = .ok w' → I w'
  reset : ∀ {w w'}, I w → w.reset setup.engine = .ok w' → I w'
  correct : ∀ {w x}, I w → w.correct setup.engine = .ok x → I x.1
  moveTo : ∀ {w w' point}, I w → Q point → w.moveTo setup.engine point = .ok w' → I w'
  residual : ∀ {w v n p}, I w → (setup.residual.evaluate n w.residual w.iterate p).1 = .ok v →
    I { w with residual := v }

/-- A property of arrays that every move of a step preserves. -/
structure Workspace.Steady (setup : Setup A P) (I : Workspace A → Prop) : Prop where
  aim : ∀ {w w'}, I w → w.aim setup.engine = .ok w' → I w'
  advance : ∀ {w w' length}, I w → w.advance setup.engine length = .ok w' → I w'
  trial : ∀ {w v n p}, I w → (setup.residual.evaluate n w.trial w.iterate p).1 = .ok v →
    I { w with trial := v }
  compare : ∀ {w w'}, I w → w.compare setup.engine = .ok w' → I w'
  commit : ∀ {w w'}, I w → w.commit setup.engine = .ok w' → I w'
  reset : ∀ {w w'}, I w → w.reset setup.engine = .ok w' → I w'
  correct : ∀ {w x}, I w → w.correct setup.engine = .ok x → I x.1
  moveTo : ∀ {w w' point}, I w → w.moveTo setup.engine point = .ok w' → I w'
  residual : ∀ {w v n p}, I w → (setup.residual.evaluate n w.residual w.iterate p).1 = .ok v →
    I { w with residual := v }

/-- A property of arrays that every move of a session preserves. -/
structure Workspace.Stable (setup : Setup A P) (I : Workspace A → Prop) : Prop extends
    Steady setup I where
  allocate : ∀ {origin : Origin A} {p n ready}, (origin.ready setup.residual p n).1 = .ok ready →
    I (allocate ready.fillable ready.iterate ready.residual)
  identity : ∀ {w m}, I w → w.inverse.resetToIdentity = .ok m → I { w with inverse := m }

namespace Session

variable {I : Workspace A → Prop} {Q : Tensor A → Prop}

/-- The arrays have a property, and the best iterate has one. -/
structure Maintains (I : Workspace A → Prop) (Q : Tensor A → Prop) (s : Session A P) : Prop where
  arrays : I s.work
  best : Q s.monitor.bestIterate

/-- Arrays and best iterate have their properties after the action, whether it answers or fails. -/
abbrev Sustains (I : Workspace A → Prop) (Q : Tensor A → Prop) (x : Action A P α)
    (s : Session A P) : Prop :=
  Upholds (fun _ => Maintains I Q) (Maintains I Q) x s

/-- The arrays and the monitor. -/
def workAndMonitor (s : Session A P) : Workspace A × Monitor A := (s.work, s.monitor)

/-- To have the properties is a matter of arrays and monitor. -/
theorem Maintains.of_workAndMonitor (hs : s.Maintains I Q)
    (h : s'.workAndMonitor = s.workAndMonitor) : s'.Maintains I Q := by
  obtain ⟨hwork, hmonitor⟩ := Prod.mk.inj h
  constructor
  · rw [hwork]
    exact hs.arrays
  · rw [hmonitor]
    exact hs.best

/-- What leaves arrays and monitor alone leaves them with their properties. -/
theorem Maintains.kept {x : Action A P α} (hs : s.Maintains I Q) (hx : x.Keeps workAndMonitor) :
    Sustains I Q x s :=
  .of_keeps hx fun _ => hs.of_workAndMonitor

/-- To log an event leaves them. -/
theorem Maintains.log (hs : s.Maintains I Q) (setup : Setup A P) (what : Event A.Real) :
    Sustains I Q (Session.log setup what) s :=
  hs.kept ((keeps_log setup what).map workAndMonitor)

/-- A change of the arrays that preserves their property leaves them. -/
theorem Maintains.rework {g : Workspace A → Attempt A (Workspace A)} (hs : s.Maintains I Q)
    (hg : ∀ w', g s.work = .ok w' → I w') : Sustains I Q (Session.rework g) s :=
  .of_rework (fun w hw => ⟨hg w hw, hs.best⟩) fun _ _ => hs

/-- To settle the caller's array leaves them. -/
theorem Maintains.settleOrigin (hs : s.Maintains I Q) (setup : Setup A P) :
    Sustains I Q (Session.settleOrigin setup) s :=
  hs.kept (keeps_settleOrigin setup fun _ _ _ => rfl)

/-- An evaluation leaves the arrays alone and answers what the residual function answers. -/
theorem Maintains.evaluate (hs : s.Maintains I Q) (setup : Setup A P) (array : Tensor A) :
    Upholds (fun v s' => (∃ n, (setup.residual.evaluate n array s'.work.iterate s'.parameter).1 =
        .ok v) ∧ s'.work = s.work ∧ s'.Maintains I Q)
      (Maintains I Q) (Session.evaluate setup array) s := by
  refine .of_cases (fun v s' h => ?_) fun e s' h => ?_
  · rw [outcome_evaluate] at h
    obtain ⟨hv, rfl⟩ := Prod.mk.inj h
    exact ⟨⟨_, hv⟩, rfl, hs.arrays, hs.best⟩
  · rw [outcome_evaluate] at h
    obtain ⟨-, rfl⟩ := Prod.mk.inj h
    exact ⟨hs.arrays, hs.best⟩

/-- The best iterate after a check is the one before it or the iterate. -/
theorem Maintains.consult (hs : s.Maintains I Q) (hiterate : Q s.work.iterate) :
    Sustains I Q (Session.consult setup) s := by
  refine .of_outcome_snd ?_
  rw [outcome_consult]
  refine ⟨hs.arrays, ?_⟩
  rcases s.monitor.bestIterate_check setup.norm s.work.trial s.work.iterate with hsame | hnew
  · dsimp only
    rw [hsame]
    exact hs.best
  · dsimp only
    rw [hnew]
    exact hiterate

/-- The best iterate of a renewed monitor is the one before it or the iterate. -/
theorem Maintains.renewMonitor (hs : s.Maintains I Q) (hiterate : Q s.work.iterate)
    (r : Restart A P) : Sustains I Q (Session.renewMonitor setup r) s := by
  refine .of_outcome_snd ?_
  rw [outcome_renewMonitor]
  rcases hm : r.monitor setup.norm s.monitor s.tolerances s.work.residual s.work.iterate with
    ⟨e | _, m⟩
  · have hbest : m.bestIterate = s.monitor.bestIterate := by
      have hkept := Restart.bestIterate_monitor (congrArg Prod.fst hm)
      rwa [hm] at hkept
    refine ⟨hs.arrays, ?_⟩
    change Q m.bestIterate
    rw [hbest]
    exact hs.best
  · have hbest : m.bestIterate = s.work.iterate := by
      obtain ⟨c, t, objective, -, hstart⟩ := Restart.of_monitor (congrArg Prod.fst hm)
      rw [hm] at hstart
      exact congrArg Monitor.bestIterate hstart
    refine ⟨hs.arrays, ?_⟩
    change Q m.bestIterate
    rw [hbest]
    exact hiterate

/-- What the move of a restart to its point sustains, the restart sustains. -/
theorem Maintains.restart {r : Restart A P} (hs : s.Maintains I Q)
    (hiterate : ∀ w, I w → Q w.iterate)
    (hmove : ∀ s : Session A P, s.Maintains I Q →
      Sustains I Q (relocate setup (r.point.getD s.work.iterate) r.layout) s) :
    Sustains I Q (Session.restart setup r) s := by
  have hadopt : (adopt r : Action A P Unit).Keeps workAndMonitor :=
    keeps_adopt (fun _ _ => rfl) (fun _ _ => rfl) r
  refine .seq (hs.kept hadopt) fun _ s₁ h₁ => .get_seq (.seq (hmove s₁ h₁) fun _ s₂ h₂ => ?_)
  exact .seq (h₂.renewMonitor (hiterate _ h₂.arrays) r) fun _ s₃ h₃ =>
    .of_modify ⟨h₃.arrays, h₃.best⟩

/-- The arrays have a property after the action, whether it answers or fails. -/
abbrev Leaves (I : Workspace A → Prop) (x : Action A P α) (s : Session A P) : Prop :=
  Upholds (fun _ s' => I s'.work) (fun s' => I s'.work) x s

/-- Without regard to the best iterate it is the arrays that are left with their property. -/
theorem leaves_iff_sustains {x : Action A P α} :
    Leaves I x s ↔ Sustains I (fun _ => True) x s :=
  Upholds.congr fun _ => ⟨fun h => ⟨h, trivial⟩, fun h => h.arrays⟩

/-- A change of the arrays that preserves their property leaves it. -/
theorem leaves_rework {g : Workspace A → Attempt A (Workspace A)} (hs : I s.work)
    (hg : ∀ w', g s.work = .ok w' → I w') : Leaves I (rework g) s :=
  .of_rework hg fun _ _ => hs

/-- What a move to a new point leaves, a restart leaves. -/
theorem leaves_restart
    (hI : ∀ s : Session A P, I s.work → ∀ point layout, Leaves I (relocate setup point layout) s)
    (hs : I s.work) (r : Restart A P) : Leaves I (restart setup r) s := by
  have h : s.Maintains I fun _ => True := ⟨hs, trivial⟩
  exact leaves_iff_sustains.mpr (h.restart (fun _ _ => trivial) fun s hs =>
    leaves_iff_sustains.mp (hI s hs.arrays _ _))

end Session

/-! ## Steps -/

namespace Workspace.Enduring

open Session

variable {I : Workspace A → Prop} {Q : Tensor A → Prop} (hI : Enduring setup I Q)

include hI

/-- To evaluate the residual at the point reached leaves the properties. -/
theorem evaluateTrial (hs : s.Maintains I Q) : Sustains I Q (Session.evaluateTrial setup) s := by
  refine .get_seq (.seq (hs.evaluate setup _) fun v s₁ h₁ => ?_)
  obtain ⟨⟨n, hv⟩, hwork, h₁⟩ := h₁
  rw [← hwork] at hv
  exact .modify_seq (.of_modify ⟨hI.trial h₁.arrays hv, h₁.best⟩)

/-- So does the first half of a step. -/
theorem probe (hs : s.Maintains I Q) : Sustains I Q (Session.probe setup) s := by
  refine .seq (hs.rework fun _ => hI.aim hs.arrays) fun _ s₁ h₁ => ?_
  refine .seq (h₁.kept (keeps_stepLength fun _ _ => rfl)) fun length s₂ h₂ => ?_
  refine .seq (h₂.rework fun _ => hI.advance h₂.arrays) fun _ s₃ h₃ => ?_
  exact .seq (h₃.settleOrigin setup) fun _ s₄ h₄ => hI.evaluateTrial h₄

/-- So does a move to a point with the property of best iterates. -/
theorem session_moveTo (hs : s.Maintains I Q) {point : Tensor A} (hpoint : Q point) :
    Sustains I Q (Session.moveTo setup point) s := by
  refine .seq (hs.rework fun _ => hI.moveTo hs.arrays hpoint) fun _ s₁ h₁ => ?_
  refine .seq (h₁.settleOrigin setup) fun _ s₂ h₂ => .get_seq ?_
  refine .seq (h₂.evaluate setup _) fun v s₃ h₃ => ?_
  obtain ⟨⟨n, hv⟩, hwork, h₃⟩ := h₃
  rw [← hwork] at hv
  exact .of_modify ⟨hI.residual h₃.arrays hv, h₃.best⟩

/-- The best iterate is such a point. -/
theorem conclude (hs : s.Maintains I Q) : Sustains I Q (Session.conclude setup) s := by
  have hended : ({ s with status := s.monitor.status, stopped := true } :
      Session A P).Maintains I Q := ⟨hs.arrays, hs.best⟩
  refine .modify_seq (.seq (hended.rework fun _ => hI.commit hs.arrays) fun _ s₁ h₁ =>
    .get_seq ?_)
  split
  · refine .get_seq (.seq (hI.session_moveTo h₁ h₁.best) fun _ s₂ h₂ => ?_)
    have hcounted : ({ s₂ with statistics := s₂.statistics.bump .evaluations 1 } :
        Session A P).Maintains I Q := ⟨h₂.arrays, h₂.best⟩
    exact .modify_seq (.get_seq (hcounted.log setup _))
  · exact .of_pure h₁

/-- So does a reset, or the stop in its place. -/
theorem resetOrStop (hs : s.Maintains I Q) : Sustains I Q (Session.resetOrStop setup) s := by
  refine .get_seq ?_
  split
  · have hended : ({ s with status := .resetsExhausted, stopped := true } :
        Session A P).Maintains I Q := ⟨hs.arrays, hs.best⟩
    exact .modify_seq (hended.log setup _)
  · refine .seq (hs.rework fun _ => hI.reset hs.arrays) fun _ s₁ h₁ => ?_
    have hcounted : ({ s₁ with resets := s₁.resets + 1 } : Session A P).Maintains I Q :=
      ⟨h₁.arrays, h₁.best⟩
    exact .modify_seq (.get_seq (hcounted.log setup _))

/-- So does a correction. -/
theorem session_correct (hs : s.Maintains I Q) : Sustains I Q (Session.correct setup) s := by
  refine .get_seq (.attempt_seq (fun _ _ => hs) fun (w, guarded) hw => .modify_seq ?_)
  have hw : ({ s with work := w } : Session A P).Maintains I Q :=
    ⟨hI.correct hs.arrays hw, hs.best⟩
  split
  · have hcounted : ({ s with
        work := w, statistics := s.statistics.bump .guards 1 } : Session A P).Maintains I Q :=
      ⟨hw.arrays, hw.best⟩
    exact .modify_seq (hcounted.log setup _)
  · exact .of_pure hw

/-- So does the second half of a step that goes on. -/
theorem refine (hs : s.Maintains I Q) : Sustains I Q (Session.refine setup) s := by
  refine .seq (hs.rework fun _ => hI.compare hs.arrays) fun _ s₁ h₁ => ?_
  refine .seq (h₁.rework fun _ => hI.commit h₁.arrays) fun _ s₂ h₂ => .get_seq ?_
  refine .attempt_seq (fun _ _ => h₂) fun small _ => ?_
  split
  · exact hI.resetOrStop h₂
  · exact hI.session_correct h₂

/-- A whole step leaves the properties, whether it answers or fails. -/
theorem session_advance (hs : s.Maintains I Q) : Sustains I Q (Session.advance setup) s := by
  have hcounted : ({ s with statistics := s.statistics.bump .steps 1 } :
      Session A P).Maintains I Q := ⟨hs.arrays, hs.best⟩
  refine .modify_seq (.seq (hI.probe hcounted) fun _ s₁ h₁ => ?_)
  refine .seq (h₁.consult (hI.iterate h₁.arrays)) fun stop s₂ h₂ => ?_
  split
  · exact hI.conclude h₂
  · exact hI.refine h₂

/-- A restart at a point of the shape of the iterate goes there and resets the inverse Jacobian. -/
theorem relocate_stay
    (hidentity : ∀ {w m}, I w → w.inverse.resetToIdentity = .ok m → I { w with inverse := m })
    (hs : s.Maintains I Q) {point : Tensor A} (hpoint : Q point)
    (hshape : point.shape = s.work.iterate.shape) (layout : Layout) :
    Sustains I Q (relocate setup point layout) s := by
  refine .get_seq ?_
  rw [if_pos hshape]
  refine .seq (hI.session_moveTo hs hpoint) fun _ s₁ h₁ => h₁.rework fun w hw => ?_
  obtain ⟨inverse, hinverse, hw⟩ := Attempt.bind_eq_ok.mp hw
  obtain rfl := Attempt.pure_eq_ok.mp hw
  exact hidentity h₁.arrays hinverse

/-- Such a property is an invariant that no failure harms. -/
theorem invariant : Invariant setup (Maintains I Q) (Maintains I Q) where
  advance := fun hs _ => hI.session_advance hs
  exhaust := fun hs _ => ⟨hs.arrays, hs.best⟩
  lines := fun _ hs => ⟨hs.arrays, hs.best⟩
  weaken := fun hs => hs

end Workspace.Enduring

namespace Workspace.Steady

open Session

variable {I : Workspace A → Prop} (hI : Steady setup I)

include hI

/-- Of the points moved to nothing is asked. -/
theorem enduring : Enduring setup I fun _ => True :=
  { hI with
    iterate := fun _ => trivial
    moveTo := fun h _ hw => hI.moveTo h hw }

/-- The first half of a step leaves a property that every move preserves. -/
theorem probe (hs : I s.work) : Leaves I (Session.probe setup) s :=
  leaves_iff_sustains.mpr (hI.enduring.probe ⟨hs, trivial⟩)

/-- So does a whole step. -/
theorem session_advance (hs : I s.work) : Leaves I (Session.advance setup) s :=
  leaves_iff_sustains.mpr (hI.enduring.session_advance ⟨hs, trivial⟩)

end Workspace.Steady

namespace Workspace.Stable

open Session

variable {I : Workspace A → Prop} (hI : Stable setup I)

include hI

/-- A stable property is an invariant that no failure harms. -/
theorem invariant : Invariant setup (fun s => I s.work) fun s => I s.work where
  advance := fun hs _ => hI.session_advance hs
  exhaust := fun hs _ => hs
  lines := fun _ hs => hs
  weaken := fun hs => hs

/-! ## Starts and restarts -/

/-- The arrays of a new session have a property that every move preserves. -/
theorem start {request : Request A P} {n : Nat} (h : Session.start setup request = (.ok s, n)) :
    I s.work := by
  obtain ⟨budget, ready, c, tolerances, objective, check, rule, hready, -, rfl⟩ := of_start h
  exact hI.allocate (congrArg Prod.fst hready)

/-- A move to a new point leaves it, whether it keeps the arrays or makes new ones. -/
theorem relocate (hs : I s.work) (point : Tensor A) (layout : Layout) :
    Leaves I (Session.relocate setup point layout) s := by
  by_cases hshape : point.shape = s.work.iterate.shape
  · exact leaves_iff_sustains.mpr
      (hI.enduring.relocate_stay hI.identity ⟨hs, trivial⟩ trivial hshape layout)
  · refine .get_seq ?_
    rw [if_neg hshape]
    refine .get_seq (.modify_seq (.attempt_seq (fun _ _ => hs) fun ready hready => ?_))
    refine .modify_seq (.get_seq (.attempt_seq (fun _ _ => hI.allocate hready) fun check _ => ?_))
    exact .of_modify (hI.allocate hready)

/-- So does a restart, whether it answers or fails. -/
theorem restart (hs : I s.work) (r : Restart A P) : Leaves I (Session.restart setup r) s :=
  leaves_restart (fun _ hs => hI.relocate hs) hs r

/-- Over every history of solving the arrays have a stable property. -/
theorem after {request : Request A P} {n : Nat} (hstart : Session.start setup request = (.ok s, n))
    {ops : List (Operation A P)} (hops : ∀ op ∈ ops, op.IsSolving) :
    I (Session.after setup s ops).work :=
  hI.invariant.after_of_robust (I := fun s => I s.work) hops
    (fun _ r _ hs => hI.restart hs r) (hI.start hstart)

end Workspace.Stable

/-! ## Order -/

/-- Order is stable, whatever the residual function answers. -/
theorem Workspace.stable_ordered (setup : Setup A P) : Stable setup (Ordered setup.engine) where
  allocate := ordered_allocate
  aim := fun h hw => h.aim hw
  advance := fun h hw => h.move (uniform_advance _) hw
  trial := fun h hv => h.trial hv
  compare := fun h hw => h.move uniform_compare hw
  commit := fun h hw => h.move uniform_commit hw
  reset := fun h hw => h.move uniform_reset hw
  correct := fun h hw => h.correct hw
  moveTo := fun h hw => h.moveTo hw
  residual := fun h hv => h.residual hv
  identity := fun h hm => h.identity hm

/-- The arrays of a session are in order. -/
def Session.Ordered (setup : Setup A P) (s : Session A P) : Prop := s.work.Ordered setup.engine

/-- A property of arrays that is preserved if one result is put in the place of one array. -/
structure Workspace.Preserved (setup : Setup A P) (I : Workspace A → Prop) : Prop where
  allocate : ∀ {origin : Origin A} {p n ready}, (origin.ready setup.residual p n).1 = .ok ready →
    I (allocate ready.fillable ready.iterate ready.residual)
  aim : ∀ {w v direction}, I w → w.inverse.matMul w.residual.flatten = .ok v →
    v.reshape w.iterate.shape = .ok direction → I { w with direction }
  advance : ∀ {w u length}, I w → w.iterate.sub (w.direction.scale length) = .ok u →
    I { w with previous := w.iterate, iterate := u }
  trial : ∀ {w v n p}, I w → (setup.residual.evaluate n w.trial w.iterate p).1 = .ok v →
    I { w with trial := v }
  compare : ∀ {w y}, I w → w.trial.sub w.residual = .ok y → I { w with change := y }
  commit : ∀ {w}, I w → I { w with residual := w.trial }
  reset : ∀ {w}, I w → I { w with inverse := Secant.initial w.iterate w.residual }
  correct : ∀ {w u inverse direction}, I w →
    Secant.update w.inverse w.direction.flatten w.change.flatten = .ok u →
    u.inverse.Accumulates inverse →
    u.column.reshape w.iterate.shape = .ok direction ∨ direction = w.direction →
    I { w with inverse, direction, row := u.row, product := u.product }
  moveTo : ∀ {w u}, I w → u.kind = w.iterate.kind → I { w with iterate := u, previous := u }
  residual : ∀ {w v n p}, I w → (setup.residual.evaluate n w.residual w.iterate p).1 = .ok v →
    I { w with residual := v }
  identity : ∀ {w m}, I w → w.inverse.resetToIdentity = .ok m → I { w with inverse := m }

/-- In order such a property is stable. -/
theorem Workspace.Preserved.stable {I : Workspace A → Prop} (hI : Preserved setup I) :
    Stable setup fun w => w.Ordered setup.engine ∧ I w where
  allocate := fun h => ⟨ordered_allocate h, hI.allocate h⟩
  aim := fun {w w'} h hw => by
    obtain ⟨v, direction, hv, hdirection, hw'⟩ := h.1.of_aim hw
    refine ⟨h.1.aim hw, ?_⟩
    rcases w.turned_eq_or setup.engine direction with hturned | hturned
    · rw [hw', hturned]
      exact hI.aim h.2 hv hdirection
    · rw [hw', hturned]
      exact h.2
  advance := fun {w w' length} h hw => by
    obtain ⟨u, hu, hw'⟩ := h.1.of_advance hw
    exact ⟨h.1.move (uniform_advance length) hw, hw' ▸ hI.advance h.2 hu⟩
  trial := fun h hv => ⟨h.1.trial hv, hI.trial h.2 hv⟩
  compare := fun {w w'} h hw => by
    obtain ⟨y, hy, hw'⟩ := h.1.of_compare hw
    exact ⟨h.1.move uniform_compare hw, hw' ▸ hI.compare h.2 hy⟩
  commit := fun {w w'} h hw => by
    have hw' := Except.ok.inj (h.1.commit.symm.trans hw)
    exact ⟨h.1.move uniform_commit hw, hw' ▸ hI.commit h.2⟩
  reset := fun {w w'} h hw => by
    have hw' := Except.ok.inj (h.1.reset.symm.trans hw)
    exact ⟨h.1.move uniform_reset hw, hw' ▸ hI.reset h.2⟩
  correct := fun {w x} h hw => by
    obtain ⟨u, inverse, direction, hu, hinverse, hdirection, hx⟩ := h.1.of_correct hw
    refine ⟨h.1.correct hw, hx ▸ hI.correct h.2 hu hinverse ?_⟩
    rcases w.turned_eq_or setup.engine direction with hturned | hturned
    · exact .inl (hturned.symm ▸ hdirection)
    · exact .inr hturned
  moveTo := fun {w w' point} h hw => by
    obtain ⟨u, hu, hw'⟩ := h.1.of_moveTo hw
    exact ⟨h.1.moveTo hw, hw' ▸ hI.moveTo h.2 hu.kind⟩
  residual := fun h hv => ⟨h.1.residual hv, hI.residual h.2 hv⟩
  identity := fun h hm => ⟨h.1.identity hm, hI.identity h.2 hm⟩

/-- If residuals are returned, every direction takes rows: no move changes how it is stored. -/
theorem Workspace.preserved_fillable (h : setup.residual.writes = false) :
    Preserved setup fun w => w.fillable = true where
  allocate := fun {origin p n ready} hready => by
    obtain ⟨u, v, -, -, -, -, rfl⟩ := Origin.ready_eq_ok hready
    exact Origin.fillable_of_returns h origin
  aim := fun h _ _ => h
  advance := fun h _ => h
  trial := fun h _ => h
  compare := fun h _ => h
  commit := fun h => h
  reset := fun h => h
  correct := fun h _ _ _ => h
  moveTo := fun h _ => h
  residual := fun h _ => h
  identity := fun h _ => h

end QuasiNewton
