import QuasiNewton.Proofs.Outcomes

/-!
# What a restart can do

A restart that answers leaves the arrays as a start at its point would make them, the scratch arrays
and the order in which these are stored excepted, and a monitor that has seen nothing but that
point.
-/

namespace QuasiNewton

open QuasiNewton.Action

variable {A : Arithmetic} {P : Type} {F : Tensor A → P → Attempt A (Tensor A)} {setup : Setup A P}
  {f : Frame A} {s s' : Session A P}

/-- The budget after a restart. -/
def Restart.budgetAfter (r : Restart A P) (q : Quantity A.Real) : Attempt A (Quantity A.Real) :=
  match r.budget with
  | .absent => .ok q
  | given => checkBudget given

/-- A restart without a budget keeps the one in effect. -/
theorem Restart.budgetAfter_of_absent {r : Restart A P} (h : r.budget = .absent)
    (q : Quantity A.Real) : r.budgetAfter q = .ok q := by
  simp only [budgetAfter, h]

/-- A budget that is given is checked. -/
theorem Restart.budgetAfter_of_given {r : Restart A P} (h : r.budget ≠ .absent)
    (q : Quantity A.Real) : r.budgetAfter q = checkBudget r.budget := by
  unfold budgetAfter
  split
  · exact absurd ‹_› h
  · rfl

/-- The arrays that a step reads before it writes them are those of a start at a point with a
residual. -/
structure Workspace.Begins (u v : Tensor A) (w : Workspace A) : Prop where
  iterate : w.iterate = u
  previous : w.previous = u
  residual : w.residual = v
  inverse : w.inverse = Secant.initial u v

/-- If their directions take rows, such arrays differ from new ones in scratch arrays only. -/
theorem Workspace.Begins.alike {u v : Tensor A} {w : Workspace A} (h : w.Begins u v)
    (hw : w.Regular f) (hfillable : w.fillable = true) : w.Alike [] (allocate true u v) := by
  have hu : u.frame = f := h.iterate ▸ hw.iterate
  have hv : v.frame = f := h.residual ▸ hw.residual
  have hnew : (allocate true u v).Regular f :=
    regular_allocate hw.working hw.nonempty hu hv fun _ => rfl
  exact hw.alike hnew h.iterate h.previous h.residual h.inverse hfillable rfl

namespace Session

/-- What a session takes over from a restart before it moves. -/
theorem of_adopt {r : Restart A P} (h : (adopt r).outcome s = (.ok (), s')) :
    ∃ budget, r.budgetAfter s.budget = .ok budget ∧
      s' = { s with parameter := r.parameter.getD s.parameter, budget } := by
  unfold adopt at h
  rw [outcome_modify_bind] at h
  split at h
  case h_1 habsent =>
    cases h
    exact ⟨s.budget, Restart.budgetAfter_of_absent habsent _, rfl⟩
  case h_2 hgiven =>
    obtain ⟨q, hq, h⟩ := outcome_attempt_bind_eq_ok.mp h
    cases h
    exact ⟨q, (Restart.budgetAfter_of_given hgiven _).trans hq, rfl⟩

/-- A session that has taken over the parameter of a restart, and a budget. -/
def adopted (s : Session A P) (r : Restart A P) (budget : Quantity A.Real) : Session A P :=
  { s with parameter := r.parameter.getD s.parameter, budget }

/-- A budget that is taken over is taken over with the parameter. -/
theorem outcome_adopt {r : Restart A P} {budget : Quantity A.Real}
    (h : r.budgetAfter s.budget = .ok budget) :
    (adopt r).outcome s = (.ok (), s.adopted r budget) := by
  unfold adopt
  rw [outcome_modify_bind]
  split
  case h_1 habsent =>
    rw [Restart.budgetAfter_of_absent habsent] at h
    cases h
    rfl
  case h_2 hgiven =>
    rw [Restart.budgetAfter_of_given hgiven] at h
    rw [outcome_bind, outcome_attempt, h]
    rfl

/-- A restart that has taken over its budget moves and starts the monitor over. -/
theorem outcome_restart {r : Restart A P} {budget : Quantity A.Real}
    (h : r.budgetAfter s.budget = .ok budget) :
    (restart setup r).outcome s =
      (do
        relocate setup (r.point.getD s.work.iterate) r.layout
        renewMonitor setup r
        modify fun s =>
          { s with statistics := .fresh, resets := 0, stopped := false, status := .running }
        : Action A P Unit).outcome (s.adopted r budget) := by
  unfold restart
  rw [outcome_bind, outcome_adopt h]
  rfl

/-- What a restart that answers leaves of the session that has moved: arrays and parameter, with a
monitor that has seen nothing but the iterate and the residual there. -/
structure Renewed (setup : Setup A P) (s s' : Session A P) : Prop where
  work : s'.work = s.work
  parameter : s'.parameter = s.parameter
  norm : setup.norm s'.work.residual = .ok s'.monitor.initial
  best : s'.monitor.best = s'.monitor.initial
  point : s'.monitor.bestIterate = s'.work.iterate

/-- A restart that answers has moved and then started the monitor over. -/
theorem exists_renewed {r : Restart A P} (h : (restart setup r).outcome s = (.ok (), s')) :
    ∃ budget s₁, (relocate setup (r.point.getD s.work.iterate) r.layout).outcome
        { s with parameter := r.parameter.getD s.parameter, budget } = (.ok (), s₁) ∧
      Renewed setup s₁ s' := by
  obtain ⟨_, _, hadopt, h⟩ := outcome_bind_eq_ok.mp h
  obtain ⟨budget, -, rfl⟩ := of_adopt hadopt
  rw [outcome_get_bind] at h
  obtain ⟨_, s₁, hrelocate, h⟩ := outcome_bind_eq_ok.mp h
  obtain ⟨_, s₂, hrenew, h⟩ := outcome_bind_eq_ok.mp h
  rw [outcome_renewMonitor] at hrenew
  rcases hm : r.monitor setup.norm s₁.monitor s₁.tolerances s₁.work.residual s₁.work.iterate with
    ⟨_ | _, m⟩
  · rw [hm] at hrenew
    cases hrenew
  · rw [hm] at hrenew
    cases hrenew
    cases h
    obtain ⟨_, _, objective, hn, hm'⟩ := Restart.of_monitor (congrArg Prod.fst hm)
    rw [hm] at hm'
    obtain rfl : m = _ := hm'
    exact ⟨budget, s₁, hrelocate, rfl, rfl, hn, rfl, rfl⟩

/-- Regular arrays that were moved to a point and reset begin there. -/
theorem begins_of_moved {u v : Tensor A} (hs : s.work.Regular f) (hu : u.frame = f)
    (hv : v.frame = f) {w : Workspace A} (hw : w = { s.work with
      iterate := u
      previous := u
      residual := v
      inverse := Tensor.identity f.kind f.shape.size }) :
    w.Regular f ∧ w.Begins u v := by
  have hmoved : w.Regular f :=
    hw ▸ { hs with
      iterate := hu
      previous := hu
      residual := hv
      inverse := Tensor.frame_identity _ _ }
  have hinitial := hmoved.initial_eq
  subst hw
  exact ⟨hmoved, rfl, rfl, rfl, hinitial.symm⟩

/-- What a move to the point of a restart does to a session in a frame when it answers. -/
inductive Relocated (F : Tensor A → P → Attempt A (Tensor A)) (setup : Setup A P) (f : Frame A)
    (point : Tensor A) (s : Session A P) : Session A P → Prop
  | intro {u v : Tensor A} {work : Workspace A} {check : ResetCheck A} {origin : Tensor A}
    {shared : Bool} (hu : u.frame = f.moved point)
    (hpoint : (point.shape = f.shape → point.kind = f.kind) → u = Origin.iterate { point })
    (hv : F u s.parameter = .ok v) (hregular : work.Regular (f.moved point))
    (hwork : work.Begins u v)
    (hcheck : ResetCheck.forKind (f.moved point).kind setup.options.resetTolerance = .ok check) :
    Relocated F setup f point s { s with
      work
      resetCheck := check
      evaluations := s.evaluations + 1
      origin
      shared }

/-- A point of the same shape keeps the arrays. -/
theorem relocated_of_shape (hR : setup.residual.Computes F) (hF : Residual.Conforms F)
    (hs : s.work.Regular f)
    (hcheck : ResetCheck.forKind f.kind setup.options.resetTolerance = .ok s.resetCheck)
    {point : Tensor A} {layout : Layout} (hshape : point.shape = f.shape)
    (h : (relocate setup point layout).outcome s = (.ok (), s')) :
    Relocated F setup f point s s' := by
  have hsame : point.shape = s.work.iterate.shape :=
    hshape.trans (Tensor.shape_of_frame hs.iterate).symm
  rw [relocate, outcome_get_bind, if_pos hsame] at h
  obtain ⟨_, s₁, hmove, h⟩ := outcome_bind_eq_ok.mp h
  obtain ⟨u, v, origin, shared, hlands, hv, rfl⟩ := of_moveTo (fun _ => ⟨f, hs⟩) hmove
  have hu : u.frame = f := (hlands.frame_eq hsame).trans hs.iterate
  rw [evaluate_of_computes hR hF fun _ => hs.residual.trans hu.symm] at hv
  rw [← bind_pure (rework _)] at h
  obtain ⟨w, hw, h⟩ := outcome_rework_bind_eq_ok.mp h
  cases h
  obtain ⟨inverse, hinverse, hw⟩ := Attempt.bind_eq_ok.mp hw
  obtain rfl := Except.ok.inj ((Tensor.resetToIdentity_of_frame hs.inverse).symm.trans hinverse)
  obtain ⟨hregular, hbegins⟩ := begins_of_moved hs hu ((hF _ _ _ hv).trans hu)
    (Attempt.pure_eq_ok.mp hw).symm
  have hmoved : f.moved point = f := if_pos hshape
  refine .intro (hmoved.symm ▸ hu) (fun hkind => ?_) hv (hmoved.symm ▸ hregular) hbegins
    (hmoved.symm ▸ hcheck)
  have hpoint : point.frame = f := Tensor.frame_eq (hkind hshape) hshape
  have hworking : A.working point.kind = f.kind := by
    rw [hkind hshape]
    exact hs.working
  rw [Origin.iterate, Origin.frame, hworking, Tensor.castTo_of_frame hpoint]
  exact hlands.exact (Tensor.kind_congr (hpoint.trans hs.iterate.symm)) fun _ => hsame

/-- A point of another shape gets new arrays. -/
theorem relocated_of_reopen (hR : setup.residual.Computes F) (hF : Residual.Conforms F)
    {point : Tensor A} {layout : Layout} (hshape : ¬point.shape = f.shape)
    (h : (reopen setup point layout).outcome s = (.ok (), s')) :
    Relocated F setup f point s s' := by
  rw [reopen, outcome_get_bind, outcome_modify_bind] at h
  obtain ⟨ready, hready, h⟩ := outcome_attempt_bind_eq_ok.mp h
  obtain ⟨hn, hiterate, hv, hresidual, -, hcalls⟩ := Origin.of_ready hR hF hready
  rw [outcome_modify_bind, outcome_get_bind] at h
  obtain ⟨check, hnew, h⟩ := outcome_attempt_bind_eq_ok.mp h
  cases h
  have hframe : (⟨A.working point.kind, point.shape⟩ : Frame A) = f.moved point :=
    (if_neg hshape).symm
  have hu : ready.iterate.frame = f.moved point := by
    rw [hiterate, Origin.frame_iterate]
    exact hframe
  have hregular : (Workspace.allocate ready.fillable ready.iterate ready.residual).Regular
      (f.moved point) := by
    refine Workspace.regular_allocate ?_ ?_ hu (hresidual.trans hframe)
      (Origin.fillable_of_ready hready)
    · rw [← hframe]
      exact .working _
    · rw [← hframe]
      exact hn
  rw [Tensor.kind_of_frame hregular.inverse, Frame.kind_matrix] at hnew
  rw [hcalls]
  exact .intro hu (fun _ => hiterate) (hiterate ▸ hv) hregular ⟨rfl, rfl, rfl, rfl⟩ hnew

/-- So every restart that answers has moved. -/
theorem of_relocate (hR : setup.residual.Computes F) (hF : Residual.Conforms F)
    (hs : s.work.Regular f)
    (hcheck : ResetCheck.forKind f.kind setup.options.resetTolerance = .ok s.resetCheck)
    {point : Tensor A} {layout : Layout}
    (h : (relocate setup point layout).outcome s = (.ok (), s')) :
    Relocated F setup f point s s' := by
  by_cases hshape : point.shape = f.shape
  case pos => exact relocated_of_shape hR hF hs hcheck hshape h
  case neg =>
    have hiterate : s.work.iterate.shape = f.shape := Tensor.shape_of_frame hs.iterate
    rw [relocate, outcome_get_bind, if_neg fun hsame => hshape (hsame.trans hiterate)] at h
    exact relocated_of_reopen hR hF hshape h

/-- What is in effect after a restart: what it gives, or else what was in effect before. Tolerances
are checked if the restart gives a condition. -/
structure Settled (r : Restart A P) (s s' : Session A P) : Prop where
  parameter : s'.parameter = r.parameter.getD s.parameter
  budget : r.budgetAfter s.budget = .ok s'.budget
  monitored : s'.monitor.tolerances = s'.tolerances
  kept : r.condition = .setting .absent → s'.monitor.condition = s.monitor.condition ∧
    s'.tolerances = s.monitor.tolerances.replace r.absolute r.relative
  given : r.condition ≠ .setting .absent →
    Condition.ofChoice r.condition = .ok s'.monitor.condition ∧
    ∃ kind, Tolerances.make kind (s.tolerances.replace r.absolute r.relative).absolute
      (s.tolerances.replace r.absolute r.relative).relative = .ok s'.tolerances

/-- What a restart does to a session in a frame when it answers. -/
inductive Restarted (F : Tensor A → P → Attempt A (Tensor A)) (setup : Setup A P) (f : Frame A)
    (r : Restart A P) (s : Session A P) : Session A P → Prop
  | intro {u v : Tensor A} {work : Workspace A} {budget : Quantity A.Real} {check : ResetCheck A}
    {m : Monitor A} {origin : Tensor A} {shared : Bool}
    (hbudget : r.budgetAfter s.budget = .ok budget)
    (hu : u.frame = r.frame f)
    (hpoint : (∀ point ∈ r.point, point.shape = f.shape → point.kind = f.kind) →
      u = Origin.iterate { point := r.point.getD s.work.iterate })
    (hv : F u (r.parameter.getD s.parameter) = .ok v)
    (hwork : work.Begins u v)
    (hregular : work.Regular (r.frame f))
    (hcheck : ResetCheck.forKind (r.frame f).kind setup.options.resetTolerance = .ok check)
    (hm : r.monitor setup.norm s.monitor s.tolerances v u = (.ok (), m)) :
    Restarted F setup f r s { s with
      parameter := r.parameter.getD s.parameter
      work
      resetCheck := check
      monitor := m
      tolerances := m.tolerances
      budget
      resets := 0
      stopped := false
      status := .running
      statistics := .fresh
      evaluations := s.evaluations + 1
      origin
      shared }

/-- What a restart that answers leaves in effect. -/
theorem Restarted.settled {r : Restart A P} (h : Restarted F setup f r s s') : Settled r s s' := by
  cases h with
  | @intro u v work budget check m origin shared hbudget hu hpoint hv hwork hregular hcheck hm =>
    refine ⟨rfl, hbudget, rfl, fun hkept => ?_, fun hgiven => ?_⟩
    · simp only [Restart.monitor, hkept, Monitor.restart] at hm
      split at hm
      · cases hm
        exact ⟨rfl, rfl⟩
      · cases hm
    · unfold Restart.monitor at hm
      split at hm
      case h_1 hkept => exact absurd hkept hgiven
      case h_2 =>
        dsimp only at hm
        split at hm
        case h_1 m' hmake =>
          cases hm
          obtain ⟨c, t, objective, hc, ht, -, rfl⟩ := Monitor.make_eq_ok.mp hmake
          exact ⟨hc, _, ht⟩
        case h_2 => cases hm

/-- What a restart of a session does whose arrays and settings belong together. -/
theorem of_restart (hR : setup.residual.Computes F) (hF : Residual.Conforms F)
    (hs : s.Composed setup f) {r : Restart A P} (h : (restart setup r).outcome s = (.ok (), s')) :
    Restarted F setup f r s s' := by
  unfold restart at h
  obtain ⟨_, s₁, hadopt, h⟩ := outcome_bind_eq_ok.mp h
  obtain ⟨budget, hbudget, rfl⟩ := of_adopt hadopt
  rw [outcome_get_bind] at h
  obtain ⟨_, s₂, hrelocate, h⟩ := outcome_bind_eq_ok.mp h
  dsimp only at hrelocate
  obtain @⟨u, v, work, check, origin, shared, hu, hpoint, hv, hregular, hwork, hcheck⟩ :=
    of_relocate (s := { s with parameter := r.parameter.getD s.parameter, budget }) hR hF hs.work
      hs.check hrelocate
  obtain ⟨_, s₃, hrenew, h⟩ := outcome_bind_eq_ok.mp h
  rw [outcome_renewMonitor] at hrenew
  dsimp only at hrenew
  rw [hwork.residual, hwork.iterate] at hrenew
  rcases hm : r.monitor setup.norm s.monitor s.tolerances v u with ⟨_ | _, m⟩
  · rw [hm] at hrenew
    cases hrenew
  · rw [hm] at hrenew
    cases hrenew
    cases h
    have hframe : f.moved (r.point.getD s.work.iterate) = r.frame f :=
      (r.frame_eq hs.work.iterate).symm
    rw [hframe] at hu hregular hcheck
    refine .intro hbudget hu (fun hkind => hpoint fun hshape => ?_) hv hwork hregular hcheck hm
    cases hp : r.point with
    | none => exact Tensor.kind_of_frame hs.work.iterate
    | some point =>
      rw [hp] at hshape
      exact hkind point hp hshape

end Session

end QuasiNewton
