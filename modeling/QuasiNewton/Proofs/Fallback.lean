import QuasiNewton.Proofs.Success
import QuasiNewton.Proofs.Visits

/-!
# Falling back

A solve that ends because the residual stalled or diverged returns to the first of the points it
visited where the norm of the residual was least, and evaluates there once more. Points where the
norm is not a number do not count.
-/

namespace QuasiNewton

open QuasiNewton.Action

variable {A : Arithmetic} {P : Type} {F : Tensor A → P → Attempt A (Tensor A)} {setup : Setup A P}

/-! ## Checks that watch the best norm -/

namespace Monitor

variable {m m' : Monitor A} {norm : Norm A} {residual iterate : Tensor A} {stop : Bool}

/-- A check that answers finds the criterion met, or it takes note of the norm if the mode watches
it. -/
theorem of_check (h : m.check norm residual iterate = (.ok stop, m')) :
    (m' = { m with status := .success } ∧ stop = true) ∨
      (m.condition.mode.watchesBest = false ∧ stop = false) ∨
      (m.condition.mode.watchesBest = true ∧
        ∃ y status, norm residual = .ok y ∧ m' = { m.observe y iterate with status }) := by
  unfold check at h
  split at h
  case h_1 => cases h
  case h_2 => exact .inl ⟨(Prod.mk.inj h).2.symm, (Except.ok.inj (Prod.mk.inj h).1).symm⟩
  case h_3 =>
    split at h
    case isFalse hwatches =>
      exact .inr (.inl ⟨Bool.eq_false_iff.mpr hwatches, (Except.ok.inj (Prod.mk.inj h).1).symm⟩)
    case isTrue hwatches =>
      split at h
      case h_2 => cases h
      case h_1 y hy =>
        refine .inr (.inr ⟨hwatches, y, ?_⟩)
        unfold watch at h
        dsimp only at h
        split at h
        · cases h
        · exact ⟨_, hy, (Prod.mk.inj h).2.symm⟩
        · exact ⟨_, hy, (Prod.mk.inj h).2.symm⟩

/-- A check that makes the solve fall back has watched the norm. -/
theorem of_check_fallsBack (h : m.check norm residual iterate = (.ok true, m'))
    (hback : m'.status.fallsBack = true) : m.condition.mode.watchesBest = true ∧
      ∃ y status, norm residual = .ok y ∧ m' = { m.observe y iterate with status } := by
  rcases of_check h with ⟨rfl, -⟩ | ⟨-, hstop⟩ | hwatched
  · cases hback
  · cases hstop
  · exact hwatched

end Monitor

namespace Session

variable {b c c' s s' : Session A P} {k : Nat}

/-! ## Beginnings -/

/-- A session whose monitor has seen nothing but the iterate. -/
structure Opened (F : Tensor A → P → Attempt A (Tensor A)) (setup : Setup A P) (s : Session A P) :
    Prop where
  consistent : s.Consistent F
  norm : setup.norm s.work.residual = .ok s.monitor.initial
  best : s.monitor.best = s.monitor.initial
  point : s.monitor.bestIterate = s.work.iterate

/-- A session that was started is opened. -/
theorem opened_start (hR : setup.residual.Computes F) (hF : Residual.Conforms F)
    {request : Request A P} {n : Nat} (h : start setup request = (.ok s, n)) :
    s.Opened F setup := by
  have hconsistent := consistent_start hR hF h
  obtain ⟨v, budget, monitor, check, rule, -, -, -, hm, -, -, rfl, -⟩ := (start_eq_ok hR hF).mp h
  obtain ⟨c, t, objective, -, -, hn, rfl⟩ := Monitor.make_eq_ok.mp hm
  exact ⟨hconsistent, hn, rfl, rfl⟩

/-- In order a move to the point of a restart evaluates the residual there. -/
theorem consistent_relocate (hR : setup.residual.Computes F) (hF : Residual.Conforms F)
    (hs : s.Ordered setup) {point : Tensor A} {layout : Layout}
    (h : (relocate setup point layout).outcome s = (.ok (), s')) : s'.Consistent F := by
  unfold relocate at h
  rw [outcome_get_bind] at h
  split at h
  · obtain ⟨_, s₁, hmove, h⟩ := outcome_bind_eq_ok.mp h
    obtain ⟨u, v, origin, shared, hu, hv, rfl⟩ := of_moveTo hs hmove
    rw [← bind_pure (rework _)] at h
    obtain ⟨w, hw, h⟩ := outcome_rework_bind_eq_ok.mp h
    cases h
    obtain ⟨inverse, -, hw⟩ := Attempt.bind_eq_ok.mp hw
    obtain rfl := Attempt.pure_eq_ok.mp hw
    rw [evaluate_of_computes hR hF fun he => ?_] at hv
    · exact hv
    · obtain ⟨f, hf⟩ := hs he
      exact hf.residual.trans (hf.iterate.symm.trans (hu.frame he).symm)
  · rw [reopen, outcome_get_bind, outcome_modify_bind] at h
    obtain ⟨ready, hready, h⟩ := outcome_attempt_bind_eq_ok.mp h
    obtain ⟨-, hiterate, hv, -, -⟩ := Origin.of_ready hR hF hready
    rw [outcome_modify_bind, outcome_get_bind] at h
    obtain ⟨check, -, h⟩ := outcome_attempt_bind_eq_ok.mp h
    cases h
    exact hiterate ▸ hv

/-- A restart that answers opens a session, whatever was done to it before. -/
theorem opened_restart (hR : setup.residual.Computes F) (hF : Residual.Conforms F)
    (hs : s.Ordered setup) {r : Restart A P} (h : (restart setup r).outcome s = (.ok (), s')) :
    s'.Opened F setup := by
  obtain ⟨budget, s₁, hrelocate, hrenewed⟩ := exists_renewed h
  have hconsistent := consistent_relocate hR hF (by exact hs) hrelocate
  rw [Consistent, ← hrenewed.work, ← hrenewed.parameter] at hconsistent
  exact ⟨hconsistent, hrenewed.norm, hrenewed.best, hrenewed.point⟩

/-- A solve that begins is opened. -/
theorem Renews.opened (hR : setup.residual.Computes F) (hF : Residual.Conforms F)
    {request : Request A P} {n : Nat} (hstart : start setup request = (.ok s, n))
    {ops : List (Operation A P)} (hops : ∀ op ∈ ops, op.IsSolving) (h : Renews setup s ops) :
    (after setup s ops).Opened F setup := by
  rcases h with rfl | ⟨earlier, r, s', rfl, hrestart⟩
  · exact opened_start hR hF hstart
  · have hordered := (Workspace.stable_ordered setup).after hstart fun op hop =>
      hops op (List.mem_append_left _ hop)
    rw [after_restart hrestart]
    exact opened_restart hR hF hordered hrestart

/-- A solve that begins at a norm that is a number, with arrays in order and of one kind. -/
structure Commences (F : Tensor A → P → Attempt A (Tensor A)) (setup : Setup A P)
    (s : Session A P) : Prop extends Opened F setup s, Begun s where
  ordered : s.Ordered setup
  ofKind : ∃ κ, s.work.OfKind κ
  defined : A.Defined s.monitor.initial

/-- After a history that renews the solve it commences, if the first norm is defined. -/
theorem Renews.commences (hR : setup.residual.Computes F) (hF : Residual.Conforms F)
    {request : Request A P} {n : Nat} (hstart : start setup request = (.ok s, n))
    {ops : List (Operation A P)} (hops : ∀ op ∈ ops, op.IsSolving) (h : Renews setup s ops)
    (hdefined : A.Defined (after setup s ops).monitor.initial) :
    (after setup s ops).Commences F setup := by
  obtain ⟨hordered, hkind⟩ := (Workspace.preserved_ofKind hR hF).stable.after hstart hops
  exact
    { h.opened hR hF hstart hops, h.begun hR hF hstart with
      ordered := hordered
      ofKind := hkind
      defined := hdefined }

/-! ## The search for the least norm -/

/-- The norms of the residual at the points that the steps of a session visit. -/
def norms (F : Tensor A → P → Attempt A (Tensor A)) (setup : Setup A P) (b : Session A P)
    (k : Nat) : Attempt A A.Real :=
  objective F setup b.parameter (visited setup b k)

/-- A solve that has gone on for a number of steps: it is where the last one went, and its monitor
knows the first point with the least norm. -/
structure Searching (F : Tensor A → P → Attempt A (Tensor A)) (setup : Setup A P) (b : Session A P)
    (k : Nat) (c : Session A P) : Prop where
  ordered : c.Ordered setup
  ofKind : ∃ κ, c.work.OfKind κ
  parameter : c.parameter = b.parameter
  watches : c.monitor.condition.mode.watchesBest = true
  steps : c.statistics.steps = k
  evaluations : c.statistics.evaluations = k + 1
  initial : c.monitor.initial = b.monitor.initial
  fits : c.monitor.bestIterate.kind = c.work.iterate.kind ∧
    (setup.engine = .inPlace → c.monitor.bestIterate.shape = c.work.iterate.shape)
  best : ∃ i, c.monitor.bestIterate = visited setup b i ∧
    FirstLeast (norms F setup b) k i c.monitor.best

/-- A search begins at the point where the solve begins. -/
theorem Commences.searching (hA : A.InOrder) (hb : b.Commences F setup)
    (hwatches : b.monitor.condition.mode.watchesBest = true) : Searching F setup b 0 b where
  ordered := hb.ordered
  ofKind := hb.ofKind
  parameter := rfl
  watches := hwatches
  steps := by rw [hb.statistics]; rfl
  evaluations := by rw [hb.statistics]; rfl
  initial := rfl
  fits := ⟨congrArg Tensor.kind hb.point, fun _ => congrArg Tensor.shape hb.point⟩
  best := by
    have hnorm : norms F setup b 0 = .ok b.monitor.initial :=
      (objective_of_residual hb.consistent).trans hb.norm
    exact ⟨0, hb.point, hb.best ▸ FirstLeast.zero hA hnorm hb.defined⟩

/-- What a monitor knows that has taken note of the point a step went to. -/
theorem Searching.observe (hA : A.InOrder) (hR : setup.residual.Computes F)
    (hF : Residual.Conforms F) (h : Searching F setup b k (attempts setup b k)) {x : Probe A}
    (hx : x.Valid setup (attempts setup b k)) {y : A.Real} (hy : setup.norm x.residual = .ok y) :
    ∃ i, ((attempts setup b k).monitor.observe y x.iterate).bestIterate = visited setup b i ∧
      FirstLeast (norms F setup b) (k + 1) i
        ((attempts setup b k).monitor.observe y x.iterate).best := by
  obtain ⟨i, hi, hbest⟩ := h.best
  have hnorm : norms F setup b (k + 1) = .ok y := by
    rw [norms, hx.visited_eq, ← h.parameter]
    exact (objective_of_residual (hx.computed hR hF)).trans hy
  unfold Monitor.observe
  split
  case isTrue hlt => exact ⟨k + 1, hx.visited_eq.symm, hbest.replace hA hnorm hlt⟩
  case isFalse hge => exact ⟨i, hi, hbest.keep hA hnorm (Bool.eq_false_iff.mpr hge)⟩

/-- A probe stays in the kind of the arrays, and in their shape if they are overwritten. -/
theorem Probe.Valid.kind {x : Probe A} (hx : x.Valid setup c) {κ : A.Kind}
    (h : c.work.OfKind κ) : x.iterate.kind = κ := by
  obtain ⟨v, d, hv, hd, hdirection⟩ := hx.aim
  have hturned : x.direction.kind = κ := by
    rcases c.work.turned_eq_or setup.engine d with heq | heq
    · rw [hdirection, heq, h.aim hv hd]
    · rw [hdirection, heq, h.direction]
  have haimed : ({ c.work with direction := x.direction } : Workspace A).OfKind κ :=
    { h with direction := hturned }
  exact haimed.advance hx.advance

/-- Where arrays are overwritten, a probe keeps the shape of the iterate. -/
theorem Probe.Valid.shape {x : Probe A} (hx : x.Valid setup c) (he : setup.engine = .inPlace) :
    x.iterate.shape = c.work.iterate.shape := by
  obtain ⟨f, hf⟩ := hx.ordered he
  exact Tensor.shape_congr (hf.iterate.trans hf.previous.symm)

/-- The best iterate it knows then can be returned to. -/
theorem Searching.fits_observe (h : Searching F setup b k c) {x : Probe A}
    (hx : x.Valid setup c) (y : A.Real) :
    (c.monitor.observe y x.iterate).bestIterate.kind = x.iterate.kind ∧
      (setup.engine = .inPlace →
        (c.monitor.observe y x.iterate).bestIterate.shape = x.iterate.shape) := by
  unfold Monitor.observe
  split
  case isTrue => exact ⟨rfl, fun _ => rfl⟩
  case isFalse =>
    obtain ⟨κ, hκ⟩ := h.ofKind
    exact ⟨h.fits.1.trans (hκ.iterate.trans (hx.kind hκ).symm),
      fun he => (h.fits.2 he).trans (hx.shape he).symm⟩

/-- A step that goes on keeps searching. -/
theorem Searching.next (hA : A.InOrder) (hR : setup.residual.Computes F)
    (hF : Residual.Conforms F) (h : Searching F setup b k (attempts setup b k))
    (hadvance : (advance setup).outcome (attempts setup b k) = (.ok (), c'))
    (hgoing : c'.stopped = false) : Searching F setup b (k + 1) c' := by
  obtain ⟨hordered, hkind⟩ :=
    ((Workspace.preserved_ofKind hR hF).stable.session_advance ⟨h.ordered, h.ofKind⟩).of_ok hadvance
  cases of_advance h.ordered hadvance with
  | concluded hx hm hend => cases hend <;> cases hgoing
  | @refined x m _ hx hm hrest =>
    obtain ⟨y, status, hy, rfl⟩ : ∃ y status, setup.norm x.residual = .ok y ∧
        m = { (attempts setup b k).monitor.observe y x.iterate with status } := by
      rcases Monitor.of_check hm with ⟨-, hstop⟩ | ⟨hwatches, -⟩ | ⟨-, hseen⟩
      · cases hstop
      · cases h.watches.symm.trans hwatches
      · exact hseen
    obtain ⟨hcondition, -, hinitial, -⟩ := (attempts setup b k).monitor.observe_kept y x.iterate
    have hkept := hrest.kept
    exact
      { ordered := hordered
        ofKind := hkind
        parameter := hkept.parameter.trans h.parameter
        watches := by
          rw [hkept.monitor]
          exact (congrArg (fun c => Mode.watchesBest c.mode) hcondition).trans h.watches
        steps := by
          rw [hkept.steps]
          exact congrArg (· + 1) h.steps
        evaluations := by
          rw [hkept.evaluations]
          exact congrArg (· + 1) h.evaluations
        initial := by
          rw [hkept.monitor]
          exact hinitial.trans h.initial
        fits := by
          rw [hkept.monitor, hkept.iterate]
          exact h.fits_observe hx y
        best := by
          rw [hkept.monitor]
          exact h.observe hA hR hF hx hy }

/-! ## The end of the search -/

/-- A session that goes on has the status it had. -/
theorem Stepped.status_of_going (h : Stepped setup c c') (hgoing : c'.stopped = false) :
    c'.status = c.status := by
  cases h with
  | concluded hx hm hend => cases hend <;> cases hgoing
  | refined hx hm hrest => exact hrest.kept.status hgoing

/-- As long as steps go on the session is running. -/
theorem Walked.running (h : Walked setup b k s) (hb : b.status = .running)
    (hordered : b.Ordered setup) (j : Nat) (hj : j < k) :
    (attempts setup b j).status = .running := by
  induction j with
  | zero => exact hb
  | succ j ih =>
    have hj' : j < k := Nat.lt_of_succ_lt hj
    have hstep : (step setup).outcome (attempts setup b j) = (.ok (), attempts setup b (j + 1)) :=
      Prod.ext (h.answered j hj') rfl
    rw [outcome_step_of_not_stopped setup (h.going j hj')] at hstep
    exact ((of_advance (ordered_attempts hordered j) hstep).status_of_going
      (h.going (j + 1) hj)).trans (ih hj')

/-- A step that makes a running session fall back has watched the best norm and returns to the best
iterate. -/
theorem Stepped.of_fallsBack (h : Stepped setup c c') (hrunning : c.status = .running)
    (hback : c'.status.fallsBack = true) :
    ∃ x m, x.Valid setup c ∧ c.monitor.condition.mode.watchesBest = true ∧
      (∃ y status, setup.norm x.residual = .ok y ∧
        m = { c.monitor.observe y x.iterate with status }) ∧
      ∃ u v transcript origin shared,
        Workspace.Landing setup.engine (c.probed x).work m.bestIterate u ∧
        (setup.residual.evaluate (c.evaluations + 1) x.residual u c.parameter).1 = .ok v ∧
        c' = { c.probed x with
          monitor := m
          work := { (c.probed x).work with iterate := u, previous := u, residual := v }
          status := m.status
          stopped := true
          statistics := (c.probed x).statistics.bump .evaluations 1
          evaluations := c.evaluations + 2
          transcript
          origin
          shared } := by
  cases h with
  | @concluded x m _ hx hm hend =>
    cases hend with
    | stayed hstays => cases hstays.symm.trans hback
    | @restored u v transcript origin shared hfalls hu hv =>
      obtain ⟨hwatches, hseen⟩ := Monitor.of_check_fallsBack hm hfalls
      exact ⟨x, m, hx, hwatches, hseen, u, v, transcript, origin, shared, hu, hv, rfl⟩
  | @refined x m _ hx hm hrest =>
    cases hrest with
    | exhausted => cases hback
    | reset =>
      change c.status.fallsBack = true at hback
      rw [hrunning] at hback
      cases hback
    | corrected =>
      change c.status.fallsBack = true at hback
      rw [hrunning] at hback
      cases hback

/-- A session that has returned to the best point its steps visited. -/
structure Restored (F : Tensor A → P → Attempt A (Tensor A)) (setup : Setup A P) (b : Session A P)
    (k : Nat) (c : Session A P) : Prop where
  best : ∃ i, c.work.iterate = visited setup b i ∧
    FirstLeast (norms F setup b) k i c.monitor.best
  residual : F c.work.iterate b.parameter = .ok c.work.residual
  previous : c.work.previous = c.work.iterate
  steps : c.statistics.steps = k
  evaluations : c.statistics.evaluations = k + 2

/-- A search that ends because the residual stalled or diverged returns to the best point. -/
theorem Searching.restored (hA : A.InOrder) (hR : setup.residual.Computes F)
    (hF : Residual.Conforms F) (h : Searching F setup b k (attempts setup b k))
    (hstep : Stepped setup (attempts setup b k) c')
    (hrunning : (attempts setup b k).status = .running) (hback : c'.status.fallsBack = true) :
    Restored F setup b (k + 1) c' := by
  obtain ⟨x, m, hx, -, ⟨y, status, hy, rfl⟩, u, v, transcript, origin, shared, hu, hv, rfl⟩ :=
    hstep.of_fallsBack hrunning hback
  obtain ⟨hkind, hshape⟩ := h.fits_observe hx y
  obtain rfl := hu.exact hkind hshape
  obtain ⟨i, hi, hbest⟩ := h.observe hA hR hF hx hy
  rw [evaluate_of_computes hR hF fun he => ?_, h.parameter] at hv
  · exact
      { best := ⟨i, hi, hbest⟩
        residual := hv
        previous := rfl
        steps := congrArg (· + 1) h.steps
        evaluations := by
          change (attempts setup b k).statistics.evaluations + 1 + 1 = _
          rw [h.evaluations]
          omega }
  · obtain ⟨f, hf⟩ := hx.ordered he
    exact hf.trial.trans (hf.iterate.symm.trans (hu.frame he).symm)

/-- Sessions that differ in their lines only have returned to the same point. -/
theorem Restored.of_alike (h : Restored F setup b k c) (halike : Alike setup Tie.lines s c) :
    Restored F setup b k s where
  best := by
    rw [halike.work.iterate, halike.monitor]
    exact h.best
  residual := by
    rw [halike.work.iterate, halike.work.residual]
    exact h.residual
  previous := by
    rw [halike.work.previous, halike.work.iterate]
    exact h.previous
  steps := (congrArg Statistics.steps halike.statistics).trans h.steps
  evaluations := (congrArg Statistics.evaluations halike.statistics).trans h.evaluations

/-- On a walk every step that is not the last one leads on to the next. -/
theorem Walked.advance (h : Walked setup b k s) {j : Nat} (hj : j < k) :
    (Session.advance setup).outcome (attempts setup b j) = (.ok (), attempts setup b (j + 1)) := by
  rw [← outcome_step_of_not_stopped setup (h.going j hj)]
  exact Prod.ext (h.answered j hj) rfl

/-- On a walk the search goes on up to the last step. -/
theorem Walked.searching (hA : A.InOrder) (hR : setup.residual.Computes F)
    (hF : Residual.Conforms F) (h : Walked setup b k s) (hb : b.Commences F setup)
    (hwatches : b.monitor.condition.mode.watchesBest = true) (j : Nat) (hj : j < k) :
    Searching F setup b j (attempts setup b j) := by
  induction j with
  | zero => exact hb.searching hA hwatches
  | succ j ih =>
    have hj' : j < k := Nat.lt_of_succ_lt hj
    exact (ih hj').next hA hR hF (h.advance hj') (h.going (j + 1) hj)

/-- A walk that ends because the residual stalled or diverged returns to the best point. -/
theorem Walked.restored (hA : A.InOrder) (hR : setup.residual.Computes F)
    (hF : Residual.Conforms F) (h : Walked setup b k s) (hb : b.Commences F setup)
    (hback : s.status.fallsBack = true) : Restored F setup b k s := by
  rw [h.alike.status] at hback
  cases k with
  | zero =>
    change b.status.fallsBack = true at hback
    rw [hb.status] at hback
    cases hback
  | succ k =>
    have hk := Nat.lt_succ_self k
    have hstep := of_advance (ordered_attempts hb.ordered k) (h.advance hk)
    have hrunning := h.running hb.status hb.ordered k hk
    -- The mode that the last step watched in is the one the solve began with.
    obtain ⟨-, -, -, hwatches, -⟩ := hstep.of_fallsBack hrunning hback
    have hsettings := settings_attempts fun j hj => h.going j (Nat.lt_succ_of_lt hj)
    rw [show (attempts setup b k).monitor.condition = b.monitor.condition from
      congrArg Settings.condition hsettings] at hwatches
    have hsearching := h.searching hA hR hF hb hwatches k hk
    exact (hsearching.restored hA hR hF hstep hrunning hback).of_alike h.alike

/-! ## Reports -/

/-- What a report tells of a solve that fell back: it is at the first of the points its steps
visited where the norm of the residual was least, with the residual there. -/
structure FellBack (F : Tensor A → P → Attempt A (Tensor A)) (setup : Setup A P) (b s : Session A P)
    (r : Report A) : Prop where
  best : ∃ k i : Nat, r.steps = k ∧ r.iterate = visited setup b i ∧
    FirstLeast (norms F setup b) k i s.monitor.best
  residual : F r.iterate b.parameter = .ok r.residual
  residualNorm : r.residualNorm = .real s.monitor.best
  initial : norms F setup b 0 = .ok b.monitor.initial ∧
    A.le s.monitor.best b.monitor.initial = true
  previous : s.work.previous = r.iterate
  evaluations : r.evaluations = r.steps + 2

/-- A solve that begins, with a start or a restart that answers, at a norm that is a number, and
that ends because the residual stalled or diverged, reports the first of the points it visited where
the norm, a function of the residual, was least. -/
theorem fallback_least (hA : A.InOrder) (hR : setup.residual.Computes F)
    (hF : Residual.Conforms F) {request : Request A P} {s₀ : Session A P} {n : Nat}
    (hstart : start setup request = (.ok s₀, n)) {past present : List (Operation A P)}
    (hpast : ∀ op ∈ past, op.IsSolving) (hrenews : Renews setup s₀ past)
    (hb : b = after setup s₀ past) (hdefined : A.Defined b.monitor.initial)
    (hpresent : ∀ op ∈ present, op.TakesSteps) (hanswer : Completes setup b present)
    {r : Report A} (hrun : (run setup).outcome (after setup b present) = (.ok r, s))
    (hback : r.status = .stalled ∨ r.status = .unstable) : FellBack F setup b s r := by
  subst hb
  have hcommences := hrenews.commences hR hF hstart hpast hdefined
  have hI := invariant_walks hR hF (after setup s₀ past)
  have hwalks := hI.after_of_mem (fun op h => (hpresent op h).isSolving)
    (fun _ r h => (hpresent _ h).elim) hanswer
    (.inl ⟨0, follows_zero hR hF hstart past, fun j hj => absurd hj (Nat.not_lt_zero j)⟩)
  obtain ⟨norm, hnorm, rfl⟩ := of_run hrun
  have hfalls : s.status.fallsBack = true := decide_eq_true hback
  rcases (hI.run hwalks).of_ok hrun with ⟨k, hwalked⟩ | ⟨-, hspent⟩
  · have hrestored := hwalked.restored hA hR hF hcommences hfalls
    obtain ⟨i, hi, hbest⟩ := hrestored.best
    have hinitial : norms F setup (after setup s₀ past) 0 =
        .ok (after setup s₀ past).monitor.initial :=
      (objective_of_residual hcommences.consistent).trans hcommences.norm
    have hnorm' : setup.norm s.work.residual = .ok s.monitor.best := by
      rw [← hbest.value, norms, ← hi]
      exact (objective_of_residual hrestored.residual).symm
    obtain rfl := Except.ok.inj (hnorm.symm.trans hnorm')
    exact
      { best := ⟨k, i, hrestored.steps, hi, hbest⟩
        residual := hrestored.residual
        residualNorm := rfl
        initial := ⟨hinitial, hbest.least 0 (Nat.zero_le k) _ hinitial hcommences.defined⟩
        previous := hrestored.previous
        evaluations := by
          change s.statistics.evaluations = s.statistics.steps + 2
          rw [hrestored.evaluations, hrestored.steps] }
  · rw [hspent] at hfalls
    cases hfalls

open QuasiNewton.Affine in
/-- Twice the iterate less the parameter is reflected by the first step: a solve that allows one
check without a new best norm stalls where it started. -/
theorem fallback_least_affine :
    ∃ s₀ n r s, start problem request = (.ok s₀, n) ∧
      (run problem).outcome (after problem (after problem s₀ impatience) [.steps 1]) =
        (.ok r, s) ∧
      r.status = .stalled ∧ FellBack (residual 2) problem (after problem s₀ impatience) s r := by
  obtain ⟨s₀, n, hstart, hrestart, hdefined, hstep, hstalled⟩ := exists_started problem request
    (fun s => (∃ a, ((restart problem impatient).outcome (after problem s [.steps 1])).1 = .ok a) ∧
      Machine.arithmetic.Defined (after problem s impatience).monitor.initial ∧
      Completes problem (after problem s impatience) [.steps 1] ∧
      ((run problem).outcome (after problem s (impatience ++ [.steps 1]))).1.toOption.any
        (·.status == .stalled) = true) (by decide +kernel)
  obtain ⟨⟨⟩, ha⟩ := hrestart
  rcases hrun : (run problem).outcome (after problem s₀ (impatience ++ [.steps 1])) with ⟨e | r, s⟩
  · rw [hrun] at hstalled
    cases hstalled
  · rw [hrun] at hstalled
    have hstatus : r.status = .stalled := of_decide_eq_true hstalled
    rw [after_append] at hrun
    exact ⟨s₀, n, r, s, hstart, hrun, hstatus,
      fallback_least Machine.magnitudes_inOrder (computes_residual 2) (conforms_residual 2) hstart
        (by decide) (.inr ⟨[.steps 1], impatient, _, rfl, Prod.ext ha rfl⟩) rfl hdefined
        (by decide) hstep hrun (.inl hstatus)⟩

end Session

end QuasiNewton
