import QuasiNewton.Proofs.Operations

/-!
# Beginnings

What a session is when it has been started: its arrays are regular, its monitor has seen the
starting point only, and nothing is counted but one evaluation.
-/

namespace QuasiNewton

open QuasiNewton.Action

variable {A : Arithmetic} {P : Type} {F : Tensor A → P → Attempt A (Tensor A)} {setup : Setup A P}

/-- The tie of sessions that are the same, with arrays in a frame. -/
def Tie.same (f : Frame A) : Tie A where
  known := Workspace.Scratch.all
  searches := 0
  calls := 0
  earlier := some []
  frame := some f
  best := none
  fillable := false

/-- The same, with directions that take rows. -/
def Tie.rowwise (f : Frame A) : Tie A := { Tie.same f with fillable := true }

/-- The tie of a regular session to itself. -/
def Tie.itself (f : Frame A) : Tie A := { Tie.same f with best := some f }

/-- The arrays for a starting point and the residual there are regular. -/
theorem Origin.regular_allocate (hF : Residual.Conforms F) {origin : Origin A} {p : P}
    {v : Tensor A} (hsize : origin.point.size ≠ 0) (hv : F origin.iterate p = .ok v)
    (R : Residual A P) :
    (Workspace.allocate (origin.fillable R) origin.iterate v).Regular origin.frame :=
  Workspace.regular_allocate (.working _) hsize origin.frame_iterate
    ((hF _ _ _ hv).trans origin.frame_iterate) fun hA =>
      fillable_of_isRowwise (isRowwise_of_isWorking (hA _)) R

namespace Session

/-! ## Starts -/

/-- A session that has taken no step. -/
def fresh (setup : Setup A P) (request : Request A P) (residual : Tensor A)
    (budget : Quantity A.Real) (monitor : Monitor A) (check : ResetCheck A) (rule : LineSearch A) :
    Session A P where
  parameter := request.parameter
  work := Workspace.allocate (request.origin.fillable setup.residual) request.origin.iterate
    residual
  resetCheck := check
  lineSearch := rule
  monitor := monitor
  tolerances := monitor.tolerances
  budget := budget
  resets := 0
  stopped := false
  status := .running
  statistics := .fresh
  evaluations := 1
  searches := 0
  transcript := []
  origin := request.origin.point
  shared := request.origin.shares

/-- What a session that has been started is made of, whatever the residual function answers. -/
theorem of_start {request : Request A P} {s : Session A P} {n : Nat}
    (h : start setup request = (.ok s, n)) :
    ∃ budget ready condition tolerances objective check rule,
      request.origin.ready setup.residual request.parameter 0 = (.ok ready, n) ∧
      Tolerances.make (A.join ready.iterate.kind ready.residual.kind) request.absolute
        request.relative = .ok tolerances ∧
      s =
        { parameter := request.parameter
          work := Workspace.allocate ready.fillable ready.iterate ready.residual
          resetCheck := check
          lineSearch := rule
          monitor := Monitor.start condition tolerances objective ready.iterate
          tolerances := tolerances
          budget := budget
          resets := 0
          stopped := false
          status := .running
          statistics := .fresh
          evaluations := n
          searches := 0
          transcript := []
          origin := request.origin.point
          shared := ready.shared } := by
  unfold start at h
  split at h
  case h_1 => cases h
  case h_2 budget hbudget =>
    split at h
    case h_1 => cases h
    case h_2 ready calls hready =>
      obtain ⟨hs, rfl⟩ := Prod.mk.inj h
      obtain ⟨monitor, hmake, hs⟩ := Attempt.bind_eq_ok.mp hs
      obtain ⟨check, -, hs⟩ := Attempt.bind_eq_ok.mp hs
      obtain ⟨rule, -, hs⟩ := Attempt.bind_eq_ok.mp hs
      obtain ⟨condition, tolerances, objective, -, ht, -, rfl⟩ := Monitor.make_eq_ok.mp hmake
      exact ⟨budget, ready, condition, tolerances, objective, check, rule, hready, ht,
        (Attempt.pure_eq_ok.mp hs).symm⟩

/-- When a session can be started, and what it is then. -/
theorem start_eq_ok (hR : setup.residual.Computes F) (hF : Residual.Conforms F)
    {request : Request A P} {s : Session A P} {n : Nat} :
    start setup request = (.ok s, n) ↔
      ∃ residual budget monitor check rule,
        checkBudget request.budget = .ok budget ∧
        request.origin.point.size ≠ 0 ∧
        F request.origin.iterate request.parameter = .ok residual ∧
        Monitor.make request.condition request.absolute request.relative setup.norm residual
          request.origin.iterate = .ok monitor ∧
        ResetCheck.forKind request.origin.frame.kind setup.options.resetTolerance = .ok check ∧
        LineSearch.ofChoice setup.options.lineSearch = .ok rule ∧
        s = fresh setup request residual budget monitor check rule ∧ n = 1 := by
  unfold start
  cases hbudget : checkBudget request.budget with
  | error e => simp
  | ok budget =>
    simp only [Origin.ready_of_computes hR hF]
    by_cases hsize : request.origin.point.size = 0
    · simp [hsize]
    · rw [if_neg hsize]
      cases hv : F request.origin.iterate request.parameter with
      | error e => simp [Except.map]
      | ok v =>
        have hregular := Origin.regular_allocate hF hsize hv setup.residual
        have hkind := Tensor.kind_of_frame hregular.inverse
        simp only [Except.map, assemble, hkind, Prod.mk.injEq, Attempt.bind_eq_ok,
          Attempt.pure_eq_ok]
        constructor
        · rintro ⟨⟨m, hm, c, hc, l, hl, rfl⟩, rfl⟩
          exact ⟨v, budget, m, c, l, rfl, hsize, rfl, hm, hc, hl, rfl, rfl⟩
        · rintro ⟨_, _, m, c, l, hb, -, hv', hm, hc, hl, rfl, rfl⟩
          cases hb
          cases hv'
          exact ⟨⟨m, hm, c, hc, l, hl, rfl⟩, rfl⟩

/-! ## Regular sessions -/

/-- A session whose arrays and settings belong together. -/
structure Composed (setup : Setup A P) (f : Frame A) (s : Session A P) : Prop where
  work : s.work.Regular f
  check : ResetCheck.forKind f.kind setup.options.resetTolerance = .ok s.resetCheck
  rule : LineSearch.ofChoice setup.options.lineSearch = .ok s.lineSearch
  positive : s.budget.isBelow (M := A.toMagnitudes) 1 = false

/-- A session of a solve that is in order: the best iterate belongs to the arrays, too. -/
structure Regular (setup : Setup A P) (f : Frame A) (s : Session A P) : Prop extends
    Composed setup f s where
  best : s.monitor.bestIterate.frame = f

/-- A session is composed if it is alike itself without regard to the best iterate. -/
theorem composed_iff_alike {f : Frame A} {s : Session A P} :
    s.Composed setup f ↔ Alike setup (Tie.same f) s s := by
  constructor
  · intro h
    exact
      { parameter := rfl
        work := .refl _ _
        resetCheck := rfl
        monitor := rfl
        tolerances := rfl
        budget := rfl
        resets := rfl
        stopped := rfl
        status := rfl
        statistics := rfl
        line := s.lineSearch.later_zero.symm
        searches := by simp [Tie.same]
        evaluations := by simp [Tie.same]
        transcript := fun l hl => by
          obtain rfl : [] = l := Option.some.inj hl
          rfl
        regular := fun g hg => by
          obtain rfl : f = g := Option.some.inj hg
          exact h.work
        fillable := fun g _ hτ => nomatch hτ
        check := fun g hg => by
          obtain rfl : f = g := Option.some.inj hg
          exact h.check
        best := fun g hg => by cases hg
        rule := h.rule
        positive := h.positive }
  · intro h
    exact
      { work := h.regular f rfl
        check := h.check f rfl
        rule := h.rule
        positive := h.positive }

/-- A session is regular if it is alike itself. -/
theorem regular_iff_alike {f : Frame A} {s : Session A P} :
    s.Regular setup f ↔ Alike setup (Tie.itself f) s s := by
  constructor
  · intro h
    refine { composed_iff_alike.mp h.toComposed with best := fun g hg => ?_ }
    obtain rfl : f = g := Option.some.inj hg
    exact h.best
  · intro h
    exact ⟨composed_iff_alike.mpr h.unfit, h.best f rfl⟩

/-- A session that has been started is regular. -/
theorem regular_start (hR : setup.residual.Computes F) (hF : Residual.Conforms F)
    {request : Request A P} {s : Session A P} {n : Nat} (h : start setup request = (.ok s, n)) :
    s.Regular setup request.origin.frame := by
  obtain ⟨v, budget, monitor, check, rule, hbudget, hsize, hv, hmonitor, hcheck, hrule, rfl, -⟩ :=
    (start_eq_ok hR hF).mp h
  obtain ⟨c, t, o, -, -, -, rfl⟩ := Monitor.make_eq_ok.mp hmonitor
  exact
    { work := Origin.regular_allocate hF hsize hv setup.residual
      best := request.origin.frame_iterate
      check := hcheck
      rule := hrule
      positive := checkBudget_positive hbudget }

/-- If the starting point is stored row by row, the direction takes rows. -/
theorem fillable_start (hR : setup.residual.Computes F) (hF : Residual.Conforms F)
    {request : Request A P} {s : Session A P} {n : Nat} (h : start setup request = (.ok s, n))
    (hrow : request.origin.isRowwise = true) : s.work.fillable = true := by
  obtain ⟨v, budget, monitor, check, rule, -, -, -, -, -, -, rfl, -⟩ := (start_eq_ok hR hF).mp h
  exact Origin.fillable_of_isRowwise hrow setup.residual

/-- A regular session whose direction takes rows is alike itself with that. -/
theorem Regular.alike_rowwise {f : Frame A} {s : Session A P} (hs : s.Regular setup f)
    (h : s.work.fillable = true) : Alike setup (Tie.rowwise f) s s :=
  { composed_iff_alike.mp hs.toComposed with fillable := fun _ _ _ => h }

/-- A step leaves a session regular. -/
theorem Regular.advance {f : Frame A} {s s' : Session A P} (hR : setup.residual.Computes F)
    (hF : Residual.Conforms F) (hs : s.Regular setup f)
    (h : (Session.advance setup).outcome s = (.ok (), s')) : s'.Regular setup f := by
  obtain ⟨t, ht, halike⟩ := (advance_agree (.refl hR hF) (regular_iff_alike.mp hs)
    (.inl rfl) (fun _ _ h => h) rfl).of_ok h
  obtain rfl : s' = t := congrArg Prod.snd (h.symm.trans ht)
  exact regular_iff_alike.mpr halike

/-- A restart makes a session regular, in the frame of the new point. -/
theorem Composed.restart {f : Frame A} {s s' : Session A P} (hR : setup.residual.Computes F)
    (hF : Residual.Conforms F) (hs : s.Composed setup f) {r : Restart A P}
    (h : (Session.restart setup r).outcome s = (.ok (), s')) : s'.Regular setup (r.frame f) := by
  obtain ⟨t, ht, halike⟩ := (restart_agree (r := r) (.refl hR hF) (composed_iff_alike.mp hs)
    (.inl rfl) fun _ _ => .inl ⟨rfl, rfl⟩).of_ok h
  obtain rfl : s' = t := congrArg Prod.snd (h.symm.trans ht)
  exact regular_iff_alike.mpr halike

end Session

end QuasiNewton
