import QuasiNewton.Proofs.Affine
import QuasiNewton.Proofs.Restarts

/-!
# Restarts erase the past

From a restart on, a session does what a new one does that is started at the same point with the
same settings. What the arrays and the monitor held before is forgotten; only the counts of calls go
on. A direction that is overwritten and does not take rows is the exception: a restart at a point of
the same shape keeps it.
-/

namespace QuasiNewton

open QuasiNewton.Action

variable {A : Arithmetic} {P : Type} {F : Tensor A → P → Attempt A (Tensor A)} {setup : Setup A P}
  {f : Frame A} {s s' t : Session A P}

/-! ## Later starts -/

namespace LineSearch

/-- The same choice, whose function has been called a number of times already. -/
def Choice.later (k : Nat) : Choice A → Choice A
  | .setting value => .setting value
  | .function f => .function fun n => f (k + n)

/-- A function that has been called before is the rule that has been asked before. -/
theorem ofChoice_later {choice : Choice A} {rule : LineSearch A} (k : Nat)
    (h : ofChoice choice = .ok rule) : ofChoice (choice.later k) = .ok (rule.later k) := by
  cases choice with
  | function f =>
    cases h
    rfl
  | setting value =>
    cases rule with
    | fullStep => exact h
    | fixed length => exact h
    | search f =>
      unfold ofChoice at h
      split at h
      · rename_i hfunction
        cases hfunction
      · cases h
      · cases h
      · obtain ⟨length, -, h⟩ := Attempt.bind_eq_ok.mp h
        split at h
        · cases h
        · cases h
      · cases h

end LineSearch

namespace Tolerances

/-- Is a tolerance a magnitude that is not negative? -/
def isChecked : Setting A.Real → Bool
  | .number (.real x) => !isNegative x
  | _ => false

/-- Are both tolerances magnitudes that are not negative? -/
def areChecked (t : Tolerances A) : Bool := isChecked t.absolute && isChecked t.relative

/-- Magnitudes are checked unless one of them is negative. -/
theorem areChecked_mk (a b : A.Real) :
    areChecked (A := A) ⟨.number (.real a), .number (.real b)⟩ = !(isNegative a || isNegative b) :=
  (Bool.not_or _ _).symm

/-- Tolerances that are checked are magnitudes. -/
theorem eq_of_areChecked {t : Tolerances A} (h : t.areChecked = true) :
    ∃ a b, t = ⟨.number (.real a), .number (.real b)⟩ := by
  have hmagnitude : ∀ s : Setting A.Real, isChecked s = true → ∃ x, s = .number (.real x) := by
    intro s hs
    unfold isChecked at hs
    split at hs
    · exact ⟨_, rfl⟩
    · cases hs
  obtain ⟨habsolute, hrelative⟩ := Bool.and_eq_true_iff.mp h
  obtain ⟨a, ha⟩ := hmagnitude _ habsolute
  obtain ⟨b, hb⟩ := hmagnitude _ hrelative
  obtain ⟨absolute, relative⟩ := t
  exact ⟨a, b, congr (congrArg Tolerances.mk ha) hb⟩

/-- Magnitudes pass the check as they are unless one of them is negative. -/
theorem make_mk (kind : A.Kind) (a b : A.Real) :
    make kind (.number (.real a)) (.number (.real b)) =
      if isNegative a || isNegative b then .error (.negativeTolerances a b)
      else .ok ⟨.number (.real a), .number (.real b)⟩ := rfl

/-- What a check answers is checked. -/
theorem areChecked_of_make {kind : A.Kind} {absolute relative : Setting A.Real} {t : Tolerances A}
    (h : make kind absolute relative = .ok t) : t.areChecked = true := by
  obtain ⟨a, -, h⟩ := Attempt.bind_eq_ok.mp h
  obtain ⟨b, -, h⟩ := Attempt.bind_eq_ok.mp h
  split at h
  case isTrue => cases h
  case isFalse hneg =>
    obtain rfl := Except.ok.inj h
    rw [areChecked_mk, Bool.not_eq_true', Bool.eq_false_iff]
    exact hneg

/-- Exactly the tolerances that are checked pass the check as they are. -/
theorem make_eq_self_iff {kind : A.Kind} {t : Tolerances A} :
    make kind t.absolute t.relative = .ok t ↔ t.areChecked = true := by
  refine ⟨areChecked_of_make, fun h => ?_⟩
  obtain ⟨a, b, rfl⟩ := eq_of_areChecked h
  rw [areChecked_mk, Bool.not_eq_true', Bool.eq_false_iff] at h
  exact (make_mk kind a b).trans (if_neg h)

end Tolerances

/-- The same setup, whose line search has been asked a number of times already. -/
def Setup.later (setup : Setup A P) (k : Nat) : Setup A P :=
  { setup with options := { setup.options with lineSearch := setup.options.lineSearch.later k } }

/-- What a new session is started with that takes the place of one restarted at a point. -/
def Session.renewal (s : Session A P) (point : Tensor A) (layout : Layout) : Request A P where
  origin := { point, layout }
  parameter := s.parameter
  budget := .number s.budget
  absolute := s.tolerances.absolute
  relative := s.tolerances.relative
  condition := .condition s.monitor.condition

namespace Session

/-! ## Renewed sessions -/

/-- A budget that is at least one passes the check as it is. -/
theorem checkBudget_number {q : Quantity A.Real} (h : q.isBelow (M := A.toMagnitudes) 1 = false) :
    checkBudget (.number q) = .ok q := by
  change (if q.isBelow (M := A.toMagnitudes) 1 then _ else _) = _
  rw [h]
  rfl

/-- A monitor started over with tolerances that pass the check is the one that is made there with
its own condition and tolerances. -/
theorem Restart.make_of_monitor {r : Restart A P} {norm : Norm A} {m m' : Monitor A}
    {tolerances : Tolerances A} {residual iterate : Tensor A}
    (h : r.monitor norm m tolerances residual iterate = (.ok (), m'))
    (hchecked : m'.tolerances.areChecked = true) :
    Monitor.make (.condition m'.condition) m'.tolerances.absolute m'.tolerances.relative norm
      residual iterate = .ok m' := by
  have hanswer : (r.monitor norm m tolerances residual iterate).1 = .ok () := congrArg Prod.fst h
  obtain ⟨condition, _, objective, hnorm, hstart⟩ := Restart.of_monitor hanswer
  rw [h] at hstart
  replace hstart : m' = Monitor.start condition _ objective iterate := hstart
  refine Monitor.make_eq_ok.mpr ⟨m'.condition, m'.tolerances, objective, rfl,
    Tolerances.make_eq_self_iff.mpr hchecked, hnorm, ?_⟩
  rw [hstart]
  rfl

/-- The tie of a restarted session to a new one. -/
def renewedTie (s s' : Session A P) : Tie A where
  known := []
  searches := s'.searches
  calls := s.evaluations
  earlier := some s'.transcript
  frame := none
  best := none
  fillable := false

/-- In the place of a session that was restarted a new one can be started. If the direction takes
rows, the two are alike. -/
theorem Restarted.renewal (hR : setup.residual.Computes F) (hF : Residual.Conforms F)
    {r : Restart A P} (hs : s.work.Regular f) (hs' : s'.Regular setup (r.frame f))
    (h : Restarted F setup f r s s') (hkind : ∀ point ∈ r.point, point.kind = f.kind)
    (hfillable : s'.work.fillable = true) (htolerances : s'.tolerances.areChecked = true) :
    ∃ c, start (setup.later s'.searches)
        (s'.renewal (r.point.getD s.work.iterate) r.layout) = (.ok c, 1) ∧
      Alike setup (renewedTie s s') s' c := by
  have hrow :
      Origin.isRowwise { point := r.point.getD s.work.iterate, layout := r.layout } = true := by
    refine Origin.isRowwise_of_isWorking ?_
    cases hp : r.point with
    | none => exact (Tensor.kind_of_frame hs.iterate).symm ▸ hs.working
    | some point => exact (hkind point hp).symm ▸ hs.working
  have hpositive := hs'.positive
  have hrule := hs'.rule
  cases h with
  | @intro u v work budget check m origin shared hbudget hu hpoint hv hwork hregular hcheck hm =>
    obtain rfl := hpoint fun point hp _ => hkind point hp
    have hmake := Restart.make_of_monitor hm htolerances
    have hframe :
        Origin.frame { point := r.point.getD s.work.iterate, layout := r.layout } = r.frame f :=
      (Origin.frame_iterate _).symm.trans hu
    have hsize : (r.point.getD s.work.iterate).size ≠ 0 := by
      have hnonempty := hregular.nonempty
      rw [← hframe] at hnonempty
      exact hnonempty
    rw [← hframe] at hcheck
    have hlater : (setup.later s.searches).residual.Computes F := hR
    have hnew : Origin.fillable { point := r.point.getD s.work.iterate, layout := r.layout }
        (setup.later s.searches).residual = true := Origin.fillable_of_isRowwise hrow _
    refine ⟨_, (start_eq_ok hlater hF).mpr ⟨v, budget, m, check,
      s.lineSearch.later s.searches, checkBudget_number hpositive, hsize, hv, hmake, hcheck,
      LineSearch.ofChoice_later _ hrule, rfl, rfl⟩, ?_⟩
    exact
      { parameter := rfl
        work := by
          rw [fresh, Session.renewal, hnew]
          exact hwork.alike hregular hfillable
        resetCheck := rfl
        monitor := rfl
        tolerances := rfl
        budget := rfl
        resets := rfl
        stopped := rfl
        status := rfl
        statistics := rfl
        line := rfl
        searches := rfl
        evaluations := rfl
        transcript := fun l hl => by
          obtain rfl := Option.some.inj hl
          exact (List.append_nil _).symm
        regular := fun g hg => by cases hg
        fillable := fun g hg => by cases hg
        check := fun g hg => by cases hg
        best := fun g hg => by cases hg
        rule := hrule
        positive := hpositive }

/-- Two sessions show the same solve. -/
structure SameSolve (s t : Session A P) : Prop where
  parameter : s.parameter = t.parameter
  iterate : s.work.iterate = t.work.iterate
  previous : s.work.previous = t.work.previous
  residual : s.work.residual = t.work.residual
  inverse : s.work.inverse = t.work.inverse
  monitor : s.monitor = t.monitor
  tolerances : s.tolerances = t.tolerances
  budget : s.budget = t.budget
  resets : s.resets = t.resets
  stopped : s.stopped = t.stopped
  status : s.status = t.status
  statistics : s.statistics = t.statistics

/-- Sessions that are alike show the same solve. -/
theorem Alike.sameSolve {τ : Tie A} (h : Alike setup τ s t) : SameSolve s t :=
  { h with
    iterate := h.work.iterate
    previous := h.work.previous
    residual := h.work.residual
    inverse := h.work.inverse }

/-- If residuals are returned, the direction takes rows after a restart that answers, whatever came
before it. -/
theorem fillable_of_restart (hreturns : setup.residual.writes = false) {request : Request A P}
    {s₀ : Session A P} {n : Nat} (hstart : start setup request = (.ok s₀, n))
    {past : List (Operation A P)} (hpast : ∀ op ∈ past, op.IsSolving) {r : Restart A P}
    (hrestart : (restart setup r).outcome (after setup s₀ past) = (.ok (), s)) :
    s.work.fillable = true := by
  have hstable := (Workspace.preserved_fillable hreturns).stable
  exact ((hstable.restart (hstable.after hstart hpast) r).of_ok hrestart).2

/-- Whatever a session has been through, if steps were taken only while the best iterate belonged to
the arrays, after a restart that answers it goes on as a new one does that is started at the same
point with the settings then in effect: it answers every further operation alike and shows the same
solve. A direction that is overwritten has to take rows, which a restart at a point of the same
shape leaves as it was. If no condition is given, the tolerances in effect have to be ones that a
start takes as they are. -/
theorem restart_renews (hR : setup.residual.Computes F) (hF : Residual.Conforms F)
    {request : Request A P} {s₀ : Session A P} {n : Nat}
    (hstart : start setup request = (.ok s₀, n)) {past : List (Operation A P)}
    (hpast : ∀ op ∈ past, op.IsSolving) (hfit : Fitting setup s₀ past) {r : Restart A P}
    (hrestart : (restart setup r).outcome (after setup s₀ past) = (.ok (), s))
    (hkind : ∀ point ∈ r.point, point.kind = (after setup s₀ past).work.iterate.kind)
    (hfillable : setup.residual.writes = true → s.work.fillable = true)
    (htolerances : r.condition = .setting .absent → s.tolerances.areChecked = true) :
    Settled r (after setup s₀ past) s ∧
      ∃ c, start (setup.later s.searches)
        (s.renewal (r.point.getD (after setup s₀ past).work.iterate) r.layout) = (.ok c, 1) ∧
      ∀ future : List (Operation A P),
        answers setup s future = answers (setup.later s.searches) c future ∧
        SameSolve (after setup s future) (after (setup.later s.searches) c future) ∧
        (after setup s future).transcript =
          s.transcript ++ (after (setup.later s.searches) c future).transcript := by
  obtain ⟨f, hcomposed⟩ := (regular_start hR hF hstart).toComposed.after hR hF hpast hfit
  have hiterate := Tensor.kind_of_frame hcomposed.work.iterate
  have hrestarted := of_restart hR hF hcomposed hrestart
  have hchecked : s.tolerances.areChecked = true := by
    by_cases hgiven : r.condition = .setting .absent
    · exact htolerances hgiven
    · obtain ⟨-, kind, hmake⟩ := hrestarted.settled.given hgiven
      exact Tolerances.areChecked_of_make hmake
  have hrows : s.work.fillable = true := by
    cases hwrites : setup.residual.writes with
    | true => exact hfillable hwrites
    | false => exact fillable_of_restart hwrites hstart hpast hrestart
  obtain ⟨c, hc, halike⟩ := hrestarted.renewal hR hF hcomposed.work
    (hcomposed.restart hR hF hrestart) (fun point hp => (hkind point hp).trans hiterate) hrows
    hchecked
  refine ⟨hrestarted.settled, c, hc, fun future => ?_⟩
  have hw : setup.Twins F (setup.later s.searches) := ⟨hR, hR, hF, rfl, rfl, rfl, rfl⟩
  obtain ⟨hsame, hafter⟩ := after_agree_loose hw rfl halike.loosen future
  exact ⟨hsame, hafter.sameSolve, hafter.transcript _ rfl⟩

section

open QuasiNewton.Affine

/-- After a step and a stumble, a restart at two elements and a start there answer the same. -/
theorem restart_renews_affine :
    ∃ s₀ n s c, start problem request = (.ok s₀, n) ∧ Fitting problem s₀ (.steps 1 :: stumble) ∧
      (restart problem move).outcome (after problem s₀ (.steps 1 :: stumble)) = (.ok (), s) ∧
      start (problem.later s.searches) (s.renewal (vector double [1, 4]) .packed) = (.ok c, 1) ∧
      answers problem s [.run] = answers (problem.later s.searches) c [.run] := by
  obtain ⟨s₀, n, hstart, hfit, hrestart, hkind, hfillable, htolerances⟩ :=
    exists_started problem request
    (fun s => Fitting problem s (.steps 1 :: stumble) ∧
      (∃ a, ((restart problem move).outcome (after problem s (.steps 1 :: stumble))).1 = .ok a) ∧
      double = (after problem s (.steps 1 :: stumble)).work.iterate.kind ∧
      ((restart problem move).outcome
        (after problem s (.steps 1 :: stumble))).2.work.fillable = true ∧
      ((restart problem move).outcome
        (after problem s (.steps 1 :: stumble))).2.tolerances.areChecked = true)
    (by decide +kernel)
  obtain ⟨⟨⟩, ha⟩ := hrestart
  have hpoint : ∀ point ∈ move.point,
      point.kind = (after problem s₀ (.steps 1 :: stumble)).work.iterate.kind := by
    intro point hp
    cases hp
    exact hkind
  obtain ⟨-, c, hc, hfuture⟩ := restart_renews (computes_residual 2) (conforms_residual 2) hstart
    (by decide) hfit (Prod.ext ha rfl) hpoint (fun _ => hfillable) fun _ => htolerances
  exact ⟨s₀, n, _, c, hstart, hfit, Prod.ext ha rfl, hc, (hfuture [.run]).1⟩

end

end Session

end QuasiNewton
