import QuasiNewton.Proofs.Affine
import QuasiNewton.Proofs.Negligible
import QuasiNewton.Proofs.Plateaus
import QuasiNewton.Proofs.Rounding
import QuasiNewton.Proofs.Rules
import QuasiNewton.Proofs.Storage

/-!
# Constant residuals

A solve of a residual without a zero, the same everywhere, comes to an end after as many steps as
the least of its three budgets allows, none of them a secant update.
-/

namespace QuasiNewton

open QuasiNewton.Action

/-! ## Starts -/

section

variable {A : Arithmetic} {P : Type} {R : Residual A P} {c : Tensor A}

/-- The kind in which a solve stores its iterates and its first residual. -/
def Origin.storage (origin : Origin A) (c : Tensor A) : A.Kind :=
  A.join (A.working origin.point.kind) c.kind

/-- A starting point of the shape of a residual that is constant is ready after one call. -/
theorem Origin.ready_of_constant (hR : R.IsConstant c) (origin : Origin A)
    (hshape : origin.point.shape = c.shape) (hsize : c.size ≠ 0)
    (hwritten : R.writes = true → A.working origin.point.kind = c.kind) (p : P) (n : Nat) :
    origin.ready R p n = (.ok
      { iterate := origin.iterate.castTo (origin.storage c)
        residual := c.castTo (origin.storage c)
        shared := origin.shares && origin.iterate.kind == origin.storage c
        fillable := origin.fillable R }, n + 1) := by
  have hkind : origin.iterate.kind = A.working origin.point.kind := Tensor.kind_castTo _ _
  have hsame : origin.iterate.shape = c.shape := (Tensor.shape_castTo _ _).trans hshape
  have hhosts : R.Hosts c origin.iterate :=
    ⟨hsame, fun hw => Tensor.frame_eq (hkind.trans (hwritten hw)) hsame⟩
  have hvalue : (R.evaluate n origin.iterate.zerosLike origin.iterate p).1 = .ok c :=
    hR.evaluate hhosts (fun hw => (Tensor.frame_zerosLike _).trans (hhosts.2 hw)) n p
  have hnonempty : origin.point.size ≠ 0 := fun h =>
    hsize ((congrArg Shape.size hshape).symm.trans h)
  unfold ready
  rw [if_neg hnonempty]
  refine Prod.ext ?_ (Residual.evaluate_snd ..)
  change Except.bind (R.evaluate n origin.iterate.zerosLike origin.iterate p).1
    (fun v => Ready.join origin.iterate v origin.shares (origin.fillable R)) = _
  rw [hvalue]
  change Ready.join origin.iterate c origin.shares (origin.fillable R) = _
  rw [Ready.join, if_pos hsame.symm, storage, ← hkind]

end

/-! ## Constants -/

namespace Machine

/-- All elements are finite. -/
def IsFinite (t : Tensor arithmetic) : Prop :=
  ∀ i < t.size, Number.isFinite t.kind (t.elem i) = true

instance (t : Tensor arithmetic) : Decidable (IsFinite t) :=
  inferInstanceAs (Decidable (∀ i < t.size, Number.isFinite t.kind (t.elem i) = true))

/-- A constant less itself is negligible, also if it was stored in a kind that joins its own. -/
theorem negligible_of_constant {c t y : Tensor arithmetic} {k : arithmetic.Kind}
    (hk : arithmetic.join k c.kind = k) (hfinite : IsFinite c) (hstored : IsFinite (c.castTo k))
    {check : ResetCheck arithmetic} (hpositive : check.tolerance.isAbove (M := magnitudes) 0 = true)
    (hrange : Quantity.InRange arithmetic check.tolerance) (ht : t = c ∨ t = c.castTo k)
    (hy : c.sub t = .ok y) : check.negligible y = .ok true := by
  have hjoin : arithmetic.join c.kind k = k := (Kind.join_comm c.kind k).trans hk
  rcases ht with rfl | rfl
  · refine negligible_sub rfl rfl (fun i hi => ?_) hy hpositive hrange
    rw [arithmetic.join_self, Tensor.castTo_self]
    exact hfinite i hi
  · have hcast : (c.castTo k).castTo k = c.castTo k := if_pos (Tensor.kind_castTo k c)
    refine negligible_sub (Tensor.shape_castTo k c).symm ?_ (fun i hi => ?_) hy hpositive hrange
    · rw [Tensor.kind_castTo, hjoin]
      exact hcast.symm
    · rw [Tensor.kind_castTo, hjoin]
      have hsize : (c.castTo k).size = c.size := congrArg Shape.size (Tensor.shape_castTo k c)
      have hi := hstored i (hsize ▸ hi)
      rwa [Tensor.kind_castTo] at hi

end Machine

/-! ## Solves -/

namespace Session

open QuasiNewton.Machine

variable {P : Type} {setup : Setup arithmetic P} {request : Request arithmetic P}
  {c : Tensor arithmetic} {κ : Condition magnitudes} {x : Float} {S : ℕ∞} {r m : ℕ}

/-- A solve of a residual that is always `c`, of norm `x`, under a condition that refuses it and
bears it for `S` checks, with budgets of `r` resets and `m` steps. What the caller supplies is
accepted and answers; a tensor that is returned has negatives, and a watch sees its norm also in the
kind in which the first residual is stored. -/
structure SolvesConstant (setup : Setup arithmetic P) (request : Request arithmetic P)
    (c : Tensor arithmetic) (κ : Condition magnitudes) (x : Float) (S : ℕ∞) (r m : ℕ) : Prop where
  residual : setup.residual.IsConstant c
  shape : request.origin.point.shape = c.shape
  nonempty : c.size ≠ 0
  written : setup.residual.writes = true → arithmetic.working request.origin.point.kind = c.kind
  signed : arithmetic.signed c.kind = true
  finite : IsFinite c ∧ IsFinite (c.castTo (request.origin.storage c))
  norm : setup.norm c = .ok x
  stored : ∃ y, setup.norm (c.castTo (request.origin.storage c)) = .ok y
  condition : Condition.ofChoice request.condition = .ok κ
  refused : ∃ t, Tolerances.make (A := arithmetic) (request.origin.storage c) request.absolute
    request.relative = .ok t ∧ ∀ u, κ.mode.holds setup.norm t c u = .ok false
  unwatched : κ.mode.watchesBest = false → S = ⊤
  watched : κ.mode.watchesBest = true →
    setup.norm (c.castTo (request.origin.storage c)) = .ok x ∧ magnitudes.isFinite x = true ∧
    magnitudes.le magnitudes.zero x = true ∧
    ∃ (n : ℕ) (q : Quantity Float) (factor : Float), S = n ∧
      κ.stallBudget.StandsFor n ∧ κ.threshold = .number q ∧
      q.magnitude (M := magnitudes) = .ok factor ∧ magnitudes.le magnitudes.one factor = true
  patient : 1 ≤ S
  check : ∃ check, ResetCheck.forKind (A := arithmetic) (request.origin.storage c)
    setup.options.resetTolerance = .ok check ∧ Quantity.InRange arithmetic check.tolerance
  line : ∃ rule, LineSearch.ofChoice setup.options.lineSearch = .ok rule ∧
    ∀ n u d, ∃ α, (rule.length n u d).1 = .ok α
  verbosity : ∃ q, setup.verbosity = .number q
  resets : Quantity.StandsFor (M := magnitudes) setup.options.resetBudget r
  budget : ∃ q, request.budget = .number q ∧ q.integer? = some (m : ℤ)
  positive : 1 ≤ m

namespace SolvesConstant

/-- The condition bears the norm of the constant for as many checks as it stalls. -/
theorem bears (h : SolvesConstant setup request c κ x S r m) : κ.Bears x S := by
  cases hwatch : κ.mode.watchesBest with
  | false =>
    rw [h.unwatched hwatch]
    exact .always hwatch
  | true =>
    obtain ⟨-, hfinite, hzero, n, q, factor, rfl, hbudget, hthreshold, hfactor, hone⟩ :=
      h.watched hwatch
    exact .times hwatch hbudget hfinite (magnitudes_inOrder.lt_irrefl x) hthreshold hfactor
      (not_lt_mul hone hzero)

/-- Its settings keep a session going nowhere. -/
theorem deadlock (h : SolvesConstant setup request c κ x S r m) {e : Settings arithmetic P}
    (hκ : e.condition = κ) (ht : Tolerances.make (A := arithmetic) (request.origin.storage c)
      request.absolute request.relative = .ok e.monitored)
    (hcheck : ResetCheck.forKind (A := arithmetic) (request.origin.storage c)
      setup.options.resetTolerance = .ok e.resetCheck)
    (hrule : LineSearch.ofChoice setup.options.lineSearch = .ok e.lineSearch) :
    Deadlock setup c (request.origin.storage c) x S r e := by
  obtain ⟨t, ht', hrefused⟩ := h.refused
  obtain ⟨check, hcheck', hrange⟩ := h.check
  obtain ⟨rule, hrule', hline⟩ := h.line
  obtain rfl : t = e.monitored := Except.ok.inj (ht'.symm.trans ht)
  obtain rfl : check = e.resetCheck := Except.ok.inj (hcheck'.symm.trans hcheck)
  obtain rfl : rule = e.lineSearch := Except.ok.inj (hrule'.symm.trans hrule)
  have hjoin := join_absorbs (arithmetic.working request.origin.point.kind) c.kind
  have hworking : arithmetic.IsWorking (request.origin.storage c) :=
    joinsWorking _ _ (.working _)
  exact
    { residual := h.residual
      signed := h.signed
      join := hjoin
      withReal := hworking.withReal
      norm := h.norm
      stored := h.stored
      verbosity := h.verbosity
      line := hline
      tolerance := hrange
      cancels := fun t y ht hy => negligible_of_constant hjoin h.finite.1 h.finite.2
        (ResetCheck.isAbove_of_forKind hcheck) hrange ht hy
      refused := hκ ▸ hrefused
      resets := h.resets
      bears := hκ ▸ h.bears }

/-- It starts at its point, brought to the kind of its arrays, and goes nowhere from there. -/
theorem exists_start (h : SolvesConstant setup request c κ x S r m) :
    ∃ s calls, start setup request = (.ok s, calls) ∧
      s.work.iterate = request.origin.iterate.castTo (request.origin.storage c) ∧
      Deadlock setup c (request.origin.storage c) x S r s.settings ∧
      Plateau setup c (request.origin.storage c) x s.settings s.work.iterate 0 s ∧
      s.budget.integer? = some (m : ℤ) := by
  obtain ⟨q, hq, hm⟩ := h.budget
  obtain ⟨t, ht, -⟩ := h.refused
  obtain ⟨y, hy⟩ := h.stored
  obtain ⟨check, hcheck, -⟩ := h.check
  obtain ⟨rule, hrule, -⟩ := h.line
  have hbudget : checkBudget request.budget = .ok q := by
    have hpositive := h.positive
    rw [hq, checkBudget_of_integer? hm, if_neg (by omega)]
  have hready := Origin.ready_of_constant h.residual request.origin h.shape h.nonempty h.written
    request.parameter 0
  have hkind (t : Tensor arithmetic) : (t.castTo (request.origin.storage c)).kind =
      request.origin.storage c := Tensor.kind_castTo _ _
  have hjoin : arithmetic.join (request.origin.iterate.castTo (request.origin.storage c)).kind
      (c.castTo (request.origin.storage c)).kind = request.origin.storage c := by
    rw [hkind, hkind, arithmetic.join_self]
  have ht' := ht
  have hcheck' := hcheck
  rw [← hjoin] at ht' hcheck'
  have hstart : start setup request = (.ok _, 1) := start_eq_ok_iff.mpr
    ⟨q, _, _, check, rule, hbudget, hready,
      Monitor.make_eq_ok.mpr ⟨κ, t, y, h.condition, ht', hy, rfl⟩, hcheck', hrule, rfl⟩
  have hshape : (request.origin.iterate.castTo (request.origin.storage c)).shape = c.shape :=
    (Tensor.shape_castTo _ _).trans ((Tensor.shape_castTo _ _).trans h.shape)
  refine ⟨_, 1, hstart, rfl, h.deadlock rfl ht hcheck hrule, ?_, hm⟩
  exact
    { workable := workable_start joinsSigned hstart
      settings := rfl
      going := rfl
      hosts := ⟨hshape, fun hw => Tensor.frame_eq ((hkind _).trans (by
        rw [Origin.storage, h.written hw, arithmetic.join_self]; rfl)) hshape⟩
      iterate := hkind _
      inverse := hjoin
      residual := .inr rfl
      origin := rfl
      watched := fun hwatch => by
        obtain ⟨hnorm, -⟩ := h.watched hwatch
        obtain rfl : y = x := Except.ok.inj (hy.symm.trans hnorm)
        exact ⟨rfl, rfl, rfl, rfl⟩
      steps := rfl
      resets := rfl
      evaluations := rfl }

end SolvesConstant

/-- A solve of a residual that is the same everywhere ends, after as many steps as the least of its
three budgets allows, and all its steps but the last one are resets: it corrects nothing. If the
checks without a better norm are used up first, or level with the other budgets, it has stalled and
is back at its starting point; else if the resets are, it has given up on them; else its steps
are used up. -/
theorem constant_solve_ends (h : SolvesConstant setup request c κ x S r m) :
    ∃ s calls k report, start setup request = (.ok s, calls) ∧
      s.work.iterate = request.origin.iterate.castTo (request.origin.storage c) ∧
      (solve setup request).1 = .ok report ∧ Raced setup s S r m k report := by
  obtain ⟨s, calls, hstart, hiterate, hdeadlock, hplateau, hbudget⟩ := h.exists_start
  obtain ⟨k, report, hsolve, hraced⟩ :=
    hplateau.exists_raced joinsSigned hdeadlock hstart hbudget h.patient
  exact ⟨s, calls, k, report, hstart, hiterate, hsolve, hraced⟩

end Session

namespace Affine

/-- A residual function that is one everywhere. -/
def level : Setup Machine.arithmetic Int :=
  { problem with residual := .returning fun _ _ _ => .ok (vector double [1]) }

/-- A start at zero that bears two checks without a better norm. -/
def levelRequest : Request Machine.arithmetic Int :=
  { startAt double [0] 0 with
    condition := .condition ⟨.absoluteBest, .whole 2, Condition.standardThreshold⟩ }

/-- The norm of the residual. -/
def levelNorm : Float := Machine.magnitudes.perRoot (Norm.rootOfSquares (vector double [1])) 1

/-- The standard tolerances of double precision. -/
def levelTolerances : Tolerances Machine.arithmetic :=
  ⟨.number (.real (Machine.Precision.tolerance .double)),
    .number (.real (Machine.Precision.tolerance .double))⟩

end Affine

namespace Session

open QuasiNewton.Affine

/-- A constant residual is stalled after two steps, of which the first resets. -/
theorem constant_solve_ends_level :
    ∃ s calls report, start level levelRequest = (.ok s, calls) ∧
      (solve level levelRequest).1 = .ok report ∧ report.status = .stalled ∧ report.steps = 2 ∧
      report.resets = 1 ∧ report.evaluations = 4 := by
  have hnorm : level.norm (vector double [1]) = .ok levelNorm := rfl
  have htolerances : Tolerances.make double .absent .absent = .ok levelTolerances :=
    Attempt.bind_eq_ok.mpr ⟨Machine.Precision.tolerance .double, rfl, Attempt.bind_eq_ok.mpr
      ⟨Machine.Precision.tolerance .double, rfl, if_neg (by decide +kernel)⟩⟩
  have hcheck : ResetCheck.forKind double .absent =
      .ok ⟨.real (Machine.Precision.resetTolerance .double)⟩ :=
    Attempt.bind_eq_ok.mpr
      ⟨_, rfl, if_pos (beq_iff_eq.mpr (Machine.Precision.resetTolerance_pos .double))⟩
  have hrefused (u : Tensor Machine.arithmetic) :
      Mode.absoluteBest.holds level.norm levelTolerances (vector double [1]) u = .ok false := by
    have hbeyond :
        Machine.magnitudes.le levelNorm (Machine.Precision.tolerance .double) = false := by
      decide +kernel
    exact congrArg Except.ok hbeyond
  have hsolves : SolvesConstant level levelRequest (vector double [1])
      ⟨.absoluteBest, .whole 2, Condition.standardThreshold⟩ levelNorm 2 3 1000 :=
    { residual := fun _ _ _ _ => rfl
      shape := rfl
      nonempty := by decide
      written := nofun
      signed := rfl
      finite := by decide +kernel
      norm := hnorm
      stored := ⟨_, hnorm⟩
      condition := rfl
      refused := ⟨_, htolerances, hrefused⟩
      unwatched := nofun
      watched := fun _ => ⟨hnorm, by decide +kernel, by decide +kernel, 2, _, _, rfl,
        Quantity.standsFor_of_integer? rfl, rfl, rfl, by decide +kernel⟩
      patient := by decide
      check := ⟨_, hcheck, ⟨_, rfl⟩, nofun⟩
      line := ⟨_, rfl, fun _ _ _ => ⟨_, rfl⟩⟩
      verbosity := ⟨_, rfl⟩
      resets := Quantity.standsFor_of_integer? rfl
      budget := ⟨_, rfl, rfl⟩
      positive := by decide }
  obtain ⟨s, calls, k, report, hstart, -, hsolve, hraced⟩ := constant_solve_ends hsolves
  obtain ⟨hstatus, -, hresets, hevaluations⟩ := hraced.stalled (by decide) (by decide)
  have hk : k = 2 := Nat.cast_injective (hraced.least.trans (by decide))
  subst hk
  refine ⟨s, calls, report, hstart, hsolve, hstatus, hraced.steps, ?_, hevaluations⟩
  omega

end Session

end QuasiNewton
