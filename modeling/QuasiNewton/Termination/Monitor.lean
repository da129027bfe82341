import QuasiNewton.Termination.Condition
import QuasiNewton.Norm
import QuasiNewton.Tensor.Written
import QuasiNewton.Status

/-!
# The termination monitor

The monitor is asked once per step whether to stop. `Mode.holds` is the convergence criterion as a
function of tolerances, residual and iterate alone. In the modes that watch the best norm,
`Monitor.observe` keeps the smallest norm seen with its iterate and counts the checks since, and
`Monitor.verdict` compares the count and the norm with the condition's limits. Success comes before
divergence, divergence before stagnation.
-/

namespace QuasiNewton

variable {A : Arithmetic}

/-- Tolerances as they are in effect; after a restart they may be as the caller wrote them. -/
structure Tolerances (A : Arithmetic) where
  /-- The absolute tolerance. -/
  absolute : Setting A.Real
  /-- The relative tolerance. -/
  relative : Setting A.Real

namespace Tolerances

/-- A tolerance that the caller gave, or else the one of the kind of the arrays. -/
def resolve (kind : A.Kind) (given : Setting A.Real) : Attempt A A.Real :=
  match given with
  | .absent =>
    match A.tolerance? kind with
    | some x => .ok x
    | none => .error .unsuitableValue
  | _ => given.magnitude (M := A.toMagnitudes)

/-- Is a magnitude negative? -/
def isNegative (x : A.Real) : Bool := A.compareInt x 0 == some .lt

/-- Tolerances from what the caller wrote; neither may be negative. -/
def make (kind : A.Kind) (absolute relative : Setting A.Real) : Attempt A (Tolerances A) := do
  let a ← resolve kind absolute
  let r ← resolve kind relative
  if isNegative a || isNegative r then throw (.negativeTolerances a r)
  else return ⟨.number (.real a), .number (.real r)⟩

/-- Replace the tolerances that are given, unchecked. -/
def replace (t : Tolerances A) (absolute relative : Setting A.Real) : Tolerances A where
  absolute := match absolute with
    | .absent => t.absolute
    | given => given
  relative := match relative with
    | .absent => t.relative
    | given => given

end Tolerances

/-- Does the convergence criterion hold of a residual and an iterate? -/
def Mode.holds (mode : Mode) (norm : Norm A) (tolerances : Tolerances A)
    (residual iterate : Tensor A) : Attempt A Bool :=
  match mode with
  | .absolute => residual.allAtMost tolerances.absolute
  | .relative => do
    let sum ← residual.add iterate
    residual.abs.allLe (← sum.abs.multiple tolerances.relative)
  | .absoluteNorm | .absoluteBest => do
    let objective ← norm residual
    return (← tolerances.absolute.quantity).admits (M := A.toMagnitudes) objective
  | .relativeNorm | .relativeBest => do
    let objective ← norm residual
    let scale ← norm (← residual.add iterate)
    let factor ← (← tolerances.relative.quantity).magnitude (M := A.toMagnitudes)
    return A.le objective (A.mul factor scale)

/-- What the monitor remembers. -/
structure Monitor (A : Arithmetic) where
  /-- The condition in effect. -/
  condition : Condition A.toMagnitudes
  /-- The tolerances in effect. -/
  tolerances : Tolerances A
  /-- The cause of the last stop. -/
  status : Status
  /-- The norm at the start. -/
  initial : A.Real
  /-- The smallest norm seen. -/
  best : A.Real
  /-- Where the smallest norm was seen. -/
  bestIterate : Tensor A
  /-- Checks since the last new smallest norm. -/
  stalled : Int

namespace Monitor

/-- A monitor that starts at a residual with a norm and its iterate. -/
def start (condition : Condition A.toMagnitudes) (tolerances : Tolerances A) (objective : A.Real)
    (iterate : Tensor A) : Monitor A where
  condition := condition
  tolerances := tolerances
  status := .running
  initial := objective
  best := objective
  bestIterate := iterate
  stalled := 0

/-- A monitor from what the caller wrote. -/
def make (choice : Condition.Choice A.toMagnitudes) (absolute relative : Setting A.Real)
    (norm : Norm A) (residual iterate : Tensor A) : Attempt A (Monitor A) := do
  let condition ← Condition.ofChoice choice
  let tolerances ← Tolerances.make (A.join iterate.kind residual.kind) absolute relative
  return start condition tolerances (← norm residual) iterate

/-- A monitor is made of a condition, of tolerances and of the norm of the residual. -/
theorem make_eq_ok {choice : Condition.Choice A.toMagnitudes} {absolute relative : Setting A.Real}
    {norm : Norm A} {residual iterate : Tensor A} {m : Monitor A} :
    make choice absolute relative norm residual iterate = .ok m ↔
      ∃ condition tolerances objective, Condition.ofChoice choice = .ok condition ∧
        Tolerances.make (A.join iterate.kind residual.kind) absolute relative = .ok tolerances ∧
        norm residual = .ok objective ∧ m = start condition tolerances objective iterate := by
  simp only [make, Attempt.bind_eq_ok, Attempt.pure_eq_ok, eq_comm (b := m)]
  constructor
  · rintro ⟨c, hc, t, ht, o, ho, rfl⟩
    exact ⟨c, t, o, hc, ht, ho, rfl⟩
  · rintro ⟨c, t, o, hc, ht, ho, rfl⟩
    exact ⟨c, hc, t, ht, o, ho, rfl⟩

/-- Start over with the same condition; tolerances that are given replace the old ones as they are
written. If the norm refuses the residual, what was seen before is not forgotten. -/
def restart (m : Monitor A) (absolute relative : Setting A.Real) (norm : Norm A)
    (residual iterate : Tensor A) : Attempt A Unit × Monitor A :=
  let tolerances := m.tolerances.replace absolute relative
  match norm residual with
  | .ok objective => (.ok (), start m.condition tolerances objective iterate)
  | .error e => (.error e, { m with tolerances, status := .running })

/-- Take note of a norm and its iterate. -/
def observe (m : Monitor A) (objective : A.Real) (iterate : Tensor A) : Monitor A :=
  if A.lt objective m.best then
    { m with best := objective, bestIterate := iterate, stalled := 0 }
  else { m with stalled := m.stalled + 1 }

/-- Taking note of a norm changes neither the condition nor the tolerances, and neither the first
norm nor the cause of the last stop. -/
theorem observe_kept (m : Monitor A) (objective : A.Real) (iterate : Tensor A) :
    (m.observe objective iterate).condition = m.condition ∧
      (m.observe objective iterate).tolerances = m.tolerances ∧
      (m.observe objective iterate).initial = m.initial ∧
      (m.observe objective iterate).status = m.status := by
  unfold observe
  split <;> exact ⟨rfl, rfl, rfl, rfl⟩

/-- Is a norm beyond every number, or above the threshold times the first norm? -/
def diverges (m : Monitor A) (objective : A.Real) : Attempt A Bool :=
  if A.isFinite objective then do
    let factor ← (← m.condition.threshold.quantity).magnitude (M := A.toMagnitudes)
    return A.lt (A.mul factor m.initial) objective
  else .ok true

/-- Did too many checks pass without a new best norm? -/
def isStalled (m : Monitor A) : Bool :=
  m.condition.stallBudget.isReachedBy (M := A.toMagnitudes) m.stalled

/-- Why to stop at a norm that has been observed, if at all. -/
def verdict (m : Monitor A) (objective : A.Real) : Attempt A Status := do
  if ← m.diverges objective then return .unstable
  else if m.isStalled then return .stalled
  else return .running

/-- Take note of the norm of a residual that does not pass, and answer whether to stop. -/
def watch (m : Monitor A) (objective : A.Real) (iterate : Tensor A) :
    Attempt A Bool × Monitor A :=
  let seen := m.observe objective iterate
  match seen.verdict objective with
  | .error e => (.error e, seen)
  | .ok .running => (.ok false, seen)
  | .ok status => (.ok true, { seen with status })

/-- Ask the monitor about a residual and its iterate: the answer says whether to stop, the monitor
after it remembers why. -/
def check (m : Monitor A) (norm : Norm A) (residual iterate : Tensor A) :
    Attempt A Bool × Monitor A :=
  match m.condition.mode.holds norm m.tolerances residual iterate with
  | .error e => (.error e, m)
  | .ok true => (.ok true, { m with status := .success })
  | .ok false =>
    if m.condition.mode.watchesBest then
      match norm residual with
      | .ok objective => m.watch objective iterate
      | .error e => (.error e, m)
    else (.ok false, m)

/-- A check changes neither the condition nor the tolerances. -/
theorem check_configuration (m : Monitor A) (norm : Norm A) (residual iterate : Tensor A) :
    (m.check norm residual iterate).2.condition = m.condition ∧
      (m.check norm residual iterate).2.tolerances = m.tolerances := by
  have hobserve (objective : A.Real) : (m.observe objective iterate).condition = m.condition ∧
      (m.observe objective iterate).tolerances = m.tolerances := by
    obtain ⟨hcondition, htolerances, -⟩ := m.observe_kept objective iterate
    exact ⟨hcondition, htolerances⟩
  have hwatch (objective : A.Real) : (m.watch objective iterate).2.condition = m.condition ∧
      (m.watch objective iterate).2.tolerances = m.tolerances := by
    unfold watch
    dsimp only
    split <;> exact hobserve objective
  unfold check
  split
  · exact ⟨rfl, rfl⟩
  · exact ⟨rfl, rfl⟩
  · split
    · split
      · exact hwatch _
      · exact ⟨rfl, rfl⟩
    · exact ⟨rfl, rfl⟩

/-- The best iterate after a check is the one before it or the one checked. -/
theorem bestIterate_check (m : Monitor A) (norm : Norm A) (residual iterate : Tensor A) :
    (m.check norm residual iterate).2.bestIterate = m.bestIterate ∨
      (m.check norm residual iterate).2.bestIterate = iterate := by
  have hobserve (objective : A.Real) : (m.observe objective iterate).bestIterate = m.bestIterate ∨
      (m.observe objective iterate).bestIterate = iterate := by
    unfold observe
    split
    · exact .inr rfl
    · exact .inl rfl
  have hwatch (objective : A.Real) : (m.watch objective iterate).2.bestIterate =
      (m.observe objective iterate).bestIterate := by
    unfold watch
    dsimp only
    split <;> rfl
  unfold check
  split
  · exact .inl rfl
  · exact .inl rfl
  · split
    · split
      · rw [hwatch]
        exact hobserve _
      · exact .inl rfl
    · exact .inl rfl

/-- A verdict to stop is one to fall back. -/
theorem verdict_eq_ok {m : Monitor A} {objective : A.Real} {status : Status}
    (h : m.verdict objective = .ok status) : status = .running ∨ status.fallsBack = true := by
  obtain ⟨b, -, h⟩ := Attempt.bind_eq_ok.mp h
  cases b with
  | true => exact .inr (Except.ok.inj h ▸ rfl)
  | false =>
    cases hstalled : m.isStalled with
    | true =>
      rw [hstalled] at h
      exact .inr (Except.ok.inj h ▸ rfl)
    | false =>
      rw [hstalled] at h
      exact .inl (Except.ok.inj h).symm

/-- A check that answers tells success, falling back and going on apart by the criterion. -/
theorem check_eq_ok {m m' : Monitor A} {norm : Norm A} {residual iterate : Tensor A} {stop : Bool}
    (h : m.check norm residual iterate = (.ok stop, m')) :
    (m.condition.mode.holds norm m.tolerances residual iterate = .ok true ∧ stop = true ∧
      m' = { m with status := .success }) ∨
    (m.condition.mode.holds norm m.tolerances residual iterate = .ok false ∧
      (stop = true → m'.status.fallsBack = true)) := by
  unfold check at h
  split at h
  case h_1 => cases h
  case h_2 hholds =>
    cases h
    exact .inl ⟨hholds, rfl, rfl⟩
  case h_3 hholds =>
    refine .inr ⟨hholds, fun hstop => ?_⟩
    subst hstop
    split at h
    · split at h
      · unfold watch at h
        dsimp only at h
        split at h
        · cases h
        · cases h
        · rename_i hrunning hverdict
          cases h
          exact (verdict_eq_ok hverdict).resolve_left hrunning
      · cases h
    · cases h

/-- Where the criterion holds a check answers that it does. -/
theorem check_of_holds {m : Monitor A} {norm : Norm A} {residual iterate : Tensor A}
    (h : m.condition.mode.holds norm m.tolerances residual iterate = .ok true) :
    m.check norm residual iterate = (.ok true, { m with status := .success }) := by
  unfold check
  rw [h]

end Monitor

end QuasiNewton
