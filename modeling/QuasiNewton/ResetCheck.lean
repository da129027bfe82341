import QuasiNewton.Tensor.Elementwise

/-!
# The reset check

When every component of a step, or of the change of the residual, is within a tolerance, the secant
equation carries no information and the inverse Jacobian is reset instead of corrected. The
tolerance is kept as it was written; by default it depends on the precision of the arrays.
-/

namespace QuasiNewton

variable {A : Arithmetic}

/-- A componentwise threshold. -/
structure ResetCheck (A : Arithmetic) where
  /-- The largest magnitude that counts as negligible. -/
  tolerance : Quantity A.Real

namespace ResetCheck

/-- A check with the tolerance given, which has to be positive. -/
def make (given : Setting A.Real) : Attempt A (ResetCheck A) := do
  let q ← given.quantity
  if q.isAbove (M := A.toMagnitudes) 0 then return ⟨q⟩ else throw (.badCheckTolerance given)

/-- A check for arrays of a kind, with the tolerance given or else the one of the kind. -/
def forKind (kind : A.Kind) (given : Setting A.Real) : Attempt A (ResetCheck A) :=
  match given with
  | .absent =>
    match A.resetTolerance? kind with
    | some x => make (.number (.real x))
    | none => .error .unsuitableValue
  | _ => make given

/-- If there is a check for one kind there is one for every kind that is iterated in. -/
theorem forKind_working {kind : A.Kind} {given : Setting A.Real} {c : ResetCheck A}
    (h : forKind kind given = .ok c) (k : A.Kind) : ∃ c', forKind (A.working k) given = .ok c' := by
  cases given with
  | absent =>
    obtain ⟨x, hx, hpositive⟩ := A.resetTolerance_working k
    refine ⟨⟨.real x⟩, ?_⟩
    have hmake : make (A := A) (.number (.real x)) = .ok ⟨.real x⟩ :=
      if_pos (beq_iff_eq.mpr hpositive)
    simp only [forKind, hx, hmake]
  | _ => exact ⟨c, h⟩

/-- Is a single number negligible? The comparison is exact, and a complex number has to have a
magnitude in range. -/
def admits (c : ResetCheck A) : Component A.Real → Attempt A Bool
  | .number (.real x) => .ok (c.tolerance.admits (M := A.toMagnitudes) (A.length x A.zero))
  | .number (.whole n) => .ok (c.tolerance.reaches (M := A.toMagnitudes) n.natAbs)
  | .number (.flag b) => .ok (c.tolerance.reaches (M := A.toMagnitudes) (if b then 1 else 0))
  | .complex x y =>
    let magnitude := A.length x y
    if A.isFinite x && A.isFinite y && !A.isFinite magnitude then .error .outOfRange
    else .ok (c.tolerance.admits (M := A.toMagnitudes) magnitude)

/-- Are all components of a tensor negligible? -/
def negligible (c : ResetCheck A) (t : Tensor A) : Attempt A Bool := t.allWithin c.tolerance

/-- Is one of two tensors negligible? The second is looked at only if the first is not. -/
def anyNegligible (c : ResetCheck A) (t u : Tensor A) : Attempt A Bool := do
  if ← c.negligible t then return true else c.negligible u

end ResetCheck

end QuasiNewton
