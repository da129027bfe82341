import QuasiNewton.Machine.Arithmetic
import QuasiNewton.Proofs.Histories

/-!
# Affine problems

Residual functions that take a whole multiple of every element of the iterate less a whole number,
over any arithmetic. Over machine numbers their sessions can be computed.
-/

namespace QuasiNewton

variable {A : Arithmetic}

/-- What can be tried out on the session that a start answers holds of a session that was started.
-/
theorem Session.exists_started {P : Type} (setup : Setup A P) (request : Request A P)
    (p : Session A P → Prop) [DecidablePred p]
    (h : (start setup request).1.toOption.any (fun s => decide (p s)) = true) :
    ∃ s n, start setup request = (.ok s, n) ∧ p s := by
  rcases hstart : start setup request with ⟨e | s, n⟩
  · rw [hstart] at h
    cases h
  · rw [hstart] at h
    exact ⟨s, n, rfl, of_decide_eq_true h⟩

/-- It holds of whichever session the start answers. -/
theorem Session.of_started {P : Type} {setup : Setup A P} {request : Request A P} {s : Session A P}
    {n : Nat} (hstart : start setup request = (.ok s, n)) (p : Session A P → Prop) [DecidablePred p]
    (h : (start setup request).1.toOption.any (fun s => decide (p s)) = true) : p s := by
  rw [hstart] at h
  exact of_decide_eq_true h

namespace Affine

/-- A multiple of the iterate less the parameter. -/
def residual (slope : Int) (u : Tensor A) (p : Int) : Attempt A (Tensor A) :=
  .ok (.ofFn u.kind u.shape fun i =>
    A.sub u.kind (A.times u.kind (A.ofWhole u.kind slope) (u.elem i)) (A.ofWhole u.kind p))

/-- The affine residual function answers in the frame of its argument. -/
theorem conforms_residual (slope : Int) : Residual.Conforms (residual (A := A) slope) := by
  intro u p v h
  cases h
  exact Tensor.frame_ofFn _ _ _

/-- The setup of an affine problem with the standard options and norm. -/
def setup (A : Arithmetic) (slope : Int) : Setup A Int where
  residual := .returning fun _ => residual slope
  options := .standard
  norm := .rms
  verbosity := .number (.whole 0)

/-- The residuals of the affine setup are computed by it. -/
theorem computes_residual (slope : Int) : (setup A slope).residual.Computes (residual slope) :=
  fun _ _ _ => rfl

/-- A vector of a kind. -/
def vector (k : A.Kind) (xs : List Int) : Tensor A :=
  .ofFn k [xs.length] fun i => A.ofWhole k (xs.getD i 0)

/-- A start at a vector with a parameter. -/
def startAt (k : A.Kind) (xs : List Int) (p : Int) : Request A Int where
  origin := { point := vector k xs }
  parameter := p

/-- A restart at a vector with a parameter. -/
def restartAt (k : A.Kind) (xs : List Int) (p : Int) : Restart A Int where
  point := some (vector k xs)
  parameter := some p

/-! ## A problem over machine numbers -/

/-- Double precision. -/
def double : Machine.arithmetic.Kind := Machine.Kind.real .double

/-- Single precision. -/
def single : Machine.arithmetic.Kind := Machine.Kind.real .single

/-- Twice the iterate less the parameter. -/
def problem : Setup Machine.arithmetic Int := setup Machine.arithmetic 2

/-- A start at a single element. -/
def request : Request Machine.arithmetic Int := startAt double [1] 3

/-- A restart at two elements. -/
def move : Restart Machine.arithmetic Int := restartAt double [1, 4] 5

/-- A step, and the restart at two elements. -/
def detour : List (Operation Machine.arithmetic Int) := [.steps 1, .restart move]

/-- A restart at two elements that allows one check without a new best norm. -/
def impatient : Restart Machine.arithmetic Int :=
  { move with condition := .condition ⟨.absoluteBest, .whole 1, Condition.standardThreshold⟩ }

/-- A step, and that restart. -/
def impatience : List (Operation Machine.arithmetic Int) := [.steps 1, .restart impatient]

/-- Two restarts that fail, the second one after it has made new arrays. -/
def stumble : List (Operation Machine.arithmetic Int) :=
  [.restart { budget := .number (.whole 0) },
    .restart { restartAt double [1, 2, 3] 7 with condition := .setting (.text "none") }]

/-- A restart that gives a condition and a negative tolerance. -/
def negative : Restart Machine.arithmetic Int where
  absolute := .number (.whole (-1))
  condition := .setting (.text "abs")

/-- A step, a restart that keeps the condition, with an absolute tolerance of one, and that restart.
-/
def ratings : List (Operation Machine.arithmetic Int) :=
  [.steps 1, .restart { absolute := .number (.whole 1) }, .restart negative]

end Affine

end QuasiNewton
