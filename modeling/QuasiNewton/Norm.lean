import QuasiNewton.Tensor.Linear

/-!
# Norms

A norm measures a residual, or refuses it. The standard one is the root mean square, whose sum is
formed in the precision of the array. Beside it stand the largest magnitude, the sum of the
magnitudes, the Euclidean length, the magnitude of the first component and the constant one. An
empty tensor has neither a largest nor a first component.
-/

namespace QuasiNewton

/-- A measure of tensors, which may refuse one. It is a function of the tensor alone: what it says
depends neither on when it is asked nor on how often, where residual functions and line searches are
told the number of the call. -/
abbrev Norm (A : Arithmetic) := Tensor A → Attempt A A.Real

namespace Norm

variable {A : Arithmetic}

/-- The root of the sum of squared magnitudes, formed in the precision of the tensor. -/
def rootOfSquares (t : Tensor A) : A.Real :=
  let k := A.working t.kind
  let t' := t.castTo k
  let total := Tensor.sumBelow (A.absolute k) t.size fun i => A.absSquared k (t'.elem i)
  A.toReal (A.absolute k) (A.root (A.absolute k) total)

/-- The root mean square; zero of an empty tensor. -/
def rms : Norm A := fun t =>
  .ok (if t.size = 0 then A.zero else A.perRoot (rootOfSquares t) t.size)

/-- The Euclidean length. Magnitudes are squared and summed in their own kind, and the sum of whole
numbers, which may have wrapped below zero, has to have a root. -/
def euclidean : Norm A := fun t =>
  let k := A.withWhole (A.absolute t.kind)
  let magnitudes := t.abs.castTo k
  let total := Tensor.sumBelow k t.size fun i =>
    A.times k (magnitudes.elem i) (magnitudes.elem i)
  match A.root? (A.toReal k total) with
  | some x => .ok x
  | none => .error .unsuitableValue

/-- The larger of two magnitudes; a value that compares with nothing wins. -/
def larger (k : A.Kind) (x y : A.Elem) : A.Elem :=
  if !A.elemLe k x x || A.elemLe k y x then x else y

/-- The largest magnitude. -/
def largest : Norm A := fun t =>
  let k := A.absolute t.kind
  let magnitudes := t.abs
  if t.size = 0 then .error .unsuitableValue
  else .ok (A.toReal k
    (t.size.fold (fun i _ m => larger k m (magnitudes.elem i)) (magnitudes.elem 0)))

/-- The sum of the magnitudes; truth values are counted. -/
def sum : Norm A := fun t =>
  let k := A.withWhole (A.absolute t.kind)
  .ok (A.toReal k (Tensor.sumBelow k t.size (t.abs.castTo k).elem))

/-- The magnitude of the first component. -/
def first : Norm A := fun t =>
  if t.size = 0 then .error .unsuitableValue else .ok (A.modulus t.kind (t.elem 0))

/-- Always one. -/
def constant : Norm A := fun _ => .ok A.one

end Norm

end QuasiNewton
