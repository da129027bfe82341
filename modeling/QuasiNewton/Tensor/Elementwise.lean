import QuasiNewton.Tensor.Basic

/-!
# Elementwise operations

Two tensors are combined in the kind that joins theirs and in the shape their shapes broadcast to.
A tensor is written into another either strictly (`copyInto`, which refuses to lose an imaginary
part) or freely (`assign`). Tests over all elements hold of an empty tensor.
-/

namespace QuasiNewton.Tensor

variable {A : Arithmetic}

/-- A tensor with a single element and no extents. -/
def scalar (kind : A.Kind) (x : A.Elem) : Tensor A := full kind [] x

/-- Stretch a tensor to a shape; surplus leading extents of one are dropped. -/
def broadcastTo (shape : Shape) (t : Tensor A) : Attempt A (Tensor A) :=
  if t.shape = shape then .ok t
  else
    let own := Shape.dropLeading shape.length t.shape
    if Shape.broadcast? own shape = some shape then
      .ok (ofFn t.kind shape fun i => t.elem (Shape.source shape own i))
    else .error .unsuitableValue

/-- The target's new contents after it is overwritten, whatever kind is written. -/
def assign (target source : Tensor A) : Attempt A (Tensor A) :=
  (source.broadcastTo target.shape).map (castTo target.kind)

/-- The target's new contents after it is overwritten, if the kind written may be stored there. -/
def copyInto (target source : Tensor A) : Attempt A (Tensor A) :=
  if A.storable source.kind target.kind then target.assign source else .error .unsuitableType

/-- The contents a tensor has after a function of the caller wrote a result into it. -/
def overwrite (target result : Tensor A) : Tensor A :=
  if result.shape = target.shape then result.castTo target.kind
  else ofFn target.kind target.shape fun i => A.convert target.kind (result.elem i)

/-- Combine elements pairwise in a kind that depends on the joined kind. -/
def combine (kind : A.Kind → A.Kind) (op : A.Kind → A.Elem → A.Elem → A.Elem) (a b : Tensor A) :
    Attempt A (Tensor A) :=
  match Shape.broadcast? a.shape b.shape with
  | none => .error .unsuitableValue
  | some shape =>
    let k := kind (A.join a.kind b.kind)
    let a' := a.castTo k
    let b' := b.castTo k
    .ok (ofFn k shape fun i =>
      op k (a'.elem (Shape.source shape a.shape i)) (b'.elem (Shape.source shape b.shape i)))

/-- The sum. -/
def add (a b : Tensor A) : Attempt A (Tensor A) := combine id A.add a b

/-- The difference. -/
def sub (a b : Tensor A) : Attempt A (Tensor A) :=
  if A.signed (A.join a.kind b.kind) then combine id A.sub a b else .error .unsuitableType

/-- The product. -/
def times (a b : Tensor A) : Attempt A (Tensor A) := combine id A.times a b

/-- The quotient. -/
def div (a b : Tensor A) : Attempt A (Tensor A) := combine A.quotient A.div a b

/-- The negative. -/
def neg (t : Tensor A) : Attempt A (Tensor A) :=
  if A.signed t.kind then .ok (ofFn t.kind t.shape fun i => A.neg t.kind (t.elem i))
  else .error .unsuitableType

/-- The complex conjugate. -/
def conj (t : Tensor A) : Tensor A := ofFn t.kind t.shape fun i => A.conj t.kind (t.elem i)

/-- The magnitudes. -/
def abs (t : Tensor A) : Tensor A :=
  ofFn (A.absolute t.kind) t.shape fun i => A.abs t.kind (t.elem i)

/-- A multiple by a real number. -/
def scale (x : A.Real) (t : Tensor A) : Tensor A :=
  let k := A.withReal t.kind
  let t' := t.castTo k
  ofFn k t.shape fun i => A.times k (A.ofReal k x) (t'.elem i)

/-- A multiple by a number as it was written, unless a whole number is out of range. -/
def scaleBy (q : Quantity A.Real) (t : Tensor A) : Attempt A (Tensor A) :=
  let times (k : A.Kind) : Tensor A :=
    let t' := t.castTo k
    ofFn k t.shape fun i => A.times k (A.ofQuantity k q) (t'.elem i)
  match q with
  | .real _ => .ok (times (A.withReal t.kind))
  | .flag _ => .ok (times t.kind)
  | .whole n =>
    if A.multipliable t.kind n then .ok (times (A.withWhole t.kind)) else .error .outOfRange

/-- Does a test hold of all elements? -/
def all (test : A.Elem → Bool) (t : Tensor A) : Bool :=
  (List.range t.size).all fun i => test (t.elem i)

/-- Are the magnitudes of all elements at most a number? A whole number out of range is refused. -/
def allWithin (q : Quantity A.Real) (t : Tensor A) : Attempt A Bool :=
  let within (k : A.Kind) : Bool :=
    (t.abs.castTo k).all fun y => A.elemLe k y (A.ofQuantity k q)
  let kind := A.absolute t.kind
  match q with
  | .real _ => .ok (within (A.withReal kind))
  | .flag _ => .ok (within kind)
  | .whole n =>
    if A.comparable kind n then .ok (within (A.withWhole kind)) else .error .outOfRange

/-- Are all elements of one tensor at most the elements of another? -/
def allLe (a b : Tensor A) : Attempt A Bool :=
  match Shape.broadcast? a.shape b.shape with
  | none => .error .unsuitableValue
  | some shape =>
    let k := A.join a.kind b.kind
    let a' := a.castTo k
    let b' := b.castTo k
    .ok ((List.range shape.size).all fun i =>
      A.elemLe k (a'.elem (Shape.source shape a.shape i)) (b'.elem (Shape.source shape b.shape i)))

end QuasiNewton.Tensor
