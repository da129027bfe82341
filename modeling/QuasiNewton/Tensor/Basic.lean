import QuasiNewton.Arithmetic

/-!
# Tensors

A tensor is an array of elements of one kind with a shape, stored in order of its flat positions.
`Tensor.ofFn` is the one way to build a tensor and `Tensor.elem` the one way to read it; every
operation is an `ofFn` over readings, so that `elem_ofFn` and `ext` are all a proof needs.
-/

namespace QuasiNewton

/-- An array of elements of one kind. -/
structure Tensor (A : Arithmetic) where
  /-- The kind of the elements. -/
  kind : A.Kind
  /-- The extents. -/
  shape : Shape
  /-- The elements by flat position. -/
  data : Array A.Elem
  /-- The shape says how many elements there are. -/
  size_data : data.size = shape.size

namespace Tensor

variable {A : Arithmetic}

/-- The number of elements. -/
def size (t : Tensor A) : Nat := t.shape.size

/-- The element at a flat position; zero outside. -/
def elem (t : Tensor A) (i : Nat) : A.Elem :=
  if h : i < t.data.size then t.data[i] else A.zeroOf t.kind

/-- The tensor whose element at each flat position is given. -/
def ofFn (kind : A.Kind) (shape : Shape) (f : Nat → A.Elem) : Tensor A where
  kind := kind
  shape := shape
  data := Array.ofFn fun i : Fin shape.size => f i
  size_data := by simp

@[simp] theorem kind_ofFn (k : A.Kind) (s : Shape) (f : Nat → A.Elem) : (ofFn k s f).kind = k := rfl

@[simp] theorem shape_ofFn (k : A.Kind) (s : Shape) (f : Nat → A.Elem) :
    (ofFn k s f).shape = s := rfl

@[simp] theorem size_ofFn (k : A.Kind) (s : Shape) (f : Nat → A.Elem) :
    (ofFn k s f).size = s.size := rfl

/-- Inside the shape a tensor built from a function reads back the function. -/
theorem elem_ofFn (k : A.Kind) (s : Shape) (f : Nat → A.Elem) {i : Nat} (h : i < s.size) :
    (ofFn k s f).elem i = f i := by
  simp [ofFn, elem, h]

/-- Functions that agree inside the shape build the same tensor. -/
theorem ofFn_congr {k : A.Kind} {s : Shape} {f g : Nat → A.Elem} (h : ∀ i < s.size, f i = g i) :
    ofFn k s f = ofFn k s g := by
  simp only [ofFn, Tensor.mk.injEq, true_and]
  congr 1
  funext i
  exact h i i.isLt

/-- Tensors with the same kind, shape and readings are equal. -/
theorem ext {a b : Tensor A} (kinds : a.kind = b.kind) (shapes : a.shape = b.shape)
    (elems : ∀ i < a.size, a.elem i = b.elem i) : a = b := by
  obtain ⟨ka, sa, da, ha⟩ := a
  obtain ⟨kb, sb, db, hb⟩ := b
  obtain rfl : ka = kb := kinds
  obtain rfl : sa = sb := shapes
  obtain rfl : da = db := by
    apply Array.ext (ha.trans hb.symm)
    intro i hi hj
    simpa [elem, hi, hj] using elems i (by simpa [size, ← ha] using hi)
  rfl

/-- Every tensor is built from its readings. -/
theorem ofFn_elem (t : Tensor A) : ofFn t.kind t.shape t.elem = t :=
  ext rfl rfl fun _ h => elem_ofFn _ _ _ h

/-- The tensor with one element at every position. -/
def full (kind : A.Kind) (shape : Shape) (x : A.Elem) : Tensor A := ofFn kind shape fun _ => x

/-- Zeros in the kind and shape of a tensor. -/
def zerosLike (t : Tensor A) : Tensor A := full t.kind t.shape (A.zeroOf t.kind)

/-- The tensor converted to a kind; in its own kind it is left alone. -/
def castTo (kind : A.Kind) (t : Tensor A) : Tensor A :=
  if t.kind = kind then t else ofFn kind t.shape fun i => A.convert kind (t.elem i)

@[simp] theorem kind_castTo (k : A.Kind) (t : Tensor A) : (t.castTo k).kind = k := by
  unfold castTo
  split <;> simp_all

@[simp] theorem shape_castTo (k : A.Kind) (t : Tensor A) : (t.castTo k).shape = t.shape := by
  unfold castTo
  split <;> simp

/-- Conversion to a tensor's own kind changes nothing. -/
@[simp] theorem castTo_self (t : Tensor A) : t.castTo t.kind = t := by
  simp [castTo]

/-- The same elements in another shape of the same size. -/
def withShape (t : Tensor A) (shape : Shape) (h : t.shape.size = shape.size) : Tensor A :=
  { t with shape := shape, size_data := t.size_data.trans h }

/-- The same elements in another shape, if the sizes agree. -/
def reshape (t : Tensor A) (shape : Shape) : Attempt A (Tensor A) :=
  if h : t.shape.size = shape.size then .ok (t.withShape shape h) else .error .unsuitableValue

/-- The elements in a row. -/
def flatten (t : Tensor A) : Tensor A :=
  t.withShape [t.size] (by simp [Shape.size, size])

@[simp] theorem kind_flatten (t : Tensor A) : t.flatten.kind = t.kind := rfl

@[simp] theorem shape_flatten (t : Tensor A) : t.flatten.shape = [t.size] := rfl

/-- Reading a row reads the tensor. -/
@[simp] theorem elem_flatten (t : Tensor A) (i : Nat) : t.flatten.elem i = t.elem i := rfl

end Tensor

end QuasiNewton
