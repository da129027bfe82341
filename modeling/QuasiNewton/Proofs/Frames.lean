import QuasiNewton.Tensor.Product

/-!
# Frames

The kind and the shape of a tensor are its frame. An array that is overwritten keeps its frame, and
what it becomes depends on the old contents through the frame alone. A result that has the frame of
the array already is stored as it is, so that overwriting and replacing come to the same.
-/

namespace QuasiNewton

variable {A : Arithmetic}

/-- A kind in which iteration is carried out. -/
def Arithmetic.IsWorking (A : Arithmetic) (k : A.Kind) : Prop := A.working k = k

namespace Arithmetic.IsWorking

variable {k : A.Kind}

/-- What the iteration from a point of any kind is carried out in is a working kind. -/
theorem working (k : A.Kind) : A.IsWorking (A.working k) := A.working_working k

/-- Arrays of a working kind are multiplied by reals within their kind. -/
theorem withReal (h : A.IsWorking k) : A.withReal k = k := by
  have hk := A.withReal_working k
  rwa [h] at hk

/-- Arrays of a working kind are divided within their kind. -/
theorem quotient (h : A.IsWorking k) : A.quotient k = k := by
  have hk := A.quotient_working k
  rwa [h] at hk

/-- Numbers of a working kind have negatives. -/
theorem signed (h : A.IsWorking k) : A.signed k = true := by
  have hk := A.signed_working k
  rwa [h] at hk

end Arithmetic.IsWorking

/-- The contract under which a rank-one update of a matrix of a kind comes to the same as adding the
outer product: the routine works in the kind itself and rounds as products and sums of the kind do,
the product first and then the sum. -/
structure Arithmetic.AddsOuter (A : Arithmetic) (k : A.Kind) : Prop where
  update : A.update k = k
  rankOne : ∀ rows columns m x y, ∀ i < rows * columns, A.rankOne k rows columns m x y i =
    A.add k (m i) (A.times k (x (i / columns)) (y (i % columns)))

/-- A kind and a shape. -/
structure Frame (A : Arithmetic) where
  /-- The kind of the elements. -/
  kind : A.Kind
  /-- The extents. -/
  shape : Shape
  deriving DecidableEq

namespace Frame

/-- As many elements in a row. -/
def vector (f : Frame A) : Frame A := ⟨f.kind, [f.shape.size]⟩

/-- The square matrices that act on such rows. -/
def matrix (f : Frame A) : Frame A := ⟨f.kind, [f.shape.size, f.shape.size]⟩

@[simp] theorem kind_vector (f : Frame A) : f.vector.kind = f.kind := rfl

@[simp] theorem shape_vector (f : Frame A) : f.vector.shape = [f.shape.size] := rfl

@[simp] theorem kind_matrix (f : Frame A) : f.matrix.kind = f.kind := rfl

@[simp] theorem shape_matrix (f : Frame A) : f.matrix.shape = [f.shape.size, f.shape.size] := rfl

end Frame

namespace Tensor

/-- The kind and the shape of a tensor. -/
def frame (t : Tensor A) : Frame A := ⟨t.kind, t.shape⟩

variable {a b c t x y : Tensor A} {f : Frame A}

/-- The kind of an array can be read off its frame. -/
theorem kind_of_frame (h : t.frame = f) : t.kind = f.kind := congrArg Frame.kind h

/-- The shape of an array can be read off its frame. -/
theorem shape_of_frame (h : t.frame = f) : t.shape = f.shape := congrArg Frame.shape h

/-- The number of elements of an array can be read off its frame. -/
theorem size_of_frame (h : t.frame = f) : t.size = f.shape.size := by
  rw [size, shape_of_frame h]

/-- A row has as many elements as what it is a row of. -/
theorem size_of_vector (h : t.frame = f.vector) : t.size = f.shape.size := by
  rw [size_of_frame h]
  simp [Shape.size]

/-- A frame is found out by looking at kind and shape. -/
theorem frame_eq (kinds : t.kind = f.kind) (shapes : t.shape = f.shape) : t.frame = f := by
  obtain ⟨kind, shape⟩ := f
  obtain rfl : t.kind = kind := kinds
  obtain rfl : t.shape = shape := shapes
  rfl

/-- Arrays of one frame are of one kind. -/
theorem kind_congr (h : a.frame = b.frame) : a.kind = b.kind := kind_of_frame h

/-- Arrays of one frame have one shape. -/
theorem shape_congr (h : a.frame = b.frame) : a.shape = b.shape := shape_of_frame h

@[simp] theorem frame_ofFn (k : A.Kind) (s : Shape) (g : Nat → A.Elem) :
    (ofFn k s g).frame = ⟨k, s⟩ := rfl

@[simp] theorem frame_zerosLike (t : Tensor A) : t.zerosLike.frame = t.frame := rfl

@[simp] theorem frame_flatten (t : Tensor A) : t.flatten.frame = t.frame.vector := rfl

/-- The frame of a conversion. -/
@[simp] theorem frame_castTo (k : A.Kind) (t : Tensor A) : (t.castTo k).frame = ⟨k, t.shape⟩ :=
  frame_eq (kind_castTo k t) (shape_castTo k t)

/-- Conversion to the kind of a frame leaves a tensor of that frame alone. -/
theorem castTo_of_frame (h : t.frame = f) : t.castTo f.kind = t := by
  rw [← kind_of_frame h, castTo_self]

/-! ## Overwriting -/

/-- A stretched tensor has the shape asked for and keeps its kind. -/
theorem frame_of_broadcastTo {s : Shape} (h : t.broadcastTo s = .ok y) : y.frame = ⟨t.kind, s⟩ := by
  unfold broadcastTo at h
  split at h
  case isTrue hs =>
    obtain rfl : t = y := Except.ok.inj h
    exact frame_eq rfl hs
  case isFalse hs =>
    dsimp only at h
    split at h
    · obtain rfl := Except.ok.inj h
      rfl
    · cases h

/-- An array that is overwritten keeps its frame. -/
theorem frame_of_assign (h : a.assign x = .ok y) : y.frame = a.frame := by
  unfold assign at h
  cases hb : x.broadcastTo a.shape with
  | error e => rw [hb] at h; cases h
  | ok z =>
    rw [hb] at h
    obtain rfl : z.castTo a.kind = y := Except.ok.inj h
    rw [frame_castTo, shape_of_frame (frame_of_broadcastTo hb)]
    rfl

/-- An array into which another is copied keeps its frame. -/
theorem frame_of_copyInto (h : a.copyInto x = .ok y) : y.frame = a.frame := by
  unfold copyInto at h
  split at h
  · exact frame_of_assign h
  · cases h

/-- What an array becomes depends on its frame alone. -/
theorem assign_congr (h : a.frame = b.frame) (x : Tensor A) : a.assign x = b.assign x := by
  rw [assign, assign, kind_congr h, shape_congr h]

/-- What a copy into an array leaves depends on the frame of the array alone. -/
theorem copyInto_congr (h : a.frame = b.frame) (x : Tensor A) : a.copyInto x = b.copyInto x := by
  rw [copyInto, copyInto, kind_congr h, assign_congr h]

/-- What an overwritten array becomes depends on its frame alone. -/
theorem overwrite_congr (h : a.frame = b.frame) (x : Tensor A) : a.overwrite x = b.overwrite x := by
  rw [overwrite, overwrite, kind_congr h, shape_congr h]

/-- How an array takes in a product depends on its frame alone. -/
theorem receive_congr (h : a.frame = b.frame) (x y : Tensor A) : a.receive x y = b.receive x y := by
  simp only [receive, kind_congr h, shape_congr h, assign_congr h]

/-- A result of the array's own frame is stored as it is. -/
theorem assign_of_frame (h : x.frame = a.frame) : a.assign x = .ok x := by
  have hc : x.castTo a.kind = x := castTo_of_frame h
  rw [assign, broadcastTo, if_pos (shape_congr h), Except.map, hc]

/-- An array of its own frame is copied into an array as it is. -/
theorem copyInto_of_frame (h : x.frame = a.frame) : a.copyInto x = .ok x := by
  rw [copyInto, kind_congr h, if_pos (A.storable_self _), assign_of_frame h]

/-- An array that is overwritten by one of its own frame becomes that one. -/
theorem overwrite_of_frame (h : x.frame = a.frame) : a.overwrite x = x := by
  rw [overwrite, if_pos (shape_congr h)]
  exact castTo_of_frame h

/-- A product of the array's own frame is stored as it is. -/
theorem receive_of_frame (h : x.frame = a.frame) (hp : b.matMul c = .ok x)
    (hkind : A.join b.kind c.kind = a.kind)
    (hfit : (Kept.ofShapes b.shape c.shape).fit a.shape.length = Kept.ofShapes b.shape c.shape) :
    a.receive b c = .ok x := by
  rw [matMul] at hp
  simp only [receive, hkind, A.storable_self, if_true, hfit, hp, bind, Except.bind, shape_congr h]
  exact assign_of_frame h

/-! ## Shapes of one size -/

/-- A row takes any shape of its size. -/
theorem reshape_of_vector (h : t.frame = f.vector) :
    ∃ y, t.reshape f.shape = .ok y ∧ y.frame = f := by
  have hs : t.shape.size = f.shape.size := size_of_vector h
  have hk := kind_of_frame h
  exact ⟨t.withShape f.shape hs, dif_pos hs, frame_eq hk rfl⟩

/-! ## Operations on one shape -/

/-- Arrays of one shape combine elementwise, and keep their shape. -/
theorem exists_combine (h : a.shape = b.shape) (kind : A.Kind → A.Kind)
    (op : A.Kind → A.Elem → A.Elem → A.Elem) :
    ∃ c, combine kind op a b = .ok c ∧ c.shape = a.shape := by
  rw [combine, ← h, Shape.broadcast?_self]
  exact ⟨_, rfl, rfl⟩

/-- Arrays of one shape have a sum of that shape. -/
theorem exists_add (h : a.shape = b.shape) : ∃ c, a.add b = .ok c ∧ c.shape = a.shape :=
  exists_combine h id A.add

/-! ## Operations within one frame -/

/-- Tensors of one frame are combined element by element in it. -/
theorem combine_eq_of_frame (op : A.Kind → A.Elem → A.Elem → A.Elem) (ha : a.frame = f)
    (hb : b.frame = f) :
    combine id op a b = .ok (ofFn f.kind f.shape fun i => op f.kind (a.elem i) (b.elem i)) := by
  have hkind : A.join a.kind b.kind = f.kind := by
    rw [kind_of_frame ha, kind_of_frame hb, A.join_self]
  simp only [combine, shape_of_frame ha, shape_of_frame hb, Shape.broadcast?_self, hkind, id,
    castTo_of_frame ha, castTo_of_frame hb, Shape.source_self]

/-- Operations in the joined kind stay in a frame. -/
theorem combine_of_frame (op : A.Kind → A.Elem → A.Elem → A.Elem) (ha : a.frame = f)
    (hb : b.frame = f) : ∃ c, combine id op a b = .ok c ∧ c.frame = f :=
  ⟨_, combine_eq_of_frame op ha hb, rfl⟩

/-- Arrays of one frame have a sum of that frame. -/
theorem add_of_frame (ha : a.frame = f) (hb : b.frame = f) : ∃ c, a.add b = .ok c ∧ c.frame = f :=
  combine_of_frame A.add ha hb

/-- Arrays of one frame have a difference of that frame, if its kind is a working kind. -/
theorem sub_of_frame (hf : A.IsWorking f.kind) (ha : a.frame = f) (hb : b.frame = f) :
    ∃ c, a.sub b = .ok c ∧ c.frame = f := by
  have hs : A.signed (A.join a.kind b.kind) = true := by
    rw [kind_of_frame ha, kind_of_frame hb, A.join_self, hf.signed]
  rw [sub, if_pos hs]
  exact combine_of_frame A.sub ha hb

/-- An array of a working kind has a negative of its own frame. -/
theorem neg_of_frame (hf : A.IsWorking f.kind) (ha : a.frame = f) :
    ∃ c, a.neg = .ok c ∧ c.frame = f := by
  have hs : A.signed a.kind = true := by rw [kind_of_frame ha, hf.signed]
  rw [neg, if_pos hs]
  exact ⟨_, rfl, ha⟩

/-- A negative has the frame of what it is the negative of. -/
theorem frame_of_neg (h : a.neg = .ok c) : c.frame = a.frame := by
  unfold neg at h
  split at h
  · obtain rfl := Except.ok.inj h
    rfl
  · cases h

/-- Conjugation keeps the frame. -/
theorem frame_conj (t : Tensor A) : t.conj.frame = t.frame := rfl

/-- A real multiple of an array of a working kind is of its frame. -/
theorem frame_scale (hf : A.IsWorking f.kind) (ha : a.frame = f) (x : A.Real) :
    (a.scale x).frame = f := by
  have hs := shape_of_frame ha
  have hk := congrArg A.withReal (kind_of_frame ha)
  exact frame_eq (hk.trans hf.withReal) hs

/-- Division by a single number of the kind. -/
theorem div_of_frame (hf : A.IsWorking f.kind) (ha : a.frame = f.vector) {d : Tensor A}
    (hd : d.frame = ⟨f.kind, []⟩) : ∃ c, a.div d = .ok c ∧ c.frame = f.vector := by
  have hs : Shape.broadcast? f.vector.shape [] = some f.vector.shape := rfl
  simp only [div, combine, shape_of_frame ha, shape_of_frame hd, hs]
  refine ⟨_, rfl, ?_⟩
  rw [kind_of_frame ha, kind_of_frame hd, Frame.kind_vector, A.join_self, hf.quotient]
  rfl

/-- The inner product of two rows is a single number. -/
theorem inner_of_frame (ha : a.frame = f) (hb : b.frame = f) :
    ∃ c, a.inner b = .ok c ∧ c.frame = ⟨f.kind, []⟩ := by
  rw [inner, if_pos ((size_of_frame ha).trans (size_of_frame hb).symm)]
  refine ⟨_, rfl, ?_⟩
  rw [kind_of_frame ha, kind_of_frame hb, A.join_self]
  rfl

/-- The outer product of two vectors that belong to a frame is a matrix that belongs to it. -/
theorem outer_of_frame (ha : a.frame = f.vector) (hb : b.frame = f.vector) :
    (a.outer b).frame = f.matrix := by
  rw [outer, frame_ofFn, size_of_vector ha, size_of_vector hb, kind_of_frame ha, kind_of_frame hb,
    A.join_self]
  rfl

/-- A matrix that a column times a row is added to keeps its frame. -/
theorem frame_of_accumulateOuter (h : a.accumulateOuter x y = .ok b) : b.frame = a.frame := by
  unfold accumulateOuter at h
  split at h
  · exact frame_of_assign h
  · cases h

/-- A matrix that is reset to the identity keeps its frame. -/
theorem frame_of_resetToIdentity (h : a.resetToIdentity = .ok b) : b.frame = a.frame := by
  unfold resetToIdentity at h
  split at h
  · obtain rfl := Except.ok.inj h
    rfl
  · split at h
    · obtain rfl := Except.ok.inj h
      rfl
    · cases h
  · cases h

/-- A square matrix times a column. -/
theorem matMul_of_frame (hm : a.frame = f.matrix) (hv : b.frame = f.vector) :
    ∃ c, a.matMul b = .ok c ∧ c.frame = f.vector := by
  refine ⟨_, matMul_matrix_column (shape_of_frame hm) (shape_of_frame hv), ?_⟩
  rw [kind_of_frame hm, kind_of_frame hv]
  exact congrArg (Frame.mk · _) (A.join_self _)

/-- A row times a square matrix. -/
theorem matMul_of_frame' (hv : a.frame = f.vector) (hm : b.frame = f.matrix) :
    ∃ c, a.matMul b = .ok c ∧ c.frame = f.vector := by
  refine ⟨_, matMul_row_matrix (shape_of_frame hv) (shape_of_frame hm), ?_⟩
  rw [kind_of_frame hm, kind_of_frame hv]
  exact congrArg (Frame.mk · _) (A.join_self _)

end Tensor

end QuasiNewton
