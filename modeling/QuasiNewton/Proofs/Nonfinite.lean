import QuasiNewton.Norm
import QuasiNewton.Proofs.Criteria
import QuasiNewton.Proofs.Infinities

/-!
# Tensors of machine numbers that are not finite

The magnitude of an element that is not finite, and the root mean square of a tensor with such an
element, are no number or infinite. If the element is no number and not infinite, neither of them is
a number.
-/

namespace QuasiNewton

namespace Machine

/-! ## Numbers -/

namespace Number

variable {k : Kind} {z : Number} {x : Float}

/-- The parts of a number of a kind that need not be finite. -/
def parts (k : Kind) (z : Number) : List Float :=
  match k with
  | .truth | .integer => []
  | .real _ => [z.re]
  | .complex _ => [z.re, z.im]

/-- Is a number of a kind finite? -/
def isFinite (k : Kind) (z : Number) : Bool := (z.parts k).all Float.isFinite

/-- Is a number of a kind no number, without being infinite? -/
def isUndefined (k : Kind) (z : Number) : Bool :=
  (z.parts k).any Float.isNaN && !(z.parts k).any Float.isInf

/-- The kind of a number with such parts has a precision. -/
theorem exists_precision (h : x ∈ z.parts k) : ∃ q, k.absolute = .real q ∧ k.inexact = k := by
  cases k with
  | truth => cases h
  | integer => cases h
  | real q => exact ⟨q, rfl, rfl⟩
  | complex q => exact ⟨q, rfl, rfl⟩

/-- The magnitude of a number and the square of one of its parts have a property of doubles. -/
structure Has (p : Float → Prop) (k : Kind) (z : Number) : Prop where
  magnitude : ∃ x, Number.abs k z = .real x ∧ p x
  square : ∃ x ∈ z.parts k, p (x * x)

/-- The length of two parts of which one is not finite is no number, or above every number. -/
theorem beyond_lengthBy {f : Float → Float → Float} {x y : Float}
    (h : x.isFinite = false ∨ y.isFinite = false) : Beyond (lengthBy f x y) := by
  unfold lengthBy
  by_cases hinf : (x.isInf || y.isInf) = true
  · rw [if_pos hinf]
    exact .inr rfl
  · rw [if_neg hinf]
    have hnan : (x.isNaN || y.isNaN) = true := by
      rw [Bool.or_eq_true, not_or] at hinf
      rw [Bool.or_eq_true]
      exact h.imp (fun h => (isNaN_or_isInf h).resolve_right hinf.1)
        fun h => (isNaN_or_isInf h).resolve_right hinf.2
    rw [if_pos hnan]
    exact .inl rfl

/-- A number that is not finite is beyond every number. -/
theorem has_beyond (h : z.isFinite k = false) : z.Has Beyond k := by
  obtain ⟨x, hx, hnot⟩ := List.all_eq_false.mp h
  have hfinite : x.isFinite = false := Bool.not_eq_true _ ▸ hnot
  refine ⟨?_, x, hx, beyond_sq hfinite⟩
  cases k with
  | truth => cases hx
  | integer => cases hx
  | real q =>
    obtain rfl := List.mem_singleton.mp hx
    exact ⟨_, rfl, beyond_abs hfinite⟩
  | complex q =>
    refine ⟨_, rfl, beyond_lengthBy ?_⟩
    rcases List.mem_pair.mp hx with rfl | rfl
    · exact .inl hfinite
    · exact .inr hfinite

/-- A number that is not a number has a magnitude and a square that are none either. -/
theorem has_undefined (h : z.isUndefined k = true) : z.Has (fun x => x = undefined) k := by
  obtain ⟨hany, hnone⟩ := Bool.and_eq_true_iff.mp h
  obtain ⟨x, hx, hnan⟩ := List.any_eq_true.mp hany
  have hx' : x = undefined := eq_undefined_of_isNaN hnan
  refine ⟨?_, x, hx, by rw [hx']; rfl⟩
  cases k with
  | truth => cases hx
  | integer => cases hx
  | real q =>
    obtain rfl := List.mem_singleton.mp hx
    refine ⟨_, rfl, ?_⟩
    rw [hx']
    rfl
  | complex q =>
    refine ⟨_, rfl, ?_⟩
    have hinf : ¬(z.re.isInf || z.im.isInf) = true := by
      simpa [parts] using hnone
    have hnans : (z.re.isNaN || z.im.isNaN) = true := by
      simpa [parts] using hany
    rw [scaledHypotenuse, lengthBy, if_neg hinf, if_pos hnans]

/-- In particular it is not finite. -/
theorem isFinite_of_isUndefined (h : z.isUndefined k = true) : z.isFinite k = false := by
  obtain ⟨x, hx, hnan⟩ := List.any_eq_true.mp (Bool.and_eq_true_iff.mp h).1
  refine List.all_eq_false.mpr ⟨x, hx, ?_⟩
  rw [eq_undefined_of_isNaN hnan]
  exact Bool.false_ne_true

/-- A number with a part that has such a property is real or complex. -/
theorem Has.exists_precision {p : Float → Prop} (h : z.Has p k) :
    ∃ q, k.absolute = .real q ∧ k.inexact = k := by
  obtain ⟨x, hx, -⟩ := h.square
  exact Number.exists_precision hx

end Number

/-- Joined with another kind, a kind with a precision has one that is at least as fine. -/
theorem Kind.exists_precision_join {k : Kind} {q : Precision} (h : k.absolute = .real q)
    (j : Kind) : ∃ q', (k.join j).absolute = .real q' ∧ q.join q' = q' := by
  have hfine (p : Precision) : q.join (q.join p) = q.join p := by
    rw [← Precision.join_assoc, Precision.join_self]
  cases k with
  | truth => cases h
  | integer => cases h
  | real p =>
    cases h
    cases j with
    | truth => exact ⟨_, rfl, Precision.join_self q⟩
    | integer => exact ⟨_, rfl, by cases q <;> rfl⟩
    | real r => exact ⟨_, rfl, hfine r⟩
    | complex r => exact ⟨_, rfl, hfine r⟩
  | complex p =>
    cases h
    cases j with
    | truth => exact ⟨_, rfl, Precision.join_self q⟩
    | integer => exact ⟨_, rfl, by cases q <;> rfl⟩
    | real r => exact ⟨_, rfl, hfine r⟩
    | complex r => exact ⟨_, rfl, hfine r⟩

/-- Magnitudes with a precision meet every number in their own kind. -/
theorem meeting_of_real {k : arithmetic.Kind} {q : Precision} (hk : k = Kind.real q)
    (a : Quantity arithmetic.Real) : arithmetic.meeting k a = k := by
  subst hk
  cases a with
  | flag b => rfl
  | whole n => rfl
  | real x => rfl

/-- They are ordered as doubles. -/
theorem elemLe_of_real {k : arithmetic.Kind} {q : Precision} (hk : k = Kind.real q)
    (x y : arithmetic.Elem) :
    arithmetic.elemLe k x y = magnitudes.le (Number.re x) (Number.re y) := by
  subst hk
  rfl

/-! ## Tensors with a number that has a property -/

namespace Absorbing

variable {p : Float → Prop} (hp : Absorbing p)

include hp

/-- Rounding to a precision keeps the property. -/
theorem round {x : Float} (h : p x) (q : Precision) : p (q.round x) := by
  rw [(hp.beyond h).round]
  exact h

/-- The square of the magnitude has what the square of a part has. -/
theorem absSquared {k : Kind} {z : Number} {x : Float} (hx : x ∈ z.parts k) (h : p (x * x)) :
    p (Number.absSquared k z).re := by
  cases k with
  | truth => cases hx
  | integer => cases hx
  | real q =>
    obtain rfl := List.mem_singleton.mp hx
    exact hp.round h q
  | complex q =>
    rcases List.mem_pair.mp hx with rfl | rfl
    · exact hp.round (hp.add_left _ (hp.round h q)) q
    · exact hp.round (hp.add_right _ (hp.round h q)) q

/-- A sum has what one of its terms has. -/
theorem sumBelow {k : arithmetic.Kind} {q : Precision} (hk : k = Kind.real q) {n i : Nat}
    {f : Nat → arithmetic.Elem} (hi : i < n) (h : p (Number.re (f i))) :
    p (Number.re (Tensor.sumBelow k n f)) := by
  induction n with
  | zero => exact absurd hi (Nat.not_lt_zero i)
  | succ n ih =>
    have hsucc : Number.re (Tensor.sumBelow k (n + 1) f) =
        q.round (Number.re (Tensor.sumBelow k n f) + Number.re (f n)) := by
      subst hk
      exact congrArg Number.re (Tensor.sumBelow_succ _ n f)
    refine (congrArg p hsucc).mpr ?_
    rcases Nat.lt_succ_iff_lt_or_eq.mp hi with hlt | rfl
    · exact hp.round (hp.add_left _ (ih hlt)) q
    · exact hp.round (hp.add_right _ h) q

variable {t : Tensor arithmetic} {i : Nat} (hi : i < t.size)

include hi

/-- The root of the sum of squares has what an element has. -/
theorem rootOfSquares (h : Number.Has p t.kind (t.elem i)) : p (Norm.rootOfSquares t) := by
  obtain ⟨q, habsolute, hinexact⟩ := h.exists_precision
  obtain ⟨x, hx, hsquare⟩ := h.square
  have hworking : arithmetic.working t.kind = t.kind := hinexact
  have hkind : arithmetic.absolute t.kind = Kind.real q := habsolute
  have hsum : p (Number.re (Tensor.sumBelow (arithmetic.absolute t.kind) t.size
      fun i => arithmetic.absSquared t.kind (t.elem i))) :=
    hp.sumBelow hkind hi (hp.absSquared hx hsquare)
  have hroot : Norm.rootOfSquares t = q.round (Number.re (Tensor.sumBelow
      (arithmetic.absolute t.kind) t.size
      fun i => arithmetic.absSquared t.kind (t.elem i))).sqrt := by
    unfold Norm.rootOfSquares
    dsimp only
    rw [hworking, Tensor.castTo_self, hkind]
    rfl
  rw [hroot]
  exact hp.round (hp.sqrt hsum) q

/-- The root mean square has what an element has. -/
theorem rms (h : Number.Has p t.kind (t.elem i)) : ∃ y, Norm.rms t = .ok y ∧ p y := by
  have hroot : p (Norm.rootOfSquares t) := hp.rootOfSquares hi h
  refine ⟨arithmetic.perRoot (Norm.rootOfSquares t) t.size, ?_, hp.share t.size hroot⟩
  rw [Norm.rms, if_neg (Nat.ne_of_gt (Nat.zero_lt_of_lt hi))]

/-- The root mean square has the property if an element has it. -/
theorem of_rms (h : Number.Has p t.kind (t.elem i)) {y : Float} (hy : Norm.rms t = .ok y) :
    p y := by
  obtain ⟨y', hy', hpy⟩ := hp.rms hi h
  obtain rfl : y' = y := Except.ok.inj (hy'.symm.trans hy)
  exact hpy

/-- The magnitude of an element, converted to another precision, has what the element has. -/
theorem castTo_abs (h : Number.Has p t.kind (t.elem i)) {k : arithmetic.Kind} {q : Precision}
    (hk : k = Kind.real q) : p (Number.re ((t.abs.castTo k).elem i)) := by
  obtain ⟨x, hx, hpx⟩ := h.magnitude
  have helem : t.abs.elem i = Number.real x := (Tensor.elem_ofFn _ _ _ hi).trans hx
  unfold Tensor.castTo
  by_cases hsame : t.abs.kind = k
  · rw [if_pos hsame, helem]
    exact hpx
  · have hround : p (Number.re (arithmetic.convert k (t.abs.elem i))) := by
      subst hk
      have hconvert := congrArg (Number.convert (.real q)) helem
      exact (congrArg (fun z => p (Number.re z)) hconvert).mpr (hp.round hpx q)
    rw [if_neg hsame, Tensor.elem_ofFn _ t.abs.shape _ hi]
    exact hround

end Absorbing

end Machine

end QuasiNewton
