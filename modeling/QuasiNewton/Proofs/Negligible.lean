import QuasiNewton.Proofs.Nearest
import QuasiNewton.Proofs.Nonfinite
import QuasiNewton.Proofs.Workable

/-!
# Differences of equal tensors

Where two tensors are equal in the kind in which they are combined and finite there, their
difference is zero, and zeros are negligible for every reset check with a positive tolerance.
-/

namespace QuasiNewton

namespace Machine

open Decimal

namespace Precision

variable (p : Precision)

/-- Zero is rounded to zero. -/
theorem round_zero : p.round 0 = 0 := by cases p <;> rfl

/-- The number nearest to a mantissa of zero is zero. -/
theorem nearest_zero (e : Int) : p.nearest false 0 e = 0 := by
  have hround (n : Nat) : roundDiv 0 n = 0 := by
    unfold roundDiv
    dsimp only
    rw [Nat.zero_div, Nat.zero_mod]
    split_ifs <;> omega
  unfold nearest
  dsimp only
  rw [Nat.zero_mul, hround, Nat.zero_mul, if_neg]
  · unfold assemble
    split
    · exact if_pos (.inl (Nat.zero_mul _))
    · exact if_pos (.inl rfl)
  · exact (Nat.mul_pos (Nat.two_pow_pos _) (Nat.two_pow_pos _)).not_ge

end Precision

namespace Number

/-- The zero that the difference of equal numbers of a kind is. -/
def nought : Kind → Number
  | .truth | .integer => .whole 0
  | .real _ => .real 0
  | .complex _ => .complex 0 0

variable {k : Kind} {z : Number}

/-- A finite number less itself is zero. -/
theorem sub_self (h : z.isFinite k = true) : Number.sub k z z = nought k := by
  have hpart {x : Float} (hx : x ∈ z.parts k) (p : Precision) : p.round (x - x) = 0 := by
    rw [sub_self_of_isFinite (List.all_eq_true.mp h x hx)]
    exact p.round_zero
  cases k with
  | truth => exact congrArg (fun n => Number.whole (wrap n)) (Int.sub_self _)
  | integer => exact congrArg (fun n => Number.whole (wrap n)) (Int.sub_self _)
  | real p => exact congrArg Number.real (hpart List.mem_cons_self p)
  | complex p =>
    exact congrArg₂ Number.complex (hpart List.mem_cons_self p)
      (hpart (List.mem_cons_of_mem _ List.mem_cons_self) p)

/-- The magnitude of zero is zero. -/
theorem abs_nought (k : Kind) : Number.abs k (nought k) = nought k.absolute := by
  have habs : (0 : Float).abs = 0 := eq_of_unpacked rfl
  cases k with
  | truth => rfl
  | integer => rfl
  | real p => exact congrArg Number.real habs
  | complex p => cases p <;> rfl

/-- The zero of a kind is zero. -/
theorem isZero_nought (k : Kind) : (nought k).isZero = true := by cases k <;> rfl

/-- It is the integer zero. -/
theorem integer_nought (k : Kind) : (nought k).integer = 0 := by
  have htruncate : Number.truncate 0 = 0 := by decide +kernel
  cases k with
  | truth => rfl
  | integer => rfl
  | real => exact htruncate
  | complex => exact htruncate

/-- It has no imaginary part. -/
theorem im_nought (k : Kind) : (nought k).im = 0 := by cases k <;> rfl

/-- Its real part is rounded to zero. -/
theorem roundedRe_nought (p : Precision) (k : Kind) : (nought k).roundedRe p = 0 := by
  cases k with
  | truth => exact p.nearest_zero 0
  | integer => exact p.nearest_zero 0
  | real => exact p.round_zero
  | complex => exact p.round_zero

/-- Zero stays zero in every kind. -/
theorem convert_nought (j k : Kind) : Number.convert j (nought k) = nought j := by
  cases j with
  | truth => exact congrArg Number.whole (if_pos (isZero_nought k))
  | integer => exact congrArg Number.whole (integer_nought k)
  | real p => exact congrArg Number.real (roundedRe_nought p k)
  | complex p =>
    refine congrArg₂ Number.complex (roundedRe_nought p k) ?_
    rw [im_nought]
    exact p.round_zero

/-- A positive double is not below zero in a precision. -/
theorem nought_le_real {j : Kind} {p : Precision} (hj : j = .real p) {x : Float}
    (hx : magnitudes.le magnitudes.zero x = true) :
    Number.le j (nought j) (Number.convert j (.real x)) = true := by
  subst hj
  exact p.zero_le_round hx

/-- A whole number that is not negative is not below zero in any kind. -/
theorem nought_le_whole (j : Kind) {n : Int} (hn : 0 ≤ n) :
    Number.le j (nought j) (Number.ofWhole j n) = true := by
  have hround (p : Precision) := p.zero_le_round (zero_le_floatOfInt hn)
  cases j with
  | truth =>
    refine decide_eq_true ?_
    change (0 : Int) ≤ if (Number.whole n).isZero then 0 else 1
    split <;> decide
  | integer => exact decide_eq_true hn
  | real p => exact hround p
  | complex p => exact hround p

/-- A positive number as it was written is not below zero in a kind of magnitudes. -/
theorem nought_le (k : Kind) {q : Quantity Float} (hq : q.isAbove (M := magnitudes) 0 = true) :
    arithmetic.elemLe (arithmetic.meeting k.absolute q) (nought (arithmetic.meeting k.absolute q))
      (arithmetic.ofQuantity (arithmetic.meeting k.absolute q) q) = true := by
  have hcompare : q.compareInt (M := magnitudes) 0 = some .gt := beq_iff_eq.mp hq
  cases q with
  | real x =>
    obtain ⟨p, hp⟩ : ∃ p, k.absolute.inexact = .real p := by cases k <;> exact ⟨_, rfl⟩
    exact nought_le_real hp (zero_le_of_pos hcompare)
  | flag b => exact nought_le_whole _ (by cases b <;> decide)
  | whole n =>
    exact nought_le_whole _ (Int.compare_eq_gt.mp (Option.some.inj hcompare)).le

end Number

/-- Zeros are within every positive number that they can be compared with. -/
theorem within_of_nought {t : Tensor arithmetic} {q : Quantity arithmetic.Real}
    (hq : q.isAbove (M := magnitudes) 0 = true)
    (hrange : q.InRangeAt arithmetic (arithmetic.absolute t.kind))
    (ht : ∀ i < t.size, t.elem i = Number.nought t.kind) : t.allWithin q = .ok true := by
  refine (Tensor.allWithin_eq_true_iff q t).mpr ⟨fun n hn => (hrange.whole n hn).1, fun i hi => ?_⟩
  have habs : t.abs.elem i = Number.nought (Kind.absolute t.kind) := by
    refine (Tensor.elem_ofFn _ _ _ hi).trans ?_
    rw [ht i hi]
    exact Number.abs_nought t.kind
  have hcast : (t.abs.castTo (arithmetic.meeting (arithmetic.absolute t.kind) q)).elem i =
      Number.nought (arithmetic.meeting (arithmetic.absolute t.kind) q) := by
    unfold Tensor.castTo
    split
    case isTrue hsame => exact habs.trans (congrArg Number.nought hsame)
    case isFalse =>
      refine (Tensor.elem_ofFn _ t.abs.shape _ hi).trans ?_
      rw [habs]
      exact Number.convert_nought _ _
  rw [hcast]
  exact Number.nought_le t.kind hq

/-- A difference of tensors that are equal and finite in the kind in which they are combined is
negligible for every reset check with a positive tolerance in range. -/
theorem negligible_sub {v w y : Tensor arithmetic} (hshape : v.shape = w.shape)
    (hsame : v.castTo (arithmetic.join v.kind w.kind) = w.castTo (arithmetic.join v.kind w.kind))
    (hfinite : ∀ i < v.size, Number.isFinite (arithmetic.join v.kind w.kind)
      ((v.castTo (arithmetic.join v.kind w.kind)).elem i) = true)
    (hy : v.sub w = .ok y) {c : ResetCheck arithmetic}
    (hpositive : c.tolerance.isAbove (M := magnitudes) 0 = true)
    (hrange : Quantity.InRange arithmetic c.tolerance) : c.negligible y = .ok true := by
  refine within_of_nought hpositive (hrange.inRangeAt _) ?_
  unfold Tensor.sub at hy
  split at hy
  case isFalse => cases hy
  case isTrue =>
    rw [Tensor.combine, ← hshape, Shape.broadcast?_self] at hy
    obtain rfl := Except.ok.inj hy
    intro i hi
    refine (Tensor.elem_ofFn _ _ _ hi).trans ?_
    rw [Shape.source_self, id_eq, ← hsame]
    exact Number.sub_self (hfinite i hi)

end Machine

end QuasiNewton
