import QuasiNewton.Proofs.Orders

/-!
# Infinite doubles and doubles that are no numbers

What is no number stays so under sums, roots and shares, and so does what is no number or lies above
every number. The square and the magnitude of a double that is not finite are of the second sort.
-/

namespace QuasiNewton.Machine

open Float.Model
open Float.Model.UnpackedFloat (Sign)

/-! ## Unpacked doubles -/

/-- What a double stands for. -/
def unpacked (x : Float) : UnpackedFloat := x.toModel.unpack

/-- What a double stands for that is the result of an exact operation. -/
def repacked (f : UnpackedFloat) : UnpackedFloat := (Float.Model.pack f).unpack

/-- A sum of doubles stands for the rounded sum of what they stand for. -/
theorem unpacked_add (x y : Float) :
    unpacked (x + y) = repacked (.add Format.binary64 (unpacked x) (unpacked y)) := rfl

/-- A product stands for the rounded product. -/
theorem unpacked_mul (x y : Float) :
    unpacked (x * y) = repacked (.mul Format.binary64 (unpacked x) (unpacked y)) := rfl

/-- A quotient stands for the rounded quotient. -/
theorem unpacked_div (x y : Float) :
    unpacked (x / y) = repacked (.div Format.binary64 (unpacked x) (unpacked y)) := rfl

@[simp] theorem repacked_notANumber : repacked .notANumber = .notANumber := rfl

@[simp] theorem repacked_infinity (s : Sign) : repacked (.infinity s) = .infinity s := by
  cases s <;> rfl

/-! ## Signs -/

/-- The sign is not negative. -/
def Upward : UnpackedFloat → Prop
  | .notANumber => True
  | .infinity s | .zero s | .finite s .. => s = .positive

/-- Rounding to a double keeps a sign that is not negative. -/
theorem upward_repacked {f : UnpackedFloat} (h : Upward f) : Upward (repacked f) := by
  have hcomponents (e : BitVec Format.binary64.exponentBits)
      (m : BitVec Format.binary64.mantissaBitsWithoutImplicit) :
      Upward (.unpack Format.binary64
        (UnpackedFloat.packComponents Format.binary64 .positive e m)) := by
    unfold UnpackedFloat.unpack
    dsimp only
    rw [UnpackedFloat.unpackSign_packComponents]
    split_ifs <;> trivial
  cases f with
  | notANumber => trivial
  | infinity s =>
    rw [repacked_infinity]
    exact h
  | zero s =>
    obtain rfl : s = .positive := h
    exact hcomponents 0 0
  | finite s m e hm =>
    obtain rfl : s = .positive := h
    change Upward (.unpack Format.binary64 (UnpackedFloat.pack Format.binary64 _))
    unfold UnpackedFloat.pack
    dsimp only
    split_ifs
    · exact hcomponents _ _
    · exact hcomponents _ _
    · exact hcomponents _ _

/-- Rounding of a positive mantissa gives no negative sign. -/
theorem upward_roundWithAccuracy (m : Nat) (e : Int) (a : UnpackedFloat.Accuracy) :
    Upward (.roundWithAccuracy Format.binary64 .positive m e a) := by
  unfold UnpackedFloat.roundWithAccuracy
  dsimp only
  split_ifs <;> rfl

/-- A product of two factors without a negative sign has none. -/
theorem upward_mul {f g : UnpackedFloat} (hf : Upward f) (hg : Upward g) :
    Upward (.mul Format.binary64 f g) := by
  cases f with
  | notANumber => trivial
  | infinity s =>
    obtain rfl : s = .positive := hf
    cases g with
    | notANumber => trivial
    | infinity t => obtain rfl : t = .positive := hg; rfl
    | zero t => trivial
    | finite t m e hm => obtain rfl : t = .positive := hg; rfl
  | zero s =>
    obtain rfl : s = .positive := hf
    cases g with
    | notANumber => trivial
    | infinity t => trivial
    | zero t => obtain rfl : t = .positive := hg; rfl
    | finite t m e hm => obtain rfl : t = .positive := hg; rfl
  | finite s m e hm =>
    obtain rfl : s = .positive := hf
    cases g with
    | notANumber => trivial
    | infinity t => obtain rfl : t = .positive := hg; rfl
    | zero t => obtain rfl : t = .positive := hg; rfl
    | finite t n d hn =>
      obtain rfl : t = .positive := hg
      exact upward_roundWithAccuracy _ _ _

/-- Nor has a root. -/
theorem upward_sqrt {f : UnpackedFloat} (h : Upward f) : Upward (.sqrt Format.binary64 f) := by
  cases f with
  | notANumber => trivial
  | infinity s => obtain rfl : s = .positive := h; rfl
  | zero s => exact h
  | finite s m e hm =>
    obtain rfl : s = .positive := h
    exact upward_roundWithAccuracy _ _ _

/-- Nor has a natural number. -/
theorem upward_ofNat (n : Nat) : Upward (.ofNat Format.binary64 n) := by
  unfold UnpackedFloat.ofNat UnpackedFloat.ofInt UnpackedFloat.normalize
  split
  case h_1 h => exact absurd (Int.compare_eq_lt.mp h) (by omega)
  case h_2 => rfl
  case h_3 => exact upward_roundWithAccuracy _ _ _

/-- Nor has a decimal number. -/
theorem upward_ofScientific (m : Nat) (e : Int) : Upward (.ofScientific Format.binary64 m e) := by
  unfold UnpackedFloat.ofScientific
  by_cases hm : m = 0
  · rw [dif_pos hm]
    rfl
  · rw [dif_neg hm]
    split
    case isTrue => rfl
    case isFalse =>
      split
      case isTrue => rfl
      case isFalse =>
        split
        case isTrue => exact upward_roundWithAccuracy _ _ _
        case isFalse => exact upward_roundWithAccuracy _ _ _

/-- The double of a natural number has no negative sign. -/
theorem upward_unpacked_ofNat (n : Nat) : Upward (unpacked (Float.ofNat n)) := by
  change Upward (unpacked (Float.ofScientific n false 0))
  unfold Float.ofScientific
  split
  case isTrue =>
    rw [if_neg Bool.false_ne_true, unpacked_mul]
    refine upward_repacked (upward_mul (upward_repacked (upward_ofNat _)) ?_)
    exact upward_repacked (f := .unpack Format.binary64 0x3FF0000000000000) rfl
  case isFalse => exact upward_repacked (upward_ofScientific n 0)

/-! ## Doubles that are not finite -/

/-- A double is known by what it stands for. -/
theorem eq_of_unpacked {x y : Float} (h : unpacked x = unpacked y) : x = y := by
  have hbits := (UnpackedFloat.unpack_inj_of_valid x.toModel.valid y.toModel.valid).mp h
  exact Float.toBits_inj.mp (UInt64.toBitVec_inj.mp hbits)

/-- The double that is no number stands for none. -/
theorem unpacked_undefined : unpacked undefined = .notANumber := rfl

/-- The greatest double stands for positive infinity. -/
theorem unpacked_infinity : unpacked infinity = .infinity .positive := rfl

/-- Its negative stands for negative infinity. -/
theorem unpacked_neg_infinity : unpacked (-infinity) = .infinity .negative := rfl

/-- Only one double is no number. -/
theorem eq_undefined_of_isNaN {x : Float} (h : x.isNaN = true) : x = undefined := by
  refine eq_of_unpacked ?_
  rw [unpacked_undefined]
  change (unpacked x).isNaN = true at h
  cases hx : unpacked x with
  | notANumber => rfl
  | infinity s => rw [hx] at h; cases h
  | zero s => rw [hx] at h; cases h
  | finite s m e hm => rw [hx] at h; cases h

/-- Only two doubles are infinite. -/
theorem eq_infinity_of_isInf {x : Float} (h : x.isInf = true) : x = infinity ∨ x = -infinity := by
  change (unpacked x).isInf = true at h
  cases hx : unpacked x with
  | notANumber => rw [hx] at h; cases h
  | infinity s =>
    cases s with
    | positive => exact .inl (eq_of_unpacked (hx.trans unpacked_infinity.symm))
    | negative => exact .inr (eq_of_unpacked (hx.trans unpacked_neg_infinity.symm))
  | zero s => rw [hx] at h; cases h
  | finite s m e hm => rw [hx] at h; cases h

/-- A double that is not finite is no number or infinite. -/
theorem isNaN_or_isInf {x : Float} (h : x.isFinite = false) : x.isNaN = true ∨ x.isInf = true := by
  change (unpacked x).isFinite = false at h
  change (unpacked x).isNaN = true ∨ (unpacked x).isInf = true
  cases hx : unpacked x with
  | notANumber => exact .inl rfl
  | infinity s => exact .inr rfl
  | zero s => rw [hx] at h; cases h
  | finite s m e hm => rw [hx] at h; cases h

/-- No number, or above every number. -/
def Beyond (x : Float) : Prop := x = undefined ∨ x = infinity

/-- The square of a double that is not finite is no number, or above every number. -/
theorem beyond_sq {x : Float} (h : x.isFinite = false) : Beyond (x * x) := by
  rcases isNaN_or_isInf h with h | h
  · rw [eq_undefined_of_isNaN h]
    exact .inl rfl
  · rcases eq_infinity_of_isInf h with rfl | rfl
    · exact .inr rfl
    · exact .inr rfl

/-- So is its magnitude. -/
theorem beyond_abs {x : Float} (h : x.isFinite = false) : Beyond x.abs := by
  rcases isNaN_or_isInf h with h | h
  · rw [eq_undefined_of_isNaN h]
    exact .inl rfl
  · rcases eq_infinity_of_isInf h with rfl | rfl
    · exact .inr rfl
    · exact .inr rfl

/-- Rounding to a precision leaves what is beyond every number. -/
theorem Beyond.round {x : Float} (h : Beyond x) (p : Precision) : p.round x = x := by
  rcases h with rfl | rfl
  · cases p <;> rfl
  · cases p <;> rfl

/-- What is no number, or above every number, is not finite. -/
theorem Beyond.isFinite {x : Float} (h : Beyond x) : magnitudes.isFinite x = false := by
  rcases h with rfl | rfl
  · rfl
  · rfl

/-- Only infinity bounds what is beyond every number, and only if that is infinite itself. -/
theorem Beyond.of_le {x y : Float} (h : Beyond x) (hle : magnitudes.le x y = true) :
    x = infinity ∧ y = infinity := by
  obtain ⟨a, c, ha, hc, hac⟩ := le_iff_rank.mp hle
  rcases h with rfl | rfl
  · cases ha
  · refine ⟨rfl, eq_of_unpacked ?_⟩
    obtain rfl : toLex (2, toLex (0, 0)) = a := Option.some.inj ha
    have htop : (2 : Int) ≤ (ofLex c).1 := by
      rcases Prod.Lex.le_iff.mp hac with hlt | ⟨heq, -⟩
      · exact hlt.le
      · exact heq.le
    change rank (unpacked y) = some c at hc
    cases hy : unpacked y with
    | notANumber =>
      rw [hy] at hc
      cases hc
    | infinity s =>
      cases s with
      | positive => rfl
      | negative =>
        rw [hy] at hc
        obtain rfl := Option.some.inj hc
        exact absurd htop (by decide)
    | zero s =>
      rw [hy] at hc
      obtain rfl := Option.some.inj hc
      exact absurd htop (by decide)
    | finite s m e hm =>
      rw [hy] at hc
      cases s with
      | positive =>
        obtain rfl := Option.some.inj hc
        exact absurd htop (show ¬(2 : Int) ≤ 1 by decide)
      | negative =>
        obtain rfl := Option.some.inj hc
        exact absurd htop (show ¬(2 : Int) ≤ -1 by decide)

/-- No whole number bounds it. -/
theorem Beyond.compareInt {x : Float} (h : Beyond x) (n : Int) :
    (magnitudes.compareInt x n).any (· != .gt) = false := by
  rcases h with rfl | rfl
  · rfl
  · rfl

/-! ## Properties that absorb -/

/-- A property of doubles that sums, roots and shares keep. -/
structure Absorbing (p : Float → Prop) : Prop where
  beyond : ∀ {x}, p x → Beyond x
  add_left : ∀ {x} y, p x → p (x + y)
  add_right : ∀ x {y}, p y → p (x + y)
  sqrt : ∀ {x}, p x → p x.sqrt
  share : ∀ {x} (n : Nat), p x → p (x / (Float.ofNat n).sqrt)

/-- To be no number absorbs sums, roots and shares. -/
theorem absorbing_undefined : Absorbing fun x => x = undefined where
  beyond h := .inl h
  add_left y h := by
    refine eq_of_unpacked ?_
    rw [h, unpacked_add]
    rfl
  add_right x _ h := by
    refine eq_of_unpacked ?_
    rw [h, unpacked_add]
    cases unpacked x <;> rfl
  sqrt h := by
    rw [h]
    rfl
  share n h := by
    refine eq_of_unpacked ?_
    rw [h, unpacked_div]
    rfl

/-- What is beyond every number stands for no number or for infinity. -/
theorem beyond_iff_unpacked {x : Float} :
    Beyond x ↔ unpacked x = .notANumber ∨ unpacked x = .infinity .positive := by
  constructor
  · rintro (rfl | rfl)
    · exact .inl rfl
    · exact .inr rfl
  · rintro (h | h)
    · exact .inl (eq_of_unpacked h)
    · exact .inr (eq_of_unpacked h)

/-- An exact result that is no number or infinite is kept. -/
theorem beyond_of_repacked {x : Float} {f : UnpackedFloat} (hx : unpacked x = repacked f)
    (h : f = .notANumber ∨ f = .infinity .positive) : Beyond x := by
  rw [beyond_iff_unpacked, hx]
  rcases h with rfl | rfl
  · exact .inl repacked_notANumber
  · exact .inr (repacked_infinity _)

/-- A sum with infinity is infinite or no number. -/
theorem infinity_add (f : UnpackedFloat) :
    UnpackedFloat.add .binary64 (.infinity .positive) f = .notANumber ∨
      UnpackedFloat.add .binary64 (.infinity .positive) f = .infinity .positive := by
  cases f with
  | notANumber => exact .inl rfl
  | infinity s =>
    cases s with
    | positive => exact .inr rfl
    | negative => exact .inl rfl
  | zero s => exact .inr rfl
  | finite s m e hm => exact .inr rfl

/-- Whatever is added to infinity, the sum is no number or infinite. -/
theorem add_infinity (f : UnpackedFloat) :
    UnpackedFloat.add .binary64 f (.infinity .positive) = .notANumber ∨
      UnpackedFloat.add .binary64 f (.infinity .positive) = .infinity .positive := by
  cases f with
  | notANumber => exact .inl rfl
  | infinity s =>
    cases s with
    | positive => exact .inr rfl
    | negative => exact .inl rfl
  | zero s => exact .inr rfl
  | finite s m e hm => exact .inr rfl

/-- So is a share of it, if what it is shared among is not below zero. -/
theorem infinity_div {f : UnpackedFloat} (hf : Upward f) :
    UnpackedFloat.div .binary64 (.infinity .positive) f = .notANumber ∨
      UnpackedFloat.div .binary64 (.infinity .positive) f = .infinity .positive := by
  cases f with
  | notANumber => exact .inl rfl
  | infinity s => exact .inl rfl
  | zero s =>
    obtain rfl : s = .positive := hf
    exact .inr rfl
  | finite s m e hm =>
    obtain rfl : s = .positive := hf
    exact .inr rfl

/-- To be no number or above every number absorbs sums, roots and shares. -/
theorem absorbing_beyond : Absorbing Beyond where
  beyond h := h
  add_left y h := by
    refine beyond_of_repacked (unpacked_add _ y) ?_
    rcases beyond_iff_unpacked.mp h with h | h
    · rw [h]
      exact .inl rfl
    · rw [h]
      exact infinity_add _
  add_right x _ h := by
    refine beyond_of_repacked (unpacked_add x _) ?_
    rcases beyond_iff_unpacked.mp h with h | h
    · rw [h]
      cases unpacked x with
      | _ => exact .inl rfl
    · rw [h]
      exact add_infinity _
  sqrt h := by
    rcases h with rfl | rfl
    · exact .inl rfl
    · exact .inr rfl
  share n h := by
    have hroot : Upward (unpacked (Float.ofNat n).sqrt) :=
      upward_repacked (upward_sqrt (upward_unpacked_ofNat n))
    refine beyond_of_repacked (unpacked_div _ _) ?_
    rcases beyond_iff_unpacked.mp h with h | h
    · rw [h]
      exact .inl rfl
    · rw [h]
      exact infinity_div hroot

end QuasiNewton.Machine
