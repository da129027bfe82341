import Mathlib
import QuasiNewton.Machine.Arithmetic

/-!
# Orders of magnitudes

What the search for a least norm asks of the two orders of a system of magnitudes, which need not be
total: a value that is not a number compares with nothing. Doubles do what is asked.
-/

namespace QuasiNewton

namespace Magnitudes

variable (M : Magnitudes)

/-- Is the value a number or an infinity? -/
def Defined (x : M.Real) : Prop := M.nature x ≠ .undefined

instance (x : M.Real) : Decidable (M.Defined x) := inferInstanceAs (Decidable (_ ≠ _))

/-- Values that are defined are in order. -/
structure InOrder : Prop where
  lt_irrefl : ∀ x, M.lt x x = false
  defined_of_lt : ∀ {x y}, M.lt x y = true → M.Defined x
  le_of_lt : ∀ {x y}, M.lt x y = true → M.le x y = true
  lt_of_lt_of_le : ∀ {x y z}, M.lt x y = true → M.le y z = true → M.lt x z = true
  le_or_lt : ∀ {x y}, M.Defined x → M.Defined y → M.le x y = true ∨ M.lt y x = true

namespace InOrder

variable {M}

/-- Numbers that are defined are not above themselves. -/
theorem le_refl (h : M.InOrder) {x : M.Real} (hx : M.Defined x) : M.le x x = true := by
  rcases h.le_or_lt hx hx with hle | hlt
  · exact hle
  · exact h.le_of_lt hlt

/-- Of two numbers that are defined, one that is not above the other is at most it. -/
theorem le_of_not_lt (h : M.InOrder) {x y : M.Real} (hx : M.Defined x) (hy : M.Defined y)
    (hyx : M.lt y x = false) : M.le x y = true := by
  rcases h.le_or_lt hx hy with hle | hlt
  · exact hle
  · exact absurd (hyx.symm.trans hlt) Bool.false_ne_true

end InOrder

/-- Values that are defined are in order, and nothing is below a value that is not. -/
structure InStrictOrder : Prop extends M.InOrder where
  defined_of_gt : ∀ {x y}, M.lt x y = true → M.Defined y

end Magnitudes

/-! ## Doubles -/

namespace Machine

open Float.Model

/-- Where a double stands among all that are numbers: infinite, negative, zero or positive, and then
by exponent and mantissa. Both zeros stand in one place. -/
def rank : UnpackedFloat → Option (Int ×ₗ Int ×ₗ Int)
  | .notANumber => none
  | .infinity .negative => some (toLex (-2, toLex (0, 0)))
  | .finite .negative m e _ => some (toLex (-1, toLex (-e, -(m : Int))))
  | .zero _ => some (toLex (0, toLex (0, 0)))
  | .finite .positive m e _ => some (toLex (1, toLex (e, (m : Int))))
  | .infinity .positive => some (toLex (2, toLex (0, 0)))

/-- Only what is not a number has no rank. -/
theorem rank_eq_none {x : UnpackedFloat} : rank x = none ↔ x = .notANumber := by
  cases x with
  | notANumber => simp [rank]
  | zero s => simp [rank]
  | infinity s => cases s <;> simp [rank]
  | finite s m e h => cases s <;> simp [rank]

private theorem cmp_toLex (c d e f m n : Int) :
    cmp (toLex (c, toLex (e, m))) (toLex (d, toLex (f, n))) =
      (cmp c d).then ((cmp e f).then (cmp m n)) := by
  simp only [cmp, cmpUsing, Prod.Lex.toLex_lt_toLex]
  rcases lt_trichotomy c d with h | rfl | h
  · simp [h]
  · rcases lt_trichotomy e f with h | rfl | h
    · simp [h]
    · simp
    · simp [h, h.not_gt, h.ne']
  · simp [h, h.not_gt, h.ne']

private theorem cmp_neg (a b : Int) : cmp (-a) (-b) = (cmp a b).swap := by
  rw [cmp_swap]
  simp only [cmp, cmpUsing, Int.neg_lt_neg_iff]

private theorem cmp_natCast (m n : Nat) : cmp (m : Int) n = compare m n := by
  rw [← cmp_eq_compare]
  simp only [cmp, cmpUsing, Int.ofNat_lt]

/-- Doubles that are numbers compare as their ranks do. -/
theorem compare_eq_cmp_rank (a b : UnpackedFloat) :
    a.compare b = (rank a).bind fun x => (rank b).map fun y => cmp x y := by
  rcases a with (_ | _) | _ | _ | ⟨(_ | _), m, e, hm⟩ <;>
    rcases b with (_ | _) | _ | _ | ⟨(_ | _), n, f, hn⟩ <;>
    simp only [UnpackedFloat.compare, rank, Option.bind_some, Option.map_some, Option.bind_none,
      Option.map_none, cmp_toLex] <;>
    try rfl
  case finite.negative.finite.negative =>
    rw [cmp_self_eq_eq, cmp_neg, cmp_neg, cmp_natCast, cmp_eq_compare, Ordering.swap_then]
    rfl
  case finite.positive.finite.positive =>
    rw [cmp_self_eq_eq, cmp_natCast, cmp_eq_compare]
    rfl

/-- One double is below another if it is so by rank. -/
theorem lt_iff_rank {x y : Float} : magnitudes.lt x y = true ↔
    ∃ a b, rank x.toModel.unpack = some a ∧ rank y.toModel.unpack = some b ∧ a < b := by
  have hlt : magnitudes.lt x y = true ↔
      (x.toModel.unpack.compare y.toModel.unpack == some .lt) = true :=
    decide_eq_true_iff.trans decide_eq_true_iff
  rw [hlt, compare_eq_cmp_rank, beq_iff_eq]
  simp only [Option.bind_eq_some_iff, Option.map_eq_some_iff, cmp_eq_lt_iff]
  exact ⟨fun ⟨a, ha, b, hb, h⟩ => ⟨a, b, ha, hb, h⟩, fun ⟨a, b, ha, hb, h⟩ => ⟨a, ha, b, hb, h⟩⟩

/-- One double is at most another if it is so by rank. -/
theorem le_iff_rank {x y : Float} : magnitudes.le x y = true ↔
    ∃ a b, rank x.toModel.unpack = some a ∧ rank y.toModel.unpack = some b ∧ a ≤ b := by
  have hle : magnitudes.le x y = true ↔
      (x.toModel.unpack.compare y.toModel.unpack).any (·.isLE) = true :=
    decide_eq_true_iff.trans decide_eq_true_iff
  rw [hle, compare_eq_cmp_rank, Option.any_eq_true]
  simp only [Option.bind_eq_some_iff, Option.map_eq_some_iff]
  constructor
  · rintro ⟨o, ⟨a, ha, b, hb, rfl⟩, h⟩
    refine ⟨a, b, ha, hb, not_lt.mp fun hlt => ?_⟩
    rw [(cmp_eq_gt_iff a b).mpr hlt] at h
    cases h
  · rintro ⟨a, b, ha, hb, h⟩
    refine ⟨_, ⟨a, ha, b, hb, rfl⟩, ?_⟩
    rcases h.lt_or_eq with h | rfl
    · rw [(cmp_eq_lt_iff a b).mpr h]
      rfl
    · rw [cmp_self_eq_eq]
      rfl

/-- The exponent of a double, as the number that its bits stand for. -/
theorem toNat_unpackExponent (b : BitVec 64) :
    (@UnpackedFloat.unpackExponent Format.binary64 b).toNat = b.toNat / 2 ^ 52 % 2 ^ 11 := by
  simp [UnpackedFloat.unpackExponent, BitVec.extractLsb_toNat, Nat.shiftRight_eq_div_pow,
    Format.binary64]

/-- The mantissa of a double, as the number that its bits stand for. -/
theorem toNat_unpackMantissa (b : BitVec 64) :
    (@UnpackedFloat.unpackMantissa Format.binary64 b).toNat = b.toNat % 2 ^ 52 := by
  simp [UnpackedFloat.unpackMantissa, BitVec.extractLsb_toNat, Format.binary64]

/-- A pattern of bits stands for no number if its exponent is the largest and its fraction is not
zero. -/
theorem unpack_eq_notANumber (b : BitVec 64) :
    UnpackedFloat.unpack Format.binary64 b = .notANumber ↔
      b.toNat / 2 ^ 52 % 2 ^ 11 = 2047 ∧ b.toNat % 2 ^ 52 ≠ 0 := by
  have hexponent : @UnpackedFloat.unpackExponent Format.binary64 b = -1#_ ↔
      b.toNat / 2 ^ 52 % 2 ^ 11 = 2047 := by
    rw [← toNat_unpackExponent, ← BitVec.toNat_inj]
    exact Iff.rfl
  have hfraction : @UnpackedFloat.unpackMantissa Format.binary64 b = 0#_ ↔
      b.toNat % 2 ^ 52 = 0 := by
    rw [← toNat_unpackMantissa, ← BitVec.toNat_inj]
    exact Iff.rfl
  unfold UnpackedFloat.unpack
  simp only [hexponent, hfraction]
  split
  · split <;> simp_all
  · split
    · split <;> simp_all
    · simp_all

private theorem ofFloat_eq_undefined {x : Float} :
    Decimal.Binary.ofFloat x = .undefined ↔
      x.toBits.toNat / Nat.pow 2 52 % Nat.pow 2 11 = 2047 ∧ x.toBits.toNat % Nat.pow 2 52 ≠ 0 := by
  unfold Decimal.Binary.ofFloat
  dsimp only
  split
  case isTrue hexponent =>
    split
    case isTrue hfraction => exact ⟨nofun, fun h => absurd hfraction h.2⟩
    case isFalse hfraction => exact ⟨fun _ => ⟨hexponent, hfraction⟩, fun _ => rfl⟩
  case isFalse hexponent =>
    refine ⟨fun h => ?_, fun h => absurd h.1 hexponent⟩
    split at h <;> cases h

/-- A double is defined if it has a rank. -/
theorem defined_iff_rank {x : Float} :
    magnitudes.Defined x ↔ ∃ a, rank x.toModel.unpack = some a := by
  have hnature : nature x = .undefined ↔ Decimal.Binary.ofFloat x = .undefined := by
    unfold nature
    split
    case h_1 h => exact ⟨fun _ => h, fun _ => rfl⟩
    case h_2 h => exact ⟨nofun, fun h' => by cases h.symm.trans h'⟩
    case h_3 h =>
      refine ⟨fun h' => ?_, fun h' => by cases h.symm.trans h'⟩
      split at h' <;> cases h'
  have hbits : Decimal.Binary.ofFloat x = .undefined ↔ rank x.toModel.unpack = none :=
    ofFloat_eq_undefined.trans (rank_eq_none.trans (unpack_eq_notANumber x.toBits.toBitVec)).symm
  rw [← Option.isSome_iff_exists, Option.isSome_iff_ne_none]
  exact not_congr (hnature.trans hbits)

/-- Doubles that are numbers or infinities are in order. -/
theorem magnitudes_inOrder : magnitudes.InOrder where
  lt_irrefl := fun x => by
    refine Bool.eq_false_iff.mpr fun h => ?_
    obtain ⟨a, b, ha, hb, hab⟩ := lt_iff_rank.mp h
    obtain rfl := Option.some.inj (ha.symm.trans hb)
    exact lt_irrefl a hab
  defined_of_lt := fun h => by
    obtain ⟨a, b, ha, -, -⟩ := lt_iff_rank.mp h
    exact defined_iff_rank.mpr ⟨a, ha⟩
  le_of_lt := fun h => by
    obtain ⟨a, b, ha, hb, hab⟩ := lt_iff_rank.mp h
    exact le_iff_rank.mpr ⟨a, b, ha, hb, hab.le⟩
  lt_of_lt_of_le := fun hxy hyz => by
    obtain ⟨a, b, ha, hb, hab⟩ := lt_iff_rank.mp hxy
    obtain ⟨b', c, hb', hc, hbc⟩ := le_iff_rank.mp hyz
    obtain rfl := Option.some.inj (hb.symm.trans hb')
    exact lt_iff_rank.mpr ⟨a, c, ha, hc, hab.trans_le hbc⟩
  le_or_lt := fun hx hy => by
    obtain ⟨a, ha⟩ := defined_iff_rank.mp hx
    obtain ⟨b, hb⟩ := defined_iff_rank.mp hy
    rcases le_or_gt a b with hab | hab
    · exact .inl (le_iff_rank.mpr ⟨a, b, ha, hb, hab⟩)
    · exact .inr (lt_iff_rank.mpr ⟨b, a, hb, ha, hab⟩)

/-- Machine numbers are strictly ordered, as doubles are by rank. -/
theorem magnitudes_inStrictOrder : magnitudes.InStrictOrder where
  toInOrder := magnitudes_inOrder
  defined_of_gt := fun h => by
    obtain ⟨a, b, -, hb, -⟩ := lt_iff_rank.mp h
    exact defined_iff_rank.mpr ⟨b, hb⟩

end Machine

end QuasiNewton
