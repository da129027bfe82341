import QuasiNewton.Proofs.Rounding
import QuasiNewton.Proofs.Wholes

/-!
# Nearest doubles

The double nearest to a quotient has a mantissa of 53 bits at most, so that its bits are those of a
number. A double that is nearest to a number that is not negative is not negative, in every
precision.
-/

namespace QuasiNewton

namespace Decimal

/-- A quotient is rounded to the whole number below it or to the next one. -/
theorem roundDiv_le (n d : Nat) : roundDiv n d ≤ n / d + 1 := by
  unfold roundDiv
  dsimp only
  split
  · omega
  · split
    · omega
    · omega

/-- A quotient over a power of two, as a numerator and a denominator. -/
def scaled (num den : Nat) (e : Int) : Nat × Nat :=
  match e with
  | .ofNat k => (num, den * Nat.pow 2 k)
  | .negSucc k => (num * Nat.pow 2 (k + 1), den)

/-- A scaled quotient is below a whole number if the quotient is below its multiple by the power. -/
theorem scaled_lt_iff {num den : Nat} {e : Int} (c : Nat) :
    (scaled num den e).1 < c * (scaled num den e).2 ↔ (num : ℚ) < c * den * 2 ^ e := by
  cases e with
  | ofNat k =>
    change num < c * (den * 2 ^ k) ↔ _
    rw [Int.ofNat_eq_natCast, zpow_natCast, ← Nat.cast_lt (α := ℚ)]
    push_cast
    rw [mul_assoc]
  | negSucc k =>
    change num * 2 ^ (k + 1) < c * den ↔ _
    rw [zpow_negSucc, ← div_eq_mul_inv, lt_div_iff₀ (by positivity), ← Nat.cast_lt (α := ℚ)]
    push_cast
    rfl

/-- The exponent of the leading bit of a quotient. -/
def leadingExponent (num den : Nat) : Int :=
  let estimate : Int := (num.log2 : Int) - (den.log2 : Int)
  if (scaled num den estimate).2 ≤ (scaled num den estimate).1 then estimate else estimate - 1

/-- A quotient is below the power of two after its leading one. -/
theorem lt_leadingExponent {num den : Nat} (hden : den ≠ 0) :
    (num : ℚ) < den * 2 ^ (leadingExponent num den + 1) := by
  unfold leadingExponent
  dsimp only
  split
  · have hnum : (num : ℚ) < 2 ^ (num.log2 + 1) := by
      exact_mod_cast Nat.lt_log2_self (n := num)
    have hlow : (2 : ℚ) ^ den.log2 ≤ den := by exact_mod_cast Nat.log2_self_le hden
    calc (num : ℚ) < 2 ^ (num.log2 + 1) := hnum
      _ = 2 ^ den.log2 * 2 ^ ((num.log2 : Int) - den.log2 + 1) := by
        rw [← zpow_natCast, ← zpow_natCast, ← zpow_add₀ two_ne_zero]
        congr 1
        push_cast
        ring
      _ ≤ den * 2 ^ ((num.log2 : Int) - den.log2 + 1) := by gcongr
  · rename_i h
    rw [Int.sub_add_cancel]
    have hlt : (scaled num den ((num.log2 : Int) - den.log2)).1 <
        1 * (scaled num den ((num.log2 : Int) - den.log2)).2 := by
      rw [Nat.one_mul]
      exact Nat.not_le.mp h
    simpa using (scaled_lt_iff 1).mp hlt

/-- The exponent of the last bit of the double nearest to a quotient. -/
def lastExponent (num den : Nat) : Int := max (leadingExponent num den - 52) (-1074)

/-- The mantissa of the double nearest to a quotient has 53 bits, or is the next power of two. -/
theorem roundDiv_scaled_le (num : Nat) {den : Nat} (hden : den ≠ 0) :
    roundDiv (scaled num den (lastExponent num den)).1 (scaled num den (lastExponent num den)).2 ≤
      2 ^ 53 := by
  refine (roundDiv_le _ _).trans (Nat.succ_le_of_lt (Nat.div_lt_of_lt_mul ?_))
  rw [Nat.mul_comm, scaled_lt_iff]
  have hle : leadingExponent num den + 1 ≤ 53 + lastExponent num den := by
    rw [lastExponent]
    omega
  calc (num : ℚ) < den * 2 ^ (leadingExponent num den + 1) := lt_leadingExponent hden
    _ ≤ den * 2 ^ (53 + lastExponent num den) := by
      gcongr
      norm_num
    _ = (2 ^ 53 : Nat) * den * 2 ^ lastExponent num den := by
      rw [zpow_add₀ two_ne_zero]
      push_cast
      ring

/-- The bits of a double that is not negative from its mantissa, which may be one bit too long, and
its exponent. -/
def packedBits (mantissa : Nat) (unit : Int) : Nat :=
  let (mantissa, unit) :=
    if mantissa = Nat.pow 2 53 then (Nat.pow 2 52, unit + 1) else (mantissa, unit)
  if 971 < unit then 0x7FF0000000000000
  else if mantissa < Nat.pow 2 52 then mantissa
  else ((unit + 1075).toNat) * Nat.pow 2 52 + (mantissa - Nat.pow 2 52)

/-- The bits of a mantissa of at most 53 bits stand for no more than infinity. -/
theorem packedBits_le {mantissa : Nat} (unit : Int) (h : mantissa ≤ Nat.pow 2 53) :
    packedBits mantissa unit ≤ 2047 * Nat.pow 2 52 := by
  have hpow : Nat.pow 2 53 = 2 * Nat.pow 2 52 := rfl
  have hinfinite : 0x7FF0000000000000 = 2047 * Nat.pow 2 52 := rfl
  have hrange (m : Nat) (e : Int) (hm : m ≤ Nat.pow 2 53) :
      (if 971 < e then 0x7FF0000000000000
        else if m < Nat.pow 2 52 then m
        else ((e + 1075).toNat) * Nat.pow 2 52 + (m - Nat.pow 2 52)) ≤ 2047 * Nat.pow 2 52 := by
    generalize Nat.pow 2 52 = c at *
    split
    · omega
    · split
      · omega
      · have hunit : (e + 1075).toNat * c ≤ 2046 * c := Nat.mul_le_mul_right _ (by omega)
        omega
  unfold packedBits
  split
  rename_i heq
  split at heq <;> cases heq
  · exact hrange _ _ (by rw [hpow]; omega)
  · exact hrange _ _ h

/-- The double nearest to a quotient that is not negative is made of bits. -/
theorem nearestFloat_eq {num den : Nat} (h : ¬(num = 0 ∨ den = 0)) :
    nearestFloat false num den = Float.ofBits (UInt64.ofNat (packedBits
      (roundDiv (scaled num den (lastExponent num den)).1 (scaled num den (lastExponent num den)).2)
      (lastExponent num den))) := by
  unfold nearestFloat
  rw [if_neg h]
  simp only [Bool.false_eq_true, if_false]
  refine congrArg (fun n => Float.ofBits (UInt64.ofNat n)) ?_
  unfold packedBits lastExponent leadingExponent scaled
  rfl

end Decimal

namespace Machine

open Float.Model
open Float.Model.UnpackedFloat (Sign)

/-- A number whose sign is not negative is not below zero. -/
theorem zero_le_of_upward {x : Float} (h : Upward (unpacked x)) (hx : unpacked x ≠ .notANumber) :
    magnitudes.le magnitudes.zero x = true := by
  refine le_iff_rank.mpr ⟨toLex (0, toLex (0, 0)), ?_⟩
  change ∃ b, _ ∧ rank (unpacked x) = some b ∧ _
  cases hf : unpacked x with
  | notANumber => exact absurd hf hx
  | zero s => exact ⟨_, rfl, rfl, le_rfl⟩
  | infinity s =>
    rw [hf] at h
    obtain rfl : s = .positive := h
    exact ⟨_, rfl, rfl, by decide⟩
  | finite s m e hm =>
    rw [hf] at h
    obtain rfl : s = .positive := h
    refine ⟨_, rfl, rfl, ?_⟩
    rw [Prod.Lex.toLex_le_toLex]
    exact .inl Int.one_pos

/-- What bits stand for does not change when they become a double. -/
theorem unpacked_ofBits (b : UInt64) :
    unpacked (Float.ofBits b) = UnpackedFloat.unpack Format.binary64 b.toBitVec := by
  change repacked (UnpackedFloat.unpack Format.binary64 b.toBitVec) = _
  change UnpackedFloat.unpack Format.binary64 (UnpackedFloat.pack Format.binary64 _) = _
  rw [UnpackedFloat.pack_unpack]
  split
  case isTrue h =>
    obtain ⟨hexponent, hmantissa⟩ := of_decide_eq_true h
    rw [UnpackedFloat.unpack_packedNaN]
    unfold UnpackedFloat.unpack
    dsimp only
    rw [if_pos hexponent, if_neg hmantissa]
  case isFalse => rfl

private theorem toNat_unpackSign (b : BitVec 64) :
    (@UnpackedFloat.unpackSign Format.binary64 b).toNat = b.toNat / 2 ^ 63 % 2 := by
  simp [UnpackedFloat.unpackSign, BitVec.extractLsb_toNat, Nat.shiftRight_eq_div_pow,
    Format.binary64]

/-- Bits whose highest one is zero stand for nothing negative. -/
theorem upward_unpack {b : BitVec 64} (h : b.toNat < 2 ^ 63) :
    Upward (UnpackedFloat.unpack Format.binary64 b) := by
  have hsign : @UnpackedFloat.unpackSign Format.binary64 b = 0#1 := by
    refine BitVec.eq_of_toNat_eq ?_
    rw [toNat_unpackSign, Nat.div_eq_of_lt h]
    rfl
  unfold UnpackedFloat.unpack
  dsimp only
  rw [hsign]
  split_ifs <;> trivial

/-- Bits whose highest one is set stand for nothing positive. -/
theorem unpack_of_high {b : BitVec 64} (h : 2 ^ 63 ≤ b.toNat) :
    UnpackedFloat.unpack Format.binary64 b ≠ .infinity .positive ∧
      ∀ m e hm, UnpackedFloat.unpack Format.binary64 b ≠ .finite .positive m e hm := by
  have hsign : @UnpackedFloat.unpackSign Format.binary64 b = 1#1 := by
    refine BitVec.eq_of_toNat_eq ?_
    have hlt := b.isLt
    rw [toNat_unpackSign, show b.toNat / 2 ^ 63 = 1 by omega]
    rfl
  unfold UnpackedFloat.unpack
  dsimp only
  rw [hsign]
  constructor
  · split_ifs <;> nofun
  · intro m e hm
    split_ifs <;> nofun

/-- Bits that stand for zero have neither an exponent nor a fraction. -/
theorem bits_of_unpack_zero {b : BitVec 64} {s : Sign}
    (h : UnpackedFloat.unpack Format.binary64 b = .zero s) :
    b.toNat / 2 ^ 52 % 2 ^ 11 = 0 ∧ b.toNat % 2 ^ 52 = 0 := by
  unfold UnpackedFloat.unpack at h
  dsimp only at h
  split at h
  · split at h <;> cases h
  · split at h
    case isTrue hexponent =>
      split at h
      case isTrue hmantissa =>
        rw [← toNat_unpackExponent, ← toNat_unpackMantissa, hexponent, hmantissa]
        exact ⟨rfl, rfl⟩
      case isFalse => cases h
    case isFalse => cases h

/-- The double nearest to a quotient that is not negative is not negative. -/
theorem zero_le_nearestFloat (num den : Nat) :
    magnitudes.le magnitudes.zero (Decimal.nearestFloat false num den) = true := by
  by_cases h : num = 0 ∨ den = 0
  · unfold Decimal.nearestFloat
    rw [if_pos h]
    exact zero_le_of_upward (upward_unpacked_ofNat 0) nofun
  · have hden : den ≠ 0 := fun h' => h (.inr h')
    have hbits := Decimal.packedBits_le (Decimal.lastExponent num den)
      (Decimal.roundDiv_scaled_le num hden)
    rw [Decimal.nearestFloat_eq h]
    generalize Decimal.packedBits _ _ = n at hbits
    have hn : (UInt64.ofNat n).toBitVec.toNat = n := by
      rw [UInt64.toNat_toBitVec, UInt64.toNat_ofNat', Nat.mod_eq_of_lt]
      exact hbits.trans_lt (by decide)
    refine zero_le_of_upward ?_ ?_
    · rw [unpacked_ofBits]
      refine upward_unpack ?_
      rw [hn]
      exact hbits.trans_lt (by decide)
    · rw [unpacked_ofBits, ne_eq, unpack_eq_notANumber, hn]
      rintro ⟨hexponent, hmantissa⟩
      change n ≤ 2047 * 2 ^ 52 at hbits
      omega

open Decimal in
/-- Whole numbers that are not negative stay so as doubles. -/
theorem zero_le_floatOfInt {n : Int} (h : 0 ≤ n) :
    magnitudes.le magnitudes.zero (floatOfInt n) = true := by
  unfold floatOfInt
  rw [decide_eq_false (not_lt.mpr h)]
  exact zero_le_nearestFloat _ _

namespace Precision

/-- The number nearest to one that is not negative is at least zero. -/
theorem zero_le_nearest (p : Precision) (m : Nat) (e : Int) :
    magnitudes.le magnitudes.zero (p.nearest false m e) = true := by
  unfold nearest
  dsimp only
  split
  · rfl
  · unfold assemble
    split
    · exact zero_le_nearestFloat _ _
    · exact zero_le_nearestFloat _ _

end Precision

/-- The sign of a double is its highest bit. -/
private theorem bits_lt {x : Float}
    (h : Decimal.Binary.ofFloat x = .infinite false ∨
      ∃ m e, Decimal.Binary.ofFloat x = .finite false m e) : x.toBits.toNat < 2 ^ 63 := by
  have hsign (negative : Bool) (hnegative : negative = decide (Nat.pow 2 63 ≤ x.toBits.toNat))
      (hfalse : negative = false) : x.toBits.toNat < 2 ^ 63 := by
    rw [hfalse] at hnegative
    exact Nat.not_le.mp (of_decide_eq_false hnegative.symm)
  unfold Decimal.Binary.ofFloat at h
  dsimp only at h
  split at h
  · split at h
    · rcases h with h | ⟨m, e, h⟩
      · exact hsign _ rfl (Decimal.Binary.infinite.inj h)
      · cases h
    · rcases h with h | ⟨m, e, h⟩ <;> cases h
  · split at h
    · rcases h with h | ⟨m, e, h⟩
      · cases h
      · exact hsign _ rfl (Decimal.Binary.finite.inj h).1
    · rcases h with h | ⟨m, e, h⟩
      · cases h
      · exact hsign _ rfl (Decimal.Binary.finite.inj h).1

/-- A positive double is infinite or finite, and its sign is not negative. -/
theorem ofFloat_of_pos {x : Float} (h : magnitudes.compareInt x 0 = some .gt) :
    Decimal.Binary.ofFloat x = .infinite false ∨
      ∃ m e, Decimal.Binary.ofFloat x = .finite false m e := by
  change (Decimal.Binary.ofFloat x).compareInt 0 = some .gt at h
  cases hx : Decimal.Binary.ofFloat x with
  | undefined =>
    rw [hx] at h
    cases h
  | infinite negative =>
    cases negative with
    | true =>
      rw [hx] at h
      cases h
    | false => exact .inl rfl
  | finite negative m e =>
    cases negative with
    | false => exact .inr ⟨m, e, rfl⟩
    | true =>
      obtain ⟨num, den, -, hfraction⟩ := Decimal.Binary.exists_fraction true m e
      rw [hx, Decimal.Binary.compareInt, hfraction] at h
      have hcompare : compare (-(num : Int)) (0 * den) = .gt := Option.some.inj h
      rw [Int.zero_mul, Int.compare_eq_gt] at hcompare
      omega

/-- A positive double is not negative. -/
theorem zero_le_of_pos {x : Float} (h : magnitudes.compareInt x 0 = some .gt) :
    magnitudes.le magnitudes.zero x = true := by
  refine zero_le_of_upward (upward_unpack (bits_lt (ofFloat_of_pos h))) fun hx => ?_
  have hrank : ¬magnitudes.Defined x := by
    rw [defined_iff_rank]
    rintro ⟨a, ha⟩
    change rank (unpacked x) = some a at ha
    rw [hx] at ha
    cases ha
  refine hrank fun hnature => ?_
  change nature x = .undefined at hnature
  rcases ofFloat_of_pos h with h | ⟨m, e, h⟩
  · unfold nature at hnature
    rw [h] at hnature
    cases hnature
  · unfold nature at hnature
    rw [h] at hnature
    dsimp only at hnature
    split at hnature <;> cases hnature

/-- A double that is not negative has no negative sign, unless it is zero. -/
theorem negative_eq_false {x : Float} (h : magnitudes.le magnitudes.zero x = true)
    {negative : Bool} {m : Nat} {e : Int}
    (hx : Decimal.Binary.ofFloat x = .finite negative (m + 1) e) : negative = false := by
  by_contra hnegative
  obtain rfl : negative = true := by simpa using hnegative
  have hhigh : 2 ^ 63 ≤ x.toBits.toNat := by
    by_contra hlow
    have hsign : decide (Nat.pow 2 63 ≤ x.toBits.toNat) = false := decide_eq_false hlow
    unfold Decimal.Binary.ofFloat at hx
    dsimp only at hx
    rw [hsign] at hx
    split at hx
    · split at hx <;> cases hx
    · split at hx <;> cases hx
  obtain ⟨hinfinite, hfinite⟩ := unpack_of_high (b := x.toBits.toBitVec) hhigh
  rcases unpacked_of_zero_le h with ⟨s, hzero⟩ | h | ⟨m', e', hm', h⟩
  · obtain ⟨hexponent, hfraction⟩ := bits_of_unpack_zero (b := x.toBits.toBitVec) hzero
    change x.toBits.toNat / Nat.pow 2 52 % Nat.pow 2 11 = 0 at hexponent
    change x.toBits.toNat % Nat.pow 2 52 = 0 at hfraction
    unfold Decimal.Binary.ofFloat at hx
    dsimp only at hx
    rw [if_neg (by rw [hexponent]; decide), if_pos hexponent, hfraction] at hx
    exact absurd (Decimal.Binary.finite.inj hx).2.1 (Nat.succ_ne_zero m).symm
  · exact hinfinite h
  · exact hfinite m' e' hm' h

/-- A double that is not negative is not negative in any precision. -/
theorem Precision.zero_le_round (p : Precision) {x : Float}
    (h : magnitudes.le magnitudes.zero x = true) :
    magnitudes.le magnitudes.zero (p.round x) = true := by
  unfold round
  split
  case h_1 => exact h
  case h_2 =>
    cases hx : Decimal.Binary.ofFloat x with
    | undefined => exact h
    | infinite negative => exact h
    | finite negative m e =>
      cases m with
      | zero => exact h
      | succ m =>
        obtain rfl := negative_eq_false h hx
        exact p.zero_le_nearest _ _

end Machine

end QuasiNewton
