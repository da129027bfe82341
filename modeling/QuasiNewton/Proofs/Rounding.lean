import QuasiNewton.Proofs.Infinities

/-!
# Rounded products and differences

A finite double less itself is zero. A product of a double that is not negative with a factor of at
least one is not below it, since rounding to nearest does not fall below a double that the exact
value has reached.
-/

namespace QuasiNewton.Machine

open Float.Model
open Float.Model.UnpackedFloat (Sign ExtendedMantissa)

/-! ## Differences -/

/-- A finite double less itself is zero. -/
theorem sub_self_of_isFinite {x : Float} (h : x.isFinite = true) : x - x = 0 := by
  refine eq_of_unpacked ?_
  change repacked (.sub Format.binary64 (unpacked x) (unpacked x)) = unpacked 0
  change (unpacked x).isFinite = true at h
  cases hx : unpacked x with
  | notANumber => rw [hx] at h; cases h
  | infinity s => rw [hx] at h; cases h
  | zero s => cases s <;> rfl
  | finite s m e hm =>
    have hzero (a : Int) (e : Int) : UnpackedFloat.normalize Format.binary64 (a - a) e .positive =
        .zero .positive := by
      rw [Int.sub_self]
      rfl
    change repacked (.normalize Format.binary64 _ _ .positive) = _
    rw [hzero]
    rfl

/-! ## Packing -/

section Packing

variable {spec : Format} {s : Sign} {m : Nat} {e : Int} {hm : 0 < m}

private theorem ofNat_exponent (spec : Format) {n : Nat} (hpos : 0 < n)
    (hlt : n + 1 < 2 ^ spec.exponentBits) :
    BitVec.ofNat spec.exponentBits n ≠ -1#_ ∧ BitVec.ofNat spec.exponentBits n ≠ 0#_ := by
  have hmod : n % 2 ^ spec.exponentBits = n := Nat.mod_eq_of_lt (by omega)
  constructor
  · intro h
    have hnat := congrArg BitVec.toNat h
    rw [BitVec.toNat_ofNat, hmod, BitVec.neg_one_eq_allOnes, BitVec.toNat_allOnes] at hnat
    omega
  · intro h
    have hnat := congrArg BitVec.toNat h
    rw [BitVec.toNat_ofNat, hmod, BitVec.toNat_ofNat, Nat.zero_mod] at hnat
    omega

/-- A mantissa of full length is put together again from its leading bit and the others. -/
private theorem toNat_leading {n : Nat} (hm : m ≠ 0) (h : m.log2 = n) :
    (1#1 ++ BitVec.ofNat n m).toNat = m := by
  obtain ⟨hle, hlt⟩ := (Nat.log2_eq_iff hm).mp h
  have hmod : m % 2 ^ n = m - 2 ^ n := by
    rw [Nat.pow_succ] at hlt
    rw [Nat.mod_eq_sub_mod hle, Nat.mod_eq_of_lt (by omega)]
  rw [BitVec.toNat_append, ← Nat.shiftLeft_add_eq_or_of_lt (BitVec.isLt _), BitVec.toNat_ofNat,
    BitVec.toNat_ofNat, Nat.shiftLeft_eq, hmod]
  change 1 * 2 ^ n + (m - 2 ^ n) = m
  omega

/-- Numbers of full precision whose exponent is in range are kept. -/
theorem unpack_pack_normal (hmantissa : m.log2 + 1 = spec.mantissaBits)
    (hlow : 0 < e + spec.exponentBias + spec.mantissaBitsWithoutImplicit)
    (hhigh : e + spec.exponentBias + spec.mantissaBitsWithoutImplicit + 1 <
      (2 ^ spec.exponentBits : Nat)) :
    UnpackedFloat.unpack spec (UnpackedFloat.pack spec (.finite s m e hm)) = .finite s m e hm := by
  obtain ⟨n, hn⟩ := Int.eq_ofNat_of_zero_le hlow.le
  have hmod : n % 2 ^ spec.exponentBits = n := Nat.mod_eq_of_lt (by omega)
  have hbits : spec.mantissaBits = 1 + spec.mantissaBitsWithoutImplicit := rfl
  obtain ⟨hone, hzero⟩ := ofNat_exponent spec (show 0 < n by omega) (by omega)
  unfold UnpackedFloat.pack
  simp only [hn, Int.toNat_natCast, hmantissa, if_true]
  rw [if_neg (by omega)]
  simp only [UnpackedFloat.unpack, UnpackedFloat.unpackExponent_packComponents,
    UnpackedFloat.unpackMantissa_packComponents, UnpackedFloat.unpackSign_packComponents,
    UnpackedFloat.Sign.ofBitVec_toBitVec, if_neg hone, if_neg hzero,
    toNat_leading hm.ne' (show m.log2 = spec.mantissaBitsWithoutImplicit by omega),
    BitVec.toNat_ofNat, hmod]
  rw [UnpackedFloat.finite.injEq]
  exact ⟨rfl, rfl, by omega⟩

/-- Numbers of less than full precision with the least exponent are kept. -/
theorem unpack_pack_subnormal (hmantissa : m.log2 + 1 < spec.mantissaBits)
    (he : e + spec.exponentBias + spec.mantissaBitsWithoutImplicit = 1)
    (hspec : 2 ≤ spec.exponentBits) :
    UnpackedFloat.unpack spec (UnpackedFloat.pack spec (.finite s m e hm)) = .finite s m e hm := by
  have hpow : 2 ^ 2 ≤ 2 ^ spec.exponentBits := Nat.pow_le_pow_right (by decide) hspec
  have hbits : spec.mantissaBits = 1 + spec.mantissaBitsWithoutImplicit := rfl
  have hmod : m % 2 ^ spec.mantissaBitsWithoutImplicit = m :=
    Nat.mod_eq_of_lt ((Nat.log2_lt hm.ne').mp (by omega))
  have hone : BitVec.ofNat spec.exponentBits 0 ≠ -1#_ := by
    intro h
    have hnat := congrArg BitVec.toNat h
    rw [BitVec.neg_one_eq_allOnes, BitVec.toNat_allOnes, BitVec.toNat_ofNat, Nat.zero_mod] at hnat
    omega
  have hzero : BitVec.ofNat spec.mantissaBitsWithoutImplicit m ≠ 0#_ := by
    intro h
    have hnat := congrArg BitVec.toNat h
    rw [BitVec.toNat_ofNat, hmod, BitVec.toNat_ofNat, Nat.zero_mod] at hnat
    omega
  unfold UnpackedFloat.pack
  simp only [he]
  rw [if_neg (by omega), if_neg hmantissa.ne]
  simp only [UnpackedFloat.unpack, UnpackedFloat.unpackExponent_packComponents,
    UnpackedFloat.unpackMantissa_packComponents, UnpackedFloat.unpackSign_packComponents,
    UnpackedFloat.Sign.ofBitVec_toBitVec, if_neg hone, if_true, dif_neg hzero, BitVec.toNat_ofNat,
    hmod, Nat.zero_mod]
  rw [UnpackedFloat.finite.injEq]
  exact ⟨rfl, rfl, by omega⟩

/-- Numbers whose exponent is out of range become infinite. -/
theorem unpack_pack_overflow (hhigh : (2 ^ spec.exponentBits : Nat) ≤
      e + spec.exponentBias + spec.mantissaBitsWithoutImplicit + 1) :
    UnpackedFloat.unpack spec (UnpackedFloat.pack spec (.finite s m e hm)) = .infinity s := by
  have hpos := Nat.one_le_two_pow (n := spec.exponentBits)
  unfold UnpackedFloat.pack
  dsimp only
  rw [if_pos (by omega)]
  simp [UnpackedFloat.unpack, UnpackedFloat.packedInfinity]

end Packing

/-! ## Canonical doubles -/

/-- A mantissa and an exponent as finite doubles have them: a mantissa of 53 bits, or of fewer at
the least exponent. -/
structure Canonical (m : Nat) (e : Int) : Prop where
  mantissa : m < 2 ^ 53
  exponent : -1074 ≤ e
  full : 2 ^ 52 ≤ m ∨ e = -1074

private theorem toNat_unpackMantissa_lt (b : BitVec 64) :
    (@UnpackedFloat.unpackMantissa Format.binary64 b).toNat < 2 ^ 52 :=
  (@UnpackedFloat.unpackMantissa Format.binary64 b).isLt

private theorem exponent_offset : ((Format.binary64.exponentBias : Int) +
    (Format.binary64.mantissaBitsWithoutImplicit : Nat)) = 1075 := by decide

/-- What a double stands for is canonical. -/
theorem canonical_of_unpack {b : BitVec 64} {s : Sign} {m : Nat} {e : Int} {h : 0 < m}
    (hb : UnpackedFloat.unpack Format.binary64 b = .finite s m e h) : Canonical m e := by
  have hmantissa := toNat_unpackMantissa_lt b
  unfold UnpackedFloat.unpack at hb
  dsimp only at hb
  rw [exponent_offset] at hb
  split at hb
  · split at hb <;> cases hb
  · split at hb
    · rename_i hzero
      split at hb
      · cases hb
      · cases hb
        rw [hzero]
        exact ⟨hmantissa.trans (by decide), by decide, .inr (by decide)⟩
    · rename_i hnormal
      have hpos : (@UnpackedFloat.unpackExponent Format.binary64 b).toNat ≠ 0 := fun h =>
        hnormal (BitVec.eq_of_toNat_eq h)
      have hleading : (1#1 ++ @UnpackedFloat.unpackMantissa Format.binary64 b).toNat =
          2 ^ 52 + (@UnpackedFloat.unpackMantissa Format.binary64 b).toNat := by
        rw [BitVec.toNat_append, ← Nat.shiftLeft_add_eq_or_of_lt hmantissa]
        rfl
      cases hb
      rw [hleading]
      exact ⟨by omega, by omega, .inl (Nat.le_add_right _ _)⟩

/-- A canonical number is kept, or its exponent is out of range and it becomes infinite. -/
theorem repacked_finite {s : Sign} {m : Nat} {e : Int} (hm : 0 < m) (h : Canonical m e) :
    repacked (.finite s m e hm) = .finite s m e hm ∨ repacked (.finite s m e hm) = .infinity s := by
  change UnpackedFloat.unpack Format.binary64 (UnpackedFloat.pack Format.binary64 _) = _ ∨
    UnpackedFloat.unpack Format.binary64 (UnpackedFloat.pack Format.binary64 _) = _
  have hbias : (Format.binary64.exponentBias : Int) = 1023 := by decide
  have hbits : Format.binary64.mantissaBits = 53 := by decide
  have hlow := h.exponent
  by_cases hhigh : e ≤ 971
  · refine .inl ?_
    by_cases hfull : 2 ^ 52 ≤ m
    · have hlog : m.log2 = 52 := (Nat.log2_eq_iff hm.ne').mpr ⟨hfull, h.mantissa⟩
      refine unpack_pack_normal ?_ ?_ ?_
      · rw [hlog, hbits]
      · rw [hbias]
        change 0 < e + 1023 + 52
        omega
      · rw [hbias]
        change e + 1023 + 52 + 1 < (2048 : Int)
        omega
    · have hlog : m.log2 < 52 := (Nat.log2_lt hm.ne').mpr (Nat.not_le.mp hfull)
      refine unpack_pack_subnormal ?_ ?_ (by decide)
      · rw [hbits]
        omega
      · rw [hbias, h.full.resolve_left hfull]
        rfl
  · refine .inr (unpack_pack_overflow ?_)
    rw [hbias]
    change (2048 : Int) ≤ e + 1023 + 52 + 1
    omega

/-! ## Rounding -/

/-- A mantissa that is shifted is divided by a power of two. -/
theorem mantissa_shiftRight (em : ExtendedMantissa) (k : Nat) :
    (em >>> k).mantissa = em.mantissa / 2 ^ k := by
  induction k generalizing em with
  | zero => exact (Nat.div_one em.mantissa).symm
  | succ k ih =>
    change (em >>> k).mantissa / 2 = _
    rw [ih, Nat.div_div_eq_div_mul, Nat.pow_succ]

/-- Rounding goes to the mantissa or to the next one. -/
theorem le_roundedMantissa (em : ExtendedMantissa) :
    em.mantissa ≤ em.roundedMantissa ∧ em.roundedMantissa ≤ em.mantissa + 1 := by
  rcases em with ⟨m, r, s⟩
  cases r <;> cases s <;>
    simp [ExtendedMantissa.roundedMantissa, ExtendedMantissa.accuracy,
      UnpackedFloat.Accuracy.roundToNearestEven]
  omega

private theorem targetExponent_eq (m : Nat) (e : Int) :
    Format.binary64.targetExponent (totalExponent m e) = max (m.log2 + e - 52) (-1074) := by
  have hbits : Format.binary64.mantissaBits = 53 := by decide
  have hleast : Format.binary64.minExponent = -1074 := by decide
  rw [Format.targetExponent, totalExponent, hbits, hleast]
  congr 1
  omega

/-- A mantissa of 53 bits is not shifted again. -/
private theorem shiftToTargetExponent_of_lt {m : Nat} {e : Int} (hm : m < 2 ^ 53)
    (he : -1074 ≤ e) :
    UnpackedFloat.shiftToTargetExponent Format.binary64 m e .exact = (⟨m, false, false⟩, e) := by
  have hlog : m.log2 ≤ 52 := by
    by_cases h : m = 0
    · rw [h]
      decide
    · exact Nat.le_of_lt_succ ((Nat.log2_lt h).mpr hm)
  have hshift : (max (m.log2 + e - 52) (-1074) - e).toNat = 0 := by omega
  unfold UnpackedFloat.shiftToTargetExponent UnpackedFloat.shiftToExponent
  dsimp only
  rw [targetExponent_eq, hshift]
  exact Prod.ext rfl (Int.add_zero e)

/-- A mantissa that rounding has made one bit too long is shifted once more. -/
private theorem shiftToTargetExponent_overflow {e : Int} (he : -1074 ≤ e) :
    UnpackedFloat.shiftToTargetExponent Format.binary64 (2 ^ 53) e .exact =
      (⟨2 ^ 52, false, false⟩, e + 1) := by
  have hshift : (max (((2 ^ 53 : Nat).log2 : Int) + e - 52) (-1074) - e).toNat = 1 := by
    rw [Nat.log2_two_pow]
    omega
  unfold UnpackedFloat.shiftToTargetExponent UnpackedFloat.shiftToExponent
  dsimp only
  rw [targetExponent_eq, hshift]
  rfl

/-- A number rounded to the exponent that is due to it: the mantissa is the quotient or the next
one, and if it has become one bit too long the exponent is one higher. -/
theorem roundWithAccuracy_exact (s : Sign) {m : Nat} {e t : Int}
    (ht : t = max (m.log2 + e - 52) (-1074)) (he : e ≤ t) :
    ∃ r, m / 2 ^ (t - e).toNat ≤ r ∧
      ((r < 2 ^ 53 ∧ ∀ hr : 0 < r,
        UnpackedFloat.roundWithAccuracy Format.binary64 s m e .exact = .finite s r t hr) ∨
      UnpackedFloat.roundWithAccuracy Format.binary64 s m e .exact =
        .finite s (2 ^ 52) (t + 1) (by decide)) := by
  let em : ExtendedMantissa := (⟨m, false, false⟩ : ExtendedMantissa) >>> (t - e).toNat
  have hfirst : UnpackedFloat.shiftToTargetExponent Format.binary64 m e .exact = (em, t) := by
    unfold UnpackedFloat.shiftToTargetExponent UnpackedFloat.shiftToExponent
    dsimp only
    rw [targetExponent_eq, ← ht]
    exact Prod.ext rfl (by omega)
  have hmantissa : em.mantissa = m / 2 ^ (t - e).toNat := mantissa_shiftRight _ _
  obtain ⟨hle, hge⟩ := le_roundedMantissa em
  have hquotient : em.mantissa < 2 ^ 53 := by
    rw [hmantissa, Nat.div_lt_iff_lt_mul (by positivity), ← Nat.pow_add]
    exact Nat.lt_log2_self.trans_le (Nat.pow_le_pow_right (by decide) (by omega))
  have hleast : -1074 ≤ t := by omega
  refine ⟨em.roundedMantissa, hmantissa ▸ hle, ?_⟩
  unfold UnpackedFloat.roundWithAccuracy
  rw [hfirst]
  dsimp only
  by_cases hlong : em.roundedMantissa < 2 ^ 53
  · refine .inl ⟨hlong, fun hr => ?_⟩
    rw [shiftToTargetExponent_of_lt hlong hleast]
    exact dif_neg hr.ne'
  · refine .inr ?_
    rw [show em.roundedMantissa = 2 ^ 53 by omega, shiftToTargetExponent_overflow hleast]
    exact dif_neg (show ¬(2 ^ 52 = 0) by decide)

/-- A rounded number is canonical, and not below any canonical number that the exact one has
reached. -/
theorem le_roundWithAccuracy (s : Sign) {m m₀ : Nat} {e e₀ t : Int} (hm₀ : 0 < m₀)
    (h₀ : Canonical m₀ e₀) (ht : t = max (m.log2 + e - 52) (-1074)) (he : e ≤ t)
    (hreached : m₀ * 2 ^ (e₀ - e).toNat ≤ m * 2 ^ (e - e₀).toNat) :
    ∃ m' e', ∃ hm' : 0 < m', UnpackedFloat.roundWithAccuracy Format.binary64 s m e .exact =
        .finite s m' e' hm' ∧ Canonical m' e' ∧ (e₀ < e' ∨ e₀ = e' ∧ m₀ ≤ m') := by
  have hm : m ≠ 0 := by
    rintro rfl
    rw [Nat.zero_mul] at hreached
    exact absurd hreached (Nat.mul_pos hm₀ (Nat.two_pow_pos _)).not_ge
  obtain ⟨r, hr, hround⟩ := roundWithAccuracy_exact s ht he
  -- A canonical number with a higher exponent is beyond every number with the leading bit of `m`.
  have hexponent : e₀ ≤ t := by
    by_contra hlt
    have hfull : 2 ^ 52 ≤ m₀ := h₀.full.resolve_right (by omega)
    have hbits : 2 ^ 52 * 2 ^ (e₀ - e).toNat < 2 ^ (m.log2 + 1) := by
      calc 2 ^ 52 * 2 ^ (e₀ - e).toNat ≤ m₀ * 2 ^ (e₀ - e).toNat := Nat.mul_le_mul_right _ hfull
        _ ≤ m * 2 ^ (e - e₀).toNat := hreached
        _ = m := by rw [show (e - e₀).toNat = 0 by omega, Nat.pow_zero, Nat.mul_one]
        _ < 2 ^ (m.log2 + 1) := Nat.lt_log2_self
    rw [← Nat.pow_add, Nat.pow_lt_pow_iff_right (by decide)] at hbits
    omega
  have hreached' : e₀ = t → m₀ ≤ r := by
    rintro rfl
    refine le_trans ?_ hr
    rw [Nat.le_div_iff_mul_le (by positivity)]
    rwa [show (e - e₀).toNat = 0 by omega, Nat.pow_zero, Nat.mul_one] at hreached
  rcases hround with ⟨hlt, hround⟩ | hround
  · have hfull : 2 ^ 52 ≤ r ∨ t = -1074 := by
      by_cases hleast : t = -1074
      · exact .inr hleast
      · refine .inl (le_trans ?_ hr)
        rw [Nat.le_div_iff_mul_le (by positivity), ← Nat.pow_add]
        calc 2 ^ (52 + (t - e).toNat) = 2 ^ m.log2 := by
              congr 1
              omega
          _ ≤ m := Nat.log2_self_le hm
    have hpos : 0 < r := by
      rcases hexponent.lt_or_eq with h | h
      · have hlow := h₀.exponent
        have := hfull.resolve_right (by omega)
        omega
      · exact hm₀.trans_le (hreached' h)
    refine ⟨r, t, hpos, hround hpos, ⟨hlt, by omega, hfull⟩, ?_⟩
    exact hexponent.lt_or_eq.imp_right fun h => ⟨h, hreached' h⟩
  · exact ⟨2 ^ 52, t + 1, by decide, hround, ⟨by decide, by omega, .inl le_rfl⟩, .inl (by omega)⟩

/-! ## Products -/

private theorem rank_one : rank (unpacked 1) = some (toLex (1, toLex (-52, 2 ^ 52))) := by rfl

/-- A double of at least one is infinite, or has a mantissa of 53 bits and an exponent to match. -/
theorem unpacked_of_one_le {x : Float} (h : magnitudes.le magnitudes.one x = true) :
    unpacked x = .infinity .positive ∨
      ∃ m e, ∃ hm : 0 < m, unpacked x = .finite .positive m e hm ∧ 2 ^ 52 ≤ m ∧ -52 ≤ e := by
  obtain ⟨a, b, ha, hb, hab⟩ := le_iff_rank.mp h
  obtain rfl := Option.some.inj (rank_one.symm.trans ha)
  change rank (unpacked x) = some b at hb
  cases hx : unpacked x with
  | notANumber => rw [hx] at hb; cases hb
  | zero s =>
    rw [hx] at hb
    obtain rfl := Option.some.inj hb
    exact absurd hab (by decide)
  | infinity s =>
    cases s with
    | positive => exact .inl rfl
    | negative =>
      rw [hx] at hb
      obtain rfl := Option.some.inj hb
      exact absurd hab (by decide)
  | finite s m e hm =>
    rw [hx] at hb
    cases s with
    | positive =>
      obtain rfl := Option.some.inj hb
      have hcanonical :=
        canonical_of_unpack (show UnpackedFloat.unpack Format.binary64 _ = _ from hx)
      refine .inr ⟨m, e, hm, rfl, ?_⟩
      rw [Prod.Lex.toLex_le_toLex, Prod.Lex.toLex_le_toLex] at hab
      have hfull := hcanonical.full
      omega
    | negative =>
      obtain rfl := Option.some.inj hb
      rw [Prod.Lex.toLex_le_toLex] at hab
      omega

/-- A double that is not negative is zero, infinite, or finite with a positive sign. -/
theorem unpacked_of_zero_le {x : Float} (h : magnitudes.le magnitudes.zero x = true) :
    (∃ s, unpacked x = .zero s) ∨ unpacked x = .infinity .positive ∨
      ∃ m e, ∃ hm : 0 < m, unpacked x = .finite .positive m e hm := by
  obtain ⟨a, b, ha, hb, hab⟩ := le_iff_rank.mp h
  obtain rfl : toLex (0, toLex (0, 0)) = a := Option.some.inj ha
  change rank (unpacked x) = some b at hb
  cases hx : unpacked x with
  | notANumber => rw [hx] at hb; cases hb
  | zero s => exact .inl ⟨s, rfl⟩
  | infinity s =>
    cases s with
    | positive => exact .inr (.inl rfl)
    | negative =>
      rw [hx] at hb
      obtain rfl := Option.some.inj hb
      exact absurd hab (by decide)
  | finite s m e hm =>
    rw [hx] at hb
    cases s with
    | positive => exact .inr (.inr ⟨m, e, hm, rfl⟩)
    | negative =>
      obtain rfl := Option.some.inj hb
      rw [Prod.Lex.toLex_le_toLex] at hab
      omega

section Signs

variable {spec : Format} {n m : Nat} {d e : Int}

private theorem mul_finite (hn : 0 < n) (hm : 0 < m) :
    UnpackedFloat.mul spec (.finite .positive n d hn) (.finite .positive m e hm) =
      .roundWithAccuracy spec .positive (n * m) (d + e) .exact := rfl

private theorem mul_finite_zero (hn : 0 < n) (s : Sign) :
    UnpackedFloat.mul spec (.finite .positive n d hn) (.zero s) = .zero s := by cases s <;> rfl

private theorem mul_finite_infinity (hn : 0 < n) :
    UnpackedFloat.mul spec (.finite .positive n d hn) (.infinity .positive) =
      .infinity .positive := rfl

private theorem mul_infinity_zero (s : Sign) :
    UnpackedFloat.mul spec (.infinity .positive) (.zero s) = .notANumber := rfl

private theorem mul_infinity_finite (hm : 0 < m) :
    UnpackedFloat.mul spec (.infinity .positive) (.finite .positive m e hm) =
      .infinity .positive := rfl

private theorem mul_infinity_infinity :
    UnpackedFloat.mul spec (.infinity .positive) (.infinity .positive) = .infinity .positive := rfl

private theorem repacked_zero (s : Sign) : repacked (.zero s) = .zero s := by cases s <;> rfl

end Signs

/-- A product of finite doubles, one of them at least one, is infinite or not below the other. -/
theorem le_repacked_mul {n m : Nat} {d e : Int} (hn : 0 < n) (hm : 0 < m) (hfull : 2 ^ 52 ≤ n)
    (hd : -52 ≤ d) (h : Canonical m e) {f : UnpackedFloat}
    (hf : f = repacked
      (.mul Format.binary64 (.finite .positive n d hn) (.finite .positive m e hm))) :
    f = .infinity .positive ∨ ∃ m' e', ∃ hm' : 0 < m', f = .finite .positive m' e' hm' ∧
      (e < e' ∨ e = e' ∧ m ≤ m') := by
  have hlog : 52 + m.log2 ≤ (n * m).log2 := by
    refine (Nat.le_log2 (Nat.mul_pos hn hm).ne').mpr ?_
    rw [Nat.pow_add]
    exact Nat.mul_le_mul hfull (Nat.log2_self_le hm.ne')
  have hreached : m * 2 ^ (e - (d + e)).toNat ≤ n * m * 2 ^ (d + e - e).toNat := by
    calc m * 2 ^ (e - (d + e)).toNat ≤ m * 2 ^ 52 :=
          Nat.mul_le_mul_left _ (Nat.pow_le_pow_right (by decide) (by omega))
      _ ≤ m * n := Nat.mul_le_mul_left _ hfull
      _ = n * m := Nat.mul_comm _ _
      _ ≤ n * m * 2 ^ (d + e - e).toNat := Nat.le_mul_of_pos_right _ (Nat.two_pow_pos _)
  have hexponent := h.exponent
  obtain ⟨m', e', hm', hround, hcanonical, hle⟩ :=
    le_roundWithAccuracy .positive (m := n * m) (e := d + e) hm h rfl (by omega) hreached
  rw [mul_finite, hround] at hf
  subst hf
  rcases repacked_finite hm' hcanonical with hsame | hinfinite
  · exact .inr ⟨m', e', hm', hsame, hle⟩
  · exact .inl hinfinite

/-- A product with a factor of at least one is not below a double that is not negative. -/
theorem not_lt_mul {x y : Float} (hx : magnitudes.le magnitudes.one x = true)
    (hy : magnitudes.le magnitudes.zero y = true) : magnitudes.lt (x * y) y = false := by
  refine Bool.eq_false_iff.mpr fun hlt => ?_
  obtain ⟨a, b, ha, hb, hab⟩ := lt_iff_rank.mp hlt
  change rank (unpacked (x * y)) = some a at ha
  change rank (unpacked y) = some b at hb
  rw [unpacked_mul] at ha
  rcases unpacked_of_zero_le hy with ⟨s, hy⟩ | hy | ⟨m, e, hm, hy⟩
  · rcases unpacked_of_one_le hx with hx | ⟨n, d, hn, hx, -⟩
    · rw [hx, hy, mul_infinity_zero, repacked_notANumber] at ha
      cases ha
    · rw [hx, hy, mul_finite_zero, repacked_zero] at ha
      rw [hy] at hb
      obtain rfl := Option.some.inj ha
      obtain rfl := Option.some.inj hb
      exact lt_irrefl _ hab
  · have hinfinite : UnpackedFloat.mul Format.binary64 (unpacked x) (.infinity .positive) =
        .infinity .positive := by
      rcases unpacked_of_one_le hx with hx | ⟨n, d, hn, hx, -⟩
      · rw [hx, mul_infinity_infinity]
      · rw [hx, mul_finite_infinity]
    rw [hy, hinfinite, repacked_infinity] at ha
    rw [hy] at hb
    obtain rfl := Option.some.inj ha
    obtain rfl := Option.some.inj hb
    exact lt_irrefl _ hab
  · have hproduct : repacked (.mul Format.binary64 (unpacked x) (.finite .positive m e hm)) =
          .infinity .positive ∨
        ∃ m' e', ∃ hm' : 0 < m', repacked (.mul Format.binary64 (unpacked x)
          (.finite .positive m e hm)) = .finite .positive m' e' hm' ∧
            (e < e' ∨ e = e' ∧ m ≤ m') := by
      rcases unpacked_of_one_le hx with hx | ⟨n, d, hn, hx, hfull, hd⟩
      · rw [hx, mul_infinity_finite, repacked_infinity]
        exact .inl rfl
      · rw [hx]
        exact le_repacked_mul hn hm hfull hd
          (canonical_of_unpack (show UnpackedFloat.unpack Format.binary64 _ = _ from hy)) rfl
    rw [hy] at ha hb
    obtain rfl := Option.some.inj hb
    rcases hproduct with hproduct | ⟨m', e', hm', hproduct, hle⟩
    · rw [hproduct] at ha
      obtain rfl := Option.some.inj ha
      rw [Prod.Lex.toLex_lt_toLex] at hab
      omega
    · rw [hproduct] at ha
      obtain rfl := Option.some.inj ha
      rw [Prod.Lex.toLex_lt_toLex, Prod.Lex.toLex_lt_toLex] at hab
      omega

end QuasiNewton.Machine
