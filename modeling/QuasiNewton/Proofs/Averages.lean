import Mathlib.Algebra.BigOperators.Intervals
import Mathlib.Analysis.Real.Sqrt
import QuasiNewton.Proofs.Criteria
import QuasiNewton.Proofs.Readings
import QuasiNewton.Proofs.Renewal

/-!
# Averages

Over the real or complex numbers the standard norm is the root mean square, and what holds of every
component of a residual holds of its root mean square: where a criterion asks something of every
component, the criterion that asks it of the norm holds, too. Shapes may differ: an array that is
stretched repeats every element equally often.
-/

namespace QuasiNewton

namespace Shape

/-! ## Stretched arrays -/

/-- An array of extents `own` stretches to extents `target`, both listed fastest first. -/
def Stretches : List ℕ → List ℕ → Prop
  | _, [] => True
  | [], _ :: _ => False
  | extent :: target, own :: source => (own = extent ∨ own = 1) ∧ Stretches target source

/-- The same extents. -/
theorem stretches_self (s : List ℕ) : Stretches s s := by
  induction s with
  | nil => trivial
  | cons a s ih => exact ⟨.inl rfl, ih⟩

/-- Both arrays of a combination stretch to it, and it is not empty if they are not. -/
theorem stretches_of_broadcastFastest? {s t c : List ℕ} (h : broadcastFastest? s t = some c) :
    Stretches c s ∧ Stretches c t ∧ (s.prod ≠ 0 → t.prod ≠ 0 → c.prod ≠ 0) := by
  induction s, t using broadcastFastest?.induct generalizing c with
  | case1 t =>
    rw [broadcastFastest?] at h
    obtain rfl := Option.some.inj h
    exact ⟨by cases t <;> trivial, stretches_self t, fun _ ht => ht⟩
  | case2 s hs =>
    have hsome : broadcastFastest? s [] = some s := by
      cases s with
      | nil => rfl
      | cons a s => rfl
    obtain rfl := Option.some.inj (hsome.symm.trans h)
    exact ⟨stretches_self s, by cases s <;> trivial, fun hs _ => hs⟩
  | case3 a s t ih =>
    rw [broadcastFastest?, if_pos rfl] at h
    obtain ⟨c, hc, rfl⟩ := Option.map_eq_some_iff.mp h
    obtain ⟨hs, ht, hne⟩ := ih hc
    refine ⟨⟨.inl rfl, hs⟩, ⟨.inl rfl, ht⟩, fun h₁ h₂ => ?_⟩
    rw [List.prod_cons, mul_ne_zero_iff] at h₁ h₂ ⊢
    exact ⟨h₁.1, hne h₁.2 h₂.2⟩
  | case4 s b t hab ih =>
    rw [broadcastFastest?, if_neg hab, if_pos rfl] at h
    obtain ⟨c, hc, rfl⟩ := Option.map_eq_some_iff.mp h
    obtain ⟨hs, ht, hne⟩ := ih hc
    refine ⟨⟨.inr rfl, hs⟩, ⟨.inl rfl, ht⟩, fun h₁ h₂ => ?_⟩
    rw [List.prod_cons, mul_ne_zero_iff] at h₁ h₂ ⊢
    exact ⟨h₂.1, hne h₁.2 h₂.2⟩
  | case5 a s t hab ha ih =>
    rw [broadcastFastest?, if_neg hab, if_neg ha, if_pos rfl] at h
    obtain ⟨c, hc, rfl⟩ := Option.map_eq_some_iff.mp h
    obtain ⟨hs, ht, hne⟩ := ih hc
    refine ⟨⟨.inl rfl, hs⟩, ⟨.inr rfl, ht⟩, fun h₁ h₂ => ?_⟩
    rw [List.prod_cons, mul_ne_zero_iff] at h₁ h₂ ⊢
    exact ⟨h₁.1, hne h₁.2 h₂.2⟩
  | case6 a s b t hab ha hb =>
    rw [broadcastFastest?, if_neg hab, if_neg ha, if_neg hb] at h
    cases h

/-- A sum over a product of extents, extent by extent. -/
theorem sum_range_mul {M : Type*} [AddCommMonoid M] (f : ℕ → M) (m n : ℕ) :
    ∑ i ∈ Finset.range (m * n), f i =
      ∑ q ∈ Finset.range n, ∑ r ∈ Finset.range m, f (r + m * q) := by
  induction n with
  | zero => simp
  | succ n ih =>
    rw [Nat.mul_succ, Finset.sum_range_add, ih, Finset.sum_range_succ]
    exact congrArg _ (Finset.sum_congr rfl fun r _ => congrArg f (Nat.add_comm _ _))

/-- A stretched array repeats every element equally often. -/
theorem sum_sourceFastest {R : Type*} [CommSemiring R] {target own : List ℕ}
    (h : Stretches target own) (g : ℕ → R) :
    (own.prod : R) * ∑ i ∈ Finset.range target.prod, g (sourceFastest target own i) =
      target.prod * ∑ j ∈ Finset.range own.prod, g j := by
  induction own generalizing target g with
  | nil =>
    have hzero (i : ℕ) : sourceFastest target [] i = 0 := by cases target <;> rfl
    simp only [hzero, Finset.sum_const, Finset.card_range, List.prod_nil, Nat.cast_one, one_mul,
      Finset.sum_range_one, nsmul_eq_mul]
  | cons own source ih =>
    cases target with
    | nil => exact h.elim
    | cons extent target =>
      obtain ⟨hown, hrest⟩ := h
      simp only [List.prod_cons]
      rw [sum_range_mul, sum_range_mul]
      -- a position of the target is `r + extent * q` with `r` below the extent
      have hposition (q r : ℕ) (hr : r < extent) :
          sourceFastest (extent :: target) (own :: source) (r + extent * q) =
            (if own = 1 then 0 else r) + own * sourceFastest target source q := by
        rw [sourceFastest, Nat.add_mul_mod_self_left, Nat.mod_eq_of_lt hr,
          Nat.add_mul_div_left _ _ (Nat.zero_lt_of_lt hr), Nat.div_eq_of_lt hr, Nat.zero_add]
      rcases hown with rfl | rfl
      · have hblock (q : ℕ) : ∑ r ∈ Finset.range own,
            g (sourceFastest (own :: target) (own :: source) (r + own * q)) =
              ∑ r ∈ Finset.range own, g (r + own * sourceFastest target source q) := by
          refine Finset.sum_congr rfl fun r hr => ?_
          rw [hposition q r (Finset.mem_range.mp hr)]
          by_cases hone : own = 1
          · have hr := Finset.mem_range.mp hr
            rw [if_pos hone, show r = 0 by omega]
          · rw [if_neg hone]
        rw [Finset.sum_congr rfl fun q _ => hblock q, Nat.cast_mul, Nat.cast_mul, mul_assoc,
          ih hrest fun p => ∑ r ∈ Finset.range own, g (r + own * p), mul_assoc]
      · have hblock (q : ℕ) : ∑ r ∈ Finset.range extent,
            g (sourceFastest (extent :: target) (1 :: source) (r + extent * q)) =
              extent * g (sourceFastest target source q) := by
          rw [Finset.sum_congr rfl fun r hr => congrArg g (hposition q r (Finset.mem_range.mp hr))]
          simp only [↓reduceIte, Nat.zero_add, Nat.one_mul, Finset.sum_const, Finset.card_range,
            nsmul_eq_mul]
        rw [Finset.sum_congr rfl fun q _ => hblock q, ← Finset.mul_sum, Nat.cast_mul, Nat.cast_one,
          one_mul, mul_left_comm, ih hrest g, Nat.cast_mul, mul_assoc]
        simp only [Finset.sum_range_one, Nat.zero_add, Nat.one_mul]

/-- The size of an array is the product of its extents, fastest first. -/
theorem size_eq_prod (s : Shape) : s.size = s.reverse.prod := by
  rw [List.prod_reverse]
  rfl

/-- Both arrays of a combination stretch to it, and it is not empty if they are not. -/
theorem stretches_of_broadcast? {s t c : Shape} (h : broadcast? s t = some c) :
    Stretches c.reverse s.reverse ∧ Stretches c.reverse t.reverse ∧
      (s.size ≠ 0 → t.size ≠ 0 → c.size ≠ 0) := by
  obtain ⟨c', hc, rfl⟩ := Option.map_eq_some_iff.mp h
  simp only [size_eq_prod, List.reverse_reverse]
  exact stretches_of_broadcastFastest? hc

/-- An array that stretches to a shape repeats every element equally often. -/
theorem sum_source {R : Type*} [CommSemiring R] {target own : Shape}
    (h : Stretches target.reverse own.reverse) (g : ℕ → R) :
    (own.size : R) * ∑ i ∈ Finset.range target.size, g (source target own i) =
      target.size * ∑ j ∈ Finset.range own.size, g j := by
  by_cases hsame : own = target
  · subst hsame
    simp only [source_self]
  · simp only [source, if_neg hsame, size_eq_prod]
    exact sum_sourceFastest h g

end Shape

section

variable {𝕜 ρ : Type} [Field 𝕜] [StarRing 𝕜] [DecidableEq 𝕜] [Field ρ] [LinearOrder ρ]
  [FloorRing ρ] {S : Scalars 𝕜 ρ}

/-! ## Root mean squares -/

/-- The sum of the squared magnitudes. -/
def Tensor.squares (t : Tensor S.arithmetic) : ρ := ∑ i ∈ Finset.range t.size, S.normSq (t.entry i)

/-- Without rounding the standard norm is the root mean square. -/
theorem Norm.rms_eq (t : Tensor S.arithmetic) : Norm.rms t =
    .ok (if t.size = 0 then 0 else S.root t.squares / S.root t.size : ρ) := by
  have htotal : Tensor.sumBelow (A := S.arithmetic) () t.size
      (fun i => S.ofReal (S.normSq (t.entry i))) = S.ofReal t.squares := by
    rw [Tensor.sumBelow_eq_sum, Tensor.squares, map_sum, Finset.sum_range]
  have hroot : rootOfSquares t = S.root t.squares := by
    change S.re (S.ofReal (S.root (S.re (Tensor.sumBelow (A := S.arithmetic) () t.size
      fun i => S.ofReal (S.normSq ((t.castTo _).entry i)))))) = _
    rw [Tensor.castTo_eq, htotal, S.re_ofReal, S.re_ofReal]
  unfold rms
  rw [hroot]
  rfl

/-- Without rounding, tolerances that have passed the check are reals that are not negative. -/
theorem Tolerances.nonneg_of_areChecked {t : Tolerances S.arithmetic} (h : t.areChecked = true) :
    ∃ a b : ρ, 0 ≤ a ∧ 0 ≤ b ∧ t = ⟨.number (.real a), .number (.real b)⟩ := by
  have hnonneg (x : ρ) (hx : isNegative (A := S.arithmetic) x = false) : 0 ≤ x := by
    by_contra hneg
    have hcompare : compare x ((0 : ℤ) : ρ) = .lt :=
      compare_lt_iff_lt.mpr (by rwa [Int.cast_zero, ← not_le])
    have hnegative : isNegative (A := S.arithmetic) x = true := by
      change (some (compare x ((0 : ℤ) : ρ)) == some .lt) = true
      rw [hcompare]
      rfl
    exact nomatch hx.symm.trans hnegative
  obtain ⟨a, b, rfl⟩ := eq_of_areChecked h
  rw [areChecked_mk, Bool.not_eq_true', Bool.or_eq_false_iff] at h
  exact ⟨a, b, hnonneg a h.1, hnonneg b h.2, rfl⟩

/-- The magnitudes of all components are at most a real. -/
theorem Tensor.allWithin_real (v : Tensor S.arithmetic) (a : ρ) :
    v.allWithin (.real a) = .ok true ↔ ∀ i < v.size, S.root (S.normSq (v.entry i)) ≤ a := by
  have hentry (k : S.arithmetic.Kind) {i : ℕ} (hi : i < v.size) :
      S.re ((v.abs.castTo k).entry i) = S.root (S.normSq (v.entry i)) := by
    rw [castTo_eq, ← S.re_ofReal (S.root _)]
    exact congrArg S.re (elem_ofFn _ _ _ hi)
  rw [allWithin_eq_true_iff]
  constructor
  · rintro ⟨-, h⟩ i hi
    have hle := of_decide_eq_true (h i hi)
    exact ((hentry _ hi).symm.trans_le hle).trans_eq (S.re_ofReal a)
  · intro h
    refine ⟨nofun, fun i hi => decide_eq_true ?_⟩
    exact ((hentry _ hi).trans_le (h i hi)).trans_eq (S.re_ofReal a).symm

end

namespace Tensor

variable {𝕜 : Type} [Field 𝕜] [StarRing 𝕜] [DecidableEq 𝕜] {S : Scalars 𝕜 ℝ}
  {v w : Tensor S.arithmetic} {a b : ℝ}

/-- A bound of all magnitudes bounds the root mean square. -/
theorem average_le (ha : 0 ≤ a) (h : ∀ i < v.size, √(S.normSq (v.entry i)) ≤ a) :
    √v.squares / √(v.size : ℝ) ≤ a := by
  have hterm : ∀ i ∈ Finset.range v.size, S.normSq (v.entry i) ≤ a ^ 2 := fun i hi =>
    (Real.sqrt_le_left ha).mp (h i (Finset.mem_range.mp hi))
  have hsquares : v.squares ≤ v.size * a ^ 2 := by
    rw [← nsmul_eq_mul, ← Finset.card_range v.size]
    exact Finset.sum_le_card_nsmul _ _ _ hterm
  refine div_le_of_le_mul₀ (Real.sqrt_nonneg _) ha ((Real.sqrt_le_left ?_).mpr ?_)
  · positivity
  · rwa [mul_pow, Real.sq_sqrt (Nat.cast_nonneg _), mul_comm]

/-- The mean square of an array is that over a shape it stretches to. -/
theorem squares_div_size {c : Shape} (h : Shape.Stretches c.reverse v.shape.reverse)
    (hv : v.size ≠ 0) (hc : c.size ≠ 0) :
    v.squares / v.size =
      (∑ i ∈ Finset.range c.size, S.normSq (v.entry (Shape.source c v.shape i))) / c.size := by
  have hsum := Shape.sum_source h fun i => S.normSq (v.entry i)
  rw [div_eq_div_iff (Nat.cast_ne_zero.mpr hv) (Nat.cast_ne_zero.mpr hc), mul_comm,
    mul_comm _ (v.size : ℝ)]
  exact hsum.symm

/-- What bounds all magnitudes of one array by those of another bounds the root mean squares. -/
theorem average_le_mul {c : Shape} (hc : Shape.broadcast? v.shape w.shape = some c)
    (hv : v.size ≠ 0) (hw : w.size ≠ 0) (hb : 0 ≤ b)
    (h : ∀ i < c.size, √(S.normSq (v.entry (Shape.source c v.shape i))) ≤
      b * √(S.normSq (w.entry (Shape.source c w.shape i)))) :
    √v.squares / √(v.size : ℝ) ≤ b * (√w.squares / √(w.size : ℝ)) := by
  have hv' : (0 : ℝ) < v.size := Nat.cast_pos.mpr (Nat.pos_of_ne_zero hv)
  have hw' : (0 : ℝ) < w.size := Nat.cast_pos.mpr (Nat.pos_of_ne_zero hw)
  obtain ⟨hleft, hright, hne⟩ := Shape.stretches_of_broadcast? hc
  have hc' : (0 : ℝ) < c.size := Nat.cast_pos.mpr (Nat.pos_of_ne_zero (hne hv hw))
  have hterm : ∀ i ∈ Finset.range c.size, S.normSq (v.entry (Shape.source c v.shape i)) ≤
      b ^ 2 * S.normSq (w.entry (Shape.source c w.shape i)) := fun i hi => by
    have hle := (Real.sqrt_le_left (mul_nonneg hb (Real.sqrt_nonneg _))).mp
      (h i (Finset.mem_range.mp hi))
    rwa [mul_pow, Real.sq_sqrt (S.normSq_nonneg _)] at hle
  -- over the common shape the sums are multiples of those over the arrays
  have hsum : v.squares / v.size ≤ b ^ 2 * (w.squares / w.size) := by
    have hle := Finset.sum_le_sum hterm
    rw [← Finset.mul_sum] at hle
    rw [squares_div_size hleft hv (hne hv hw), squares_div_size hright hw (hne hv hw),
      ← mul_div_assoc]
    exact div_le_div_of_nonneg_right hle hc'.le
  have hw₂ : 0 ≤ w.squares := Finset.sum_nonneg fun i _ => S.normSq_nonneg _
  rw [← Real.sqrt_div' _ hv'.le, ← Real.sqrt_div' _ hw'.le,
    Real.sqrt_le_left (mul_nonneg hb (Real.sqrt_nonneg _)), mul_pow,
    Real.sq_sqrt (div_nonneg hw₂ hw'.le)]
  exact hsum

/-- Outside its shape a tensor reads zero. -/
theorem entry_of_size_le {𝕜 ρ : Type} [Field 𝕜] [StarRing 𝕜] [DecidableEq 𝕜] [Field ρ]
    [LinearOrder ρ] [FloorRing ρ] {S : Scalars 𝕜 ρ} {t : Tensor S.arithmetic} {i : ℕ}
    (h : t.size ≤ i) : t.entry i = 0 := by
  have hdata : ¬i < t.data.size := by
    rw [t.size_data]
    exact Nat.not_lt.mpr h
  rw [entry, elem, dif_neg hdata]
  exact Int.cast_zero (R := 𝕜)

/-- The magnitudes, also outside the shape. -/
theorem entry_abs (v : Tensor S.arithmetic) (hroot : S.root = Real.sqrt) (i : ℕ) :
    v.abs.entry i = S.ofReal (√(S.normSq (v.entry i))) := by
  rcases Nat.lt_or_ge i v.size with hi | hi
  · rw [← hroot]
    exact elem_ofFn _ _ _ hi
  · rw [entry_of_size_le hi, entry_of_size_le (t := v.abs) hi, S.normSq_zero, Real.sqrt_zero,
      map_zero]

/-- A multiple of the magnitudes, also outside the shape. -/
theorem re_entry_scaleBy {bound : Tensor S.arithmetic} (hroot : S.root = Real.sqrt)
    (h : w.abs.scaleBy (.real b) = .ok bound) (i : ℕ) :
    S.re (bound.entry i) = b * √(S.normSq (w.entry i)) := by
  have hshape : bound.shape = w.abs.shape := shape_of_frame (frame_of_scaleBy h)
  have hsize : bound.size = w.size := congrArg Shape.size hshape
  obtain rfl := Except.ok.inj h
  rcases Nat.lt_or_ge i w.size with hi | hi
  · have hvalue : S.ofReal b * (w.abs.castTo (S.arithmetic.withReal w.abs.kind)).entry i =
        S.ofReal (b * √(S.normSq (w.entry i))) := by
      rw [castTo_eq, entry_abs w hroot, ← map_mul]
    exact (congrArg S.re ((elem_ofFn _ _ _ hi).trans hvalue)).trans (S.re_ofReal _)
  · rw [entry_of_size_le (hsize.trans_le hi), entry_of_size_le hi, S.normSq_zero, Real.sqrt_zero,
      mul_zero, ← map_zero S.ofReal, S.re_ofReal]

end Tensor

namespace Mode

variable {𝕜 : Type} [Field 𝕜] [StarRing 𝕜] [DecidableEq 𝕜] {S : Scalars 𝕜 ℝ}
  {v u : Tensor S.arithmetic} {a b : ℝ}

/-- A bound of every component bounds the norm. -/
theorem holds_absoluteNorm (hroot : S.root = Real.sqrt) {t : Tolerances S.arithmetic}
    (ht : t.absolute = .number (.real a)) (ha : 0 ≤ a) {p : Bool}
    (h : Mode.absolute.holds Norm.rms t v u = .ok p) :
    ∃ p', Mode.absoluteNorm.holds Norm.rms t v u = .ok p' ∧ (p = true → p' = true) := by
  have hholds : Mode.absoluteNorm.holds Norm.rms t v u =
      .ok (decide ((if v.size = 0 then 0 else S.root v.squares / S.root v.size) ≤ a)) := by
    simp only [holds, Norm.rms_eq, ht]
    rfl
  refine ⟨_, hholds, fun hp => decide_eq_true ?_⟩
  subst hp
  by_cases hsize : v.size = 0
  · rw [if_pos hsize]
    exact ha
  · rw [if_neg hsize]
    simp only [holds, ht] at h
    have hwithin := (Tensor.allWithin_real v a).mp h
    rw [hroot] at hwithin ⊢
    exact Tensor.average_le ha hwithin

/-- A bound of every component by that of the sum bounds the norm by that of the sum. -/
theorem holds_relativeNorm (hroot : S.root = Real.sqrt) {t : Tolerances S.arithmetic}
    (ht : t.relative = .number (.real b)) (hb : 0 ≤ b) (hu : u.size ≠ 0) {p : Bool}
    (h : Mode.relative.holds Norm.rms t v u = .ok p) :
    ∃ p', Mode.relativeNorm.holds Norm.rms t v u = .ok p' ∧ (p = true → p' = true) := by
  obtain ⟨w, hw, h⟩ := Attempt.bind_eq_ok.mp h
  rw [ht] at h
  have hholds : Mode.relativeNorm.holds Norm.rms t v u =
      .ok (decide ((if v.size = 0 then 0 else S.root v.squares / S.root v.size) ≤
        b * if w.size = 0 then 0 else S.root w.squares / S.root w.size)) := by
    simp only [holds, Norm.rms_eq, hw, ht]
    rfl
  refine ⟨_, hholds, fun hp => decide_eq_true ?_⟩
  subst hp
  rw [hroot]
  by_cases hv : v.size = 0
  · rw [if_pos hv]
    refine mul_nonneg hb ?_
    split
    · exact le_refl 0
    · exact div_nonneg (Real.sqrt_nonneg _) (Real.sqrt_nonneg _)
  · -- the sum of arrays that are not empty is not empty
    have hw' : w.size ≠ 0 := by
      unfold Tensor.add Tensor.combine at hw
      split at hw
      case h_1 => cases hw
      case h_2 shape hshape =>
        obtain rfl := Except.ok.inj hw
        exact (Shape.stretches_of_broadcast? hshape).2.2 hv hu
    rw [if_neg hv, if_neg hw']
    obtain ⟨bound, hbound, h⟩ := Attempt.bind_eq_ok.mp h
    obtain rfl := Except.ok.inj hbound
    unfold Tensor.allLe at h
    split at h
    case h_1 => cases h
    case h_2 c hc =>
      have hall := List.all_eq_true.mp (Except.ok.inj h)
      refine Tensor.average_le_mul (c := c) hc hv hw' hb fun i hi => ?_
      have hle : S.re ((v.abs.castTo _).entry (Shape.source c v.shape i)) ≤
          S.re ((Tensor.castTo _ _).entry (Shape.source c w.shape i)) :=
        of_decide_eq_true (hall i (List.mem_range.mpr hi))
      rw [Tensor.castTo_eq, Tensor.castTo_eq, Tensor.entry_abs v hroot, S.re_ofReal,
        Tensor.re_entry_scaleBy hroot rfl] at hle
      exact hle

end Mode

end QuasiNewton
