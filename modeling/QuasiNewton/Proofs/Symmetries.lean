import QuasiNewton.Proofs.Averages
import QuasiNewton.Proofs.Relabelling

/-!
# Monitors in another order

The root mean square, the criteria and the reset check treat all unknowns alike, so a monitor that
is asked in another order answers the same and takes note of the same. Criteria that compare the
residual with the iterate do not allow for a shift of the iterate.
-/

namespace QuasiNewton

variable {𝕜 ρ : Type} [Field 𝕜] [StarRing 𝕜] [DecidableEq 𝕜] [Field ρ] [LinearOrder ρ]
  [FloorRing ρ] {S : Scalars 𝕜 ρ} {n : ℕ} {σ : Equiv.Perm (Fin n)} {c : Fin n → 𝕜}

/-! ## Criteria -/

namespace Tensor

variable {a b t : Tensor S.arithmetic}

/-- What holds of all positions holds of all unknowns. -/
theorem all_range_iff {p : ℕ → Bool} : (List.range n).all p = true ↔ ∀ i : Fin n, p i = true := by
  rw [List.all_eq_true]
  exact ⟨fun h i => h i (List.mem_range.mpr i.isLt), fun h i hi => h ⟨i, List.mem_range.mp hi⟩⟩

/-- What all elements pass they pass in every order. -/
theorem all_relabel (test : 𝕜 → Bool) (hn : t.size = n) :
    (t.relabel σ 0).all test = t.all test := by
  have hall (x : Tensor S.arithmetic) (hx : x.size = n) :
      x.all test = true ↔ ∀ i : Fin n, test (x.vector n i) = true := by
    unfold Tensor.all
    rw [hx]
    exact all_range_iff
  rw [Bool.eq_iff_iff, hall (t.relabel σ 0) hn, hall t hn, vector_relabel hn, sub_zero]
  exact σ.forall_congr_right (q := fun i => test (t.vector n i) = true)

/-- So are bounds of all elements. -/
theorem allWithin_relabel (q : Quantity ρ) (hn : t.size = n) :
    (t.relabel σ 0).allWithin q = t.allWithin q := by
  have hall (k : S.arithmetic.Kind) : ((t.relabel σ 0).abs.castTo k).all
      (fun y => S.arithmetic.elemLe k y (S.arithmetic.ofQuantity k q)) =
        (t.abs.castTo k).all fun y => S.arithmetic.elemLe k y (S.arithmetic.ofQuantity k q) := by
    rw [abs_relabel hn, castTo_eq, castTo_eq]
    exact all_relabel (S := S) (t := t.abs) _ hn
  cases q with
  | real x => exact congrArg Except.ok (hall _)
  | flag b => exact congrArg Except.ok (hall _)
  | whole k => exact congrArg Except.ok (hall _)

/-- Tensors of one shape are compared unknown by unknown. -/
theorem allLe_eq (hshape : a.shape = b.shape) (hn : a.size = n) :
    a.allLe b = .ok (decide (∀ i : Fin n, S.re (a.vector n i) ≤ S.re (b.vector n i))) := by
  have hsize : a.shape.size = n := hn
  unfold allLe
  rw [← hshape, Shape.broadcast?_self]
  dsimp only
  rw [hsize]
  refine congrArg Except.ok (Bool.eq_iff_iff.mpr (all_range_iff.trans ?_))
  simp only [Shape.source_self, castTo_eq, decide_eq_true_eq]
  exact forall_congr' fun i => decide_eq_true_iff

/-- Tensors of one shape are compared in either order. -/
theorem allLe_relabel (hshape : a.shape = b.shape) (hn : a.size = n) :
    (a.relabel σ 0).allLe (b.relabel σ 0) = a.allLe b := by
  have hb : b.size = n := (congrArg Shape.size hshape).symm.trans hn
  rw [allLe_eq hshape hn, allLe_eq (a := a.relabel σ 0) (b := b.relabel σ 0) hshape hn,
    vector_relabel hn, vector_relabel hb, sub_zero, sub_zero]
  refine congrArg Except.ok (decide_eq_decide.mpr ?_)
  exact σ.forall_congr_right (q := fun i => S.re (a.vector n i) ≤ S.re (b.vector n i))

/-- The sum of squares is the same in every order. -/
theorem squares_relabel (hn : t.size = n) : (t.relabel σ 0).squares = t.squares := by
  have hsum (u : Tensor S.arithmetic) (hu : u.size = n) :
      u.squares = ∑ i : Fin n, S.normSq (u.vector n i) := by
    rw [squares, hu, Finset.sum_range]
    rfl
  rw [hsum t hn, hsum (t.relabel σ 0) hn, vector_relabel hn, sub_zero]
  exact Equiv.sum_comp σ fun i => S.normSq (t.vector n i)

end Tensor

/-- The root mean square does not depend on the order. -/
theorem Norm.rms_relabel {t : Tensor S.arithmetic} (hn : t.size = n) :
    Norm.rms (t.relabel σ 0) = Norm.rms t := by
  have hsize : (t.relabel σ 0).size = t.size := rfl
  rw [rms_eq, rms_eq, Tensor.squares_relabel hn, hsize]

/-- Does the criterion compare the residual with the iterate? -/
def Mode.isRelative (mode : Mode) : Bool :=
  mode = .relative ∨ mode = .relativeNorm ∨ mode = .relativeBest

/-- A criterion that allows for the shift holds in either order. -/
theorem Mode.holds_relabel {mode : Mode} (hc : mode.isRelative = true → c = 0)
    {t : Tolerances S.arithmetic} (ht : t.areChecked = true) {v u : Tensor S.arithmetic}
    (hshape : v.shape = u.shape) (hn : v.size = n) :
    mode.holds Norm.rms t (v.relabel σ 0) (u.relabel σ c) = mode.holds Norm.rms t v u := by
  obtain ⟨a, b, -, -, rfl⟩ := Tolerances.nonneg_of_areChecked ht
  obtain ⟨w, hw, hws, -⟩ := Tensor.exists_sum hshape hn
  have hwn : w.size = n := (congrArg Shape.size hws).trans hn
  have hadd : (v.relabel σ 0).add (u.relabel σ 0) = .ok (w.relabel σ 0) := by
    rw [Tensor.add_relabel hshape hn, hw]
    rfl
  have habsolute : Mode.absoluteNorm.holds Norm.rms ⟨.number (.real a), .number (.real b)⟩
      (v.relabel σ 0) (u.relabel σ c) =
        Mode.absoluteNorm.holds Norm.rms ⟨.number (.real a), .number (.real b)⟩ v u := by
    simp only [holds, Norm.rms_relabel hn]
  have hrelative (h : c = 0) : Mode.relativeNorm.holds Norm.rms
      ⟨.number (.real a), .number (.real b)⟩ (v.relabel σ 0) (u.relabel σ c) =
        Mode.relativeNorm.holds Norm.rms ⟨.number (.real a), .number (.real b)⟩ v u := by
    subst h
    simp only [holds, Norm.rms_relabel hn, hadd, hw, bind, Except.bind, Norm.rms_relabel hwn]
  cases mode with
  | absolute => exact Tensor.allWithin_relabel (.real a) hn
  | relative =>
    obtain rfl := hc rfl
    have hscale : (w.abs.relabel σ 0).scale b = (w.abs.scale b).relabel σ 0 :=
      Tensor.scale_relabel (S := S) b hwn
    have hbound : (w.relabel σ 0).abs.scale b = (w.abs.scale b).relabel σ 0 := by
      rw [Tensor.abs_relabel hwn, hscale]
    have hle := Tensor.allLe_relabel (σ := σ) (a := v.abs) (b := w.abs.scale b) hws.symm hn
    rw [← Tensor.abs_relabel hn, ← hbound] at hle
    simp only [holds, hadd, hw, bind, Except.bind]
    exact hle
  | absoluteNorm => exact habsolute
  | relativeNorm => exact hrelative (hc rfl)
  | absoluteBest => exact habsolute
  | relativeBest => exact hrelative (hc rfl)

/-- Directions and changes are negligible in either order. -/
theorem ResetCheck.anyNegligible_relabel (r : ResetCheck S.arithmetic) {x y : Tensor S.arithmetic}
    (hx : x.size = n) (hy : y.size = n) :
    r.anyNegligible (x.relabel σ 0) (y.relabel σ 0) = r.anyNegligible x y := by
  have hx' : r.negligible (x.relabel σ 0) = r.negligible x :=
    Tensor.allWithin_relabel (S := S) _ hx
  have hy' : r.negligible (y.relabel σ 0) = r.negligible y :=
    Tensor.allWithin_relabel (S := S) _ hy
  rw [anyNegligible, anyNegligible, hx', hy']

/-! ## Monitors -/

namespace Monitor

/-- A monitor with the best iterate in another order. -/
def relabel (σ : Equiv.Perm (Fin n)) (c : Fin n → 𝕜) (m : Monitor S.arithmetic) :
    Monitor S.arithmetic :=
  { m with bestIterate := m.bestIterate.relabel σ c }

variable {m : Monitor S.arithmetic} {u v : Tensor S.arithmetic}

/-- The best iterate is remembered in either order. -/
theorem observe_relabel (objective : ρ) :
    (m.relabel σ c).observe objective (u.relabel σ c) = (m.observe objective u).relabel σ c := by
  unfold observe
  have hbest : (m.relabel σ c).best = m.best := rfl
  rw [hbest]
  split <;> rfl

/-- The watch answers the same in either order. -/
theorem watch_relabel (objective : ρ) :
    (m.relabel σ c).watch objective (u.relabel σ c) =
      ((m.watch objective u).1, (m.watch objective u).2.relabel σ c) := by
  unfold watch
  rw [observe_relabel]
  have hverdict : ((m.observe objective u).relabel σ c).verdict objective =
      (m.observe objective u).verdict objective := rfl
  dsimp only
  rw [hverdict]
  split <;> rfl

/-- A check answers the same and takes note of the same. -/
theorem check_relabel (hc : m.condition.mode.isRelative = true → c = 0)
    (ht : m.tolerances.areChecked = true) (hshape : v.shape = u.shape) (hn : v.size = n) :
    (m.relabel σ c).check Norm.rms (v.relabel σ 0) (u.relabel σ c) =
      ((m.check Norm.rms v u).1, (m.check Norm.rms v u).2.relabel σ c) := by
  have hholds : (m.relabel σ c).condition.mode.holds Norm.rms (m.relabel σ c).tolerances
      (v.relabel σ 0) (u.relabel σ c) = m.condition.mode.holds Norm.rms m.tolerances v u :=
    Mode.holds_relabel hc ht hshape hn
  have hcondition : (m.relabel σ c).condition = m.condition := rfl
  unfold check
  rw [hholds, hcondition, Norm.rms_relabel hn]
  split
  · rfl
  · rfl
  · split
    · split
      · exact watch_relabel _
      · rfl
    · rfl

end Monitor

/-- A monitor starts at the same norm. -/
theorem Monitor.make_relabel (choice : Condition.Choice S.arithmetic.toMagnitudes)
    (absolute relative : Setting ρ) {u v : Tensor S.arithmetic} (hn : v.size = n) :
    make choice absolute relative Norm.rms (v.relabel σ 0) (u.relabel σ c) =
      (make choice absolute relative Norm.rms v u).map (relabel σ c) := by
  have hkind : S.arithmetic.join (u.relabel σ c).kind (v.relabel σ 0).kind =
      S.arithmetic.join u.kind v.kind := rfl
  unfold make
  rw [hkind, Norm.rms_relabel hn]
  cases Condition.ofChoice choice with
  | error e => rfl
  | ok condition =>
    rcases Tolerances.make (S.arithmetic.join u.kind v.kind) absolute relative with e | tolerances
    · rfl
    · rfl

end QuasiNewton
