import QuasiNewton.Proofs.Failures
import QuasiNewton.Proofs.Nonfinite

/-!
# Residuals that are not finite

Only infinity bounds the magnitude of an element that is not finite and the root mean square of a
tensor with such an element. So a residual that is not finite is a success only where the criterion
bounds it by infinity. That takes a relative mode, in which the sum of residual and iterate is not
finite either or its multiple leaves the range, or a precision whose range the absolute tolerance
leaves.
-/

namespace QuasiNewton

open QuasiNewton.Action

open Machine

/-! ## Bounds -/

/-- A number as it was written whose double is finite. -/
def Quantity.IsFinite (q : Quantity arithmetic.Real) : Prop :=
  ∃ x : Float, q.magnitude (M := magnitudes) = .ok x ∧ x.isFinite = true

namespace Quantity

variable {a : Quantity arithmetic.Real} {x : Float} {n : Int}

/-- A whole number that has a magnitude is exact in double precision. -/
theorem ofInt?_of_magnitude (h : Quantity.magnitude (M := magnitudes) (.whole n) = .ok x) :
    ofInt? n = some x := by
  unfold magnitude at h
  cases hn : magnitude? (M := magnitudes) (.whole n) with
  | some y =>
    rw [hn] at h
    exact hn.trans (congrArg some (Except.ok.inj h))
  | none =>
    rw [hn] at h
    cases h

/-- A finite number is in range for kinds with a precision. -/
theorem IsFinite.inRangeAt (ha : a.IsFinite) {k : arithmetic.Kind} {q : Precision}
    (hk : k = Kind.real q) : a.InRangeAt arithmetic k where
  magnitude := by
    obtain ⟨x, hx, -⟩ := ha
    exact ⟨x, hx⟩
  whole n hn := by
    obtain ⟨x, hx, -⟩ := ha
    rw [hn] at hx
    have hsome : (ofInt? n).isSome = true := Option.isSome_of_eq_some (ofInt?_of_magnitude hx)
    subst hk
    exact ⟨hsome, hsome⟩

/-- Beside an array of doubles a number stands for its double. -/
theorem re_ofQuantity (h : a.magnitude (M := magnitudes) = .ok x) {k : arithmetic.Kind}
    (hk : k = Kind.real .double) : Number.re (arithmetic.ofQuantity k a) = x := by
  have hfloat {n : Int} (h : ofInt? n = some x) : Decimal.floatOfInt n = x := by
    unfold ofInt? at h
    dsimp only at h
    split at h
    · cases h
    · exact Option.some.inj h
  subst hk
  cases a with
  | real y => exact Except.ok.inj h
  | whole n => exact hfloat (ofInt?_of_magnitude h)
  | flag b => exact hfloat (ofInt?_of_magnitude (n := if b then 1 else 0) h)

end Quantity

/-- Are both tolerances reals that are finite? -/
def Tolerances.areFinite : Tolerances arithmetic → Bool
  | ⟨.number (.real x), .number (.real y)⟩ => Float.isFinite x && Float.isFinite y
  | _ => false

/-- Tolerances that are finite are numbers, and finite ones. -/
theorem Tolerances.of_areFinite {t : Tolerances arithmetic} (h : t.areFinite = true) :
    ∃ a r : Quantity arithmetic.Real, t = ⟨.number a, .number r⟩ ∧ a.IsFinite ∧ r.IsFinite := by
  unfold areFinite at h
  split at h
  case h_1 x y =>
    obtain ⟨hx, hy⟩ := Bool.and_eq_true_iff.mp h
    exact ⟨.real x, .real y, rfl, ⟨x, rfl, hx⟩, ⟨y, rfl, hy⟩⟩
  case h_2 => cases h

namespace Mode

variable {mode : Mode} {a r : Quantity arithmetic.Real} {v u : Tensor arithmetic} {i : Nat}

/-- A double that a mode compares with the magnitude of an element of a residual, or with its norm.
A norm is compared with a whole number as it was written, and not with a double. -/
def Bounds (mode : Mode) (absolute relative : Quantity arithmetic.Real)
    (residual iterate : Tensor arithmetic) (i : Nat) (y : Float) : Prop :=
  match mode with
  | .absolute =>
    y = Number.re (arithmetic.ofQuantity (arithmetic.absolute residual.kind) absolute)
  | .relative => ∃ sum bound, residual.add iterate = .ok sum ∧
    sum.abs.scaleBy relative = .ok bound ∧ y = Number.re (bound.elem i)
  | .absoluteNorm | .absoluteBest => absolute = .real y
  | .relativeNorm | .relativeBest => ∃ sum x factor, residual.add iterate = .ok sum ∧
    Norm.rms sum = .ok x ∧ relative.magnitude (M := magnitudes) = .ok factor ∧
    y = magnitudes.mul factor x

/-- An element of a residual bars a mode if it is no number, or if it is not finite and the mode
does not compare it with infinity. -/
def Bars (mode : Mode) (absolute relative : Quantity arithmetic.Real)
    (residual iterate : Tensor arithmetic) (i : Nat) : Prop :=
  i < residual.size ∧ (Number.isUndefined residual.kind (residual.elem i) = true ∨
    Number.isFinite residual.kind (residual.elem i) = false ∧
      ¬mode.Bounds absolute relative residual iterate i infinity)

/-- An element that bars a criterion is not finite. -/
theorem Bars.isFinite (h : mode.Bars a r v u i) :
    Number.isFinite v.kind (v.elem i) = false := by
  rcases h.2 with hundefined | ⟨hfinite, -⟩
  · exact Number.isFinite_of_isUndefined hundefined
  · exact hfinite

section

variable {p : Float → Prop} (hp : Absorbing p) (hi : i < v.size)
  (h : Number.Has p v.kind (v.elem i))

include hp hi h

/-- Where all magnitudes are within a tolerance, it bounds what has the property. -/
theorem exists_bound_of_within (hwithin : v.Within a) :
    ∃ x y, p x ∧ Mode.absolute.Bounds a r v u i y ∧ magnitudes.le x y = true := by
  obtain ⟨q, hq, -⟩ := h.exists_precision
  have hkind : arithmetic.absolute v.kind = Kind.real q := hq
  have hle := hwithin.2 i hi
  rw [meeting_of_real hkind a, elemLe_of_real hkind] at hle
  exact ⟨_, _, hp.castTo_abs hi h hkind, rfl, hle⟩

/-- Where all magnitudes are at most a multiple of those of the sum, the multiple bounds it. -/
theorem exists_bound_of_atMost {sum bound : Tensor arithmetic} (hsum : v.add u = .ok sum)
    (hbound : sum.abs.scaleBy r = .ok bound) (hatMost : v.abs.AtMost bound) :
    ∃ x y, p x ∧ Mode.relative.Bounds a r v u i y ∧ magnitudes.le x y = true := by
  obtain ⟨q, hq, -⟩ := h.exists_precision
  obtain ⟨q', hq', hfine⟩ := Kind.exists_precision_join hq u.kind
  have hkind : bound.kind = Kind.real q' := by
    have hsumkind : sum.abs.kind = Kind.real q' :=
      (congrArg Kind.absolute (Tensor.kind_of_add hsum)).trans hq'
    have hscaled := Tensor.kind_of_frame (Tensor.frame_of_scaleBy hbound)
    exact hscaled.trans ((meeting_of_real hsumkind r).trans hsumkind)
  have hjoin : arithmetic.join v.abs.kind bound.kind = bound.kind := by
    refine (congrArg₂ Kind.join hq hkind).trans (Eq.trans ?_ hkind.symm)
    exact congrArg Kind.real hfine
  have hle := hatMost i hi
  rw [hjoin, Tensor.castTo_self, elemLe_of_real hkind] at hle
  exact ⟨_, _, hp.castTo_abs hi h hkind, ⟨sum, bound, hsum, hbound, rfl⟩, hle⟩

/-- Where the tolerance admits the norm, it bounds it as a double. -/
theorem exists_bound_of_admits {x : Float} (hx : Norm.rms v = .ok x)
    (hadmits : a.admits (M := magnitudes) x = true) :
    ∃ x y, p x ∧ a = .real y ∧ magnitudes.le x y = true := by
  have hpx := hp.of_rms hi h hx
  cases a with
  | real y => exact ⟨x, y, hpx, rfl, hadmits⟩
  | flag b => cases ((hp.beyond hpx).compareInt _).symm.trans hadmits
  | whole n => cases ((hp.beyond hpx).compareInt n).symm.trans hadmits

/-- Where the criterion holds, the mode bounds what has the property. -/
theorem exists_bound_of_criterion (mode : Mode) (hmeets : mode.Criterion Norm.rms a r v u) :
    ∃ x y, p x ∧ mode.Bounds a r v u i y ∧ magnitudes.le x y = true := by
  cases mode with
  | absolute => exact exists_bound_of_within hp hi h hmeets
  | relative =>
    obtain ⟨sum, bound, hsum, hbound, hatMost⟩ := hmeets
    exact exists_bound_of_atMost hp hi h hsum hbound hatMost
  | absoluteNorm | absoluteBest =>
    obtain ⟨x, hx, hadmits⟩ := hmeets
    exact exists_bound_of_admits hp hi h hx hadmits
  | relativeNorm | relativeBest =>
    obtain ⟨sum, x, y, factor, hsum, hx, hy, hfactor, hle⟩ := hmeets
    exact ⟨x, magnitudes.mul factor y, hp.of_rms hi h hx,
      ⟨sum, y, factor, hsum, hy, hfactor, rfl⟩, hle⟩

end

/-- What is no number is at most nothing. -/
theorem not_le_undefined (y : Float) : magnitudes.le undefined y = false := by
  rw [Bool.eq_false_iff]
  intro hle
  cases (Beyond.of_le (.inl rfl) hle).1

/-- Where an element bars a mode its criterion does not hold. -/
theorem Bars.not_criterion (h : mode.Bars a r v u i) : ¬mode.Criterion Norm.rms a r v u := by
  intro hmeets
  obtain ⟨hi, hundefined | ⟨hfinite, hbounds⟩⟩ := h
  · obtain ⟨x, y, rfl, -, hle⟩ := exists_bound_of_criterion absorbing_undefined hi
      (Number.has_undefined hundefined) mode hmeets
    cases (not_le_undefined y).symm.trans hle
  · obtain ⟨x, y, hx, hy, hle⟩ := exists_bound_of_criterion absorbing_beyond hi
      (Number.has_beyond hfinite) mode hmeets
    rw [(hx.of_le hle).2] at hy
    exact hbounds hy

/-- Where an element bars a mode and the tolerances are finite, the check of the criterion answers
that it does not hold. -/
theorem Bars.holds (h : mode.Bars a r v u i) (ha : a.IsFinite) (hr : r.IsFinite)
    (hshape : v.shape = u.shape) :
    mode.holds Norm.rms ⟨.number a, .number r⟩ v u = .ok false := by
  obtain ⟨q, hq, -⟩ := (Number.has_beyond h.isFinite).exists_precision
  obtain ⟨q', hq', -⟩ := Kind.exists_precision_join hq u.kind
  have hsize : u.size ≠ 0 := by
    rw [Tensor.size, ← hshape]
    exact Nat.ne_of_gt (Nat.zero_lt_of_lt h.1)
  have hnorm (t : Tensor arithmetic) (_ : t.size ≠ 0) : ∃ x, Norm.rms t = .ok x := ⟨_, rfl⟩
  obtain ⟨answer, hanswer⟩ := exists_holds_of_inRangeAt hnorm (ha.inRangeAt hq) (hr.inRangeAt hq')
    hshape hsize mode
  cases answer with
  | true =>
    exact absurd ((mode.holds_eq_true_iff_of_shape fun _ => hshape).mp hanswer) h.not_criterion
  | false => exact hanswer

/-- In the modes that compare the norm with the absolute tolerance, and in double precision in the
one that compares all magnitudes with it, a finite tolerance is barred by every element that is not
finite. -/
theorem bars_of_absolute (ha : a.IsFinite) (hmode : mode = .absoluteNorm ∨ mode = .absoluteBest ∨
      mode = .absolute ∧ arithmetic.absolute v.kind = Kind.real .double) (hi : i < v.size)
    (hfinite : Number.isFinite v.kind (v.elem i) = false) : mode.Bars a r v u i := by
  refine ⟨hi, .inr ⟨hfinite, ?_⟩⟩
  obtain ⟨x, hx, hxfinite⟩ := ha
  have hreal : a ≠ .real infinity := by
    rintro rfl
    obtain rfl : infinity = x := Except.ok.inj hx
    cases hxfinite
  rcases hmode with rfl | rfl | ⟨rfl, hkind⟩
  · exact hreal
  · exact hreal
  · intro hy
    obtain rfl : infinity = x := hy.trans (Quantity.re_ofQuantity hx hkind)
    cases hxfinite

end Mode

/-! ## Checks -/

/-- A monitor that finds an element that bars its mode sees no success, and a divergence if it
watches the best norm. -/
theorem Mode.Bars.check {m : Monitor arithmetic} {a r : Quantity arithmetic.Real}
    {v u : Tensor arithmetic} {i : Nat} (h : m.condition.mode.Bars a r v u i) (ha : a.IsFinite)
    (hr : r.IsFinite) (htolerances : m.tolerances = ⟨.number a, .number r⟩)
    (hshape : v.shape = u.shape) :
    ∃ m', m.check Norm.rms v u = (.ok m.condition.mode.watchesBest, m') ∧
      if m.condition.mode.watchesBest then m'.status = .unstable else m' = m := by
  have hmisses := h.holds ha hr hshape
  rw [← htolerances] at hmisses
  obtain ⟨x, hx, hbeyond⟩ := absorbing_beyond.rms h.1 (Number.has_beyond h.isFinite)
  unfold Monitor.check
  rw [hmisses]
  dsimp only
  cases hwatches : m.condition.mode.watchesBest with
  | false => exact ⟨m, rfl, rfl⟩
  | true =>
    have hdiverges : (m.observe x u).diverges x = .ok true :=
      if_neg (Bool.eq_false_iff.mp hbeyond.isFinite)
    rw [if_pos rfl, hx]
    dsimp only
    unfold Monitor.watch Monitor.verdict
    dsimp only
    rw [hdiverges]
    exact ⟨_, rfl, rfl⟩

namespace Session

/-! ## Reports -/

variable {a r : Quantity arithmetic.Real}

/-- With finite tolerances an element of a residual that bars the mode in effect keeps a check from
seeing a success and, in the modes that watch the best norm, makes it see a divergence. No solve
reports a success with a residual that has such an element. All elements that are not finite bar the
modes in which the norm, or in double precision every magnitude, is compared with the absolute
tolerance. -/
theorem nonfinite_unsuccessful (ha : a.IsFinite) (hr : r.IsFinite) :
    (∀ (m : Monitor arithmetic) (v u : Tensor arithmetic) (i : Nat),
      m.tolerances = ⟨.number a, .number r⟩ → v.shape = u.shape →
      m.condition.mode.Bars a r v u i →
      ∃ m', m.check Norm.rms v u = (.ok m.condition.mode.watchesBest, m') ∧
        if m.condition.mode.watchesBest then m'.status = .unstable else m' = m) ∧
    (∀ (P : Type) (setup : Setup arithmetic P) (request : Request arithmetic P)
      (past present : List (Operation arithmetic P)) (s₀ b s : Session arithmetic P) (n : Nat)
      (report : Report arithmetic), setup.norm = Norm.rms →
      start setup request = (.ok s₀, n) → (∀ op ∈ past, op.IsSolving) → Renews setup s₀ past →
      b = after setup s₀ past → b.monitor.tolerances = ⟨.number a, .number r⟩ →
      (∀ op ∈ present, op.TakesSteps) → Completes setup b present →
      (run setup).outcome (after setup b present) = (.ok report, s) → report.success = true →
      (b.monitor.condition.mode = .relative → report.residual.shape = report.iterate.shape) →
      ∀ i, ¬b.monitor.condition.mode.Bars a r report.residual report.iterate i) ∧
    ∀ (mode : Mode) (v u : Tensor arithmetic) (i : Nat),
      (mode = .absoluteNorm ∨ mode = .absoluteBest ∨
        mode = .absolute ∧ arithmetic.absolute v.kind = Kind.real .double) →
      i < v.size → Number.isFinite v.kind (v.elem i) = false → mode.Bars a r v u i := by
  refine ⟨fun m v u i htolerances hshape hbars => hbars.check ha hr htolerances hshape, ?_,
    fun mode v u i hmode hi hfinite => Mode.bars_of_absolute ha hmode hi hfinite⟩
  intro P setup request past present s₀ b s n report hnorm hstart hpast hrenews hb htolerances
    hpresent hanswer hrun hsuccess hshape i hbars
  have hordered := (Workspace.stable_ordered setup).after hstart hpast
  have hcleared := (hrenews.counted hstart).1
  rw [← hb] at hordered hcleared
  have hsolving : Solving setup b s := (tracks_solving b).after_run (l := []) hpresent hanswer
    hcleared.solving hordered hrun
  obtain ⟨norm, -, rfl⟩ := of_run hrun
  have hmet := hsolving.met (beq_iff_eq.mp hsuccess)
  rw [criterion, htolerances, hnorm] at hmet
  exact hbars.not_criterion ((Mode.holds_eq_true_iff_of_shape _ hshape).mp hmet)

open QuasiNewton.Affine in
/-- An infinite element makes a check that watches the best norm see a divergence. The solve of
twice the iterate less the parameter that reports a success reports a finite residual. -/
theorem nonfinite_unsuccessful_affine :
    (∃ m', (Monitor.start ⟨.absoluteBest, .whole 1, Condition.standardThreshold⟩
        ⟨.number (.real (1 : Float)), .number (.real (1 : Float))⟩ (0 : Float)
        (vector double [1, 2])).check Norm.rms (.full double [2] (Number.real infinity))
          (vector double [1, 2]) = (.ok true, m') ∧ m'.status = .unstable) ∧
    ∃ s₀ n report s, start problem request = (.ok s₀, n) ∧
      (run problem).outcome (after problem (after problem s₀ detour) [.steps 1]) =
        (.ok report, s) ∧ report.success = true ∧
      ∀ i < report.residual.size,
        Number.isFinite report.residual.kind (report.residual.elem i) = true := by
  constructor
  · have hone : Quantity.IsFinite (.real (1 : Float)) := ⟨1, rfl, rfl⟩
    obtain ⟨hcheck, -, hbars⟩ := nonfinite_unsuccessful hone hone
    exact hcheck _ _ _ 0 rfl rfl (hbars .absoluteBest _ _ 0 (.inr (.inl rfl)) (by decide) rfl)
  · obtain ⟨s₀, n, hstart, hrestart, htolerances, hstep, hsuccess⟩ := exists_started problem request
      (fun s => (∃ a, ((restart problem move).outcome (after problem s [.steps 1])).1 = .ok a) ∧
        ((after problem s detour).monitor.tolerances.areFinite = true ∧
          (after problem s detour).monitor.condition.mode = .absoluteBest) ∧
        Completes problem (after problem s detour) [.steps 1] ∧
        ((run problem).outcome (after problem s (detour ++ [.steps 1]))).1.toOption.any
          (·.success) = true) (by decide +kernel)
    obtain ⟨⟨⟩, ha⟩ := hrestart
    obtain ⟨hfinite, hmode⟩ := htolerances
    obtain ⟨a, r, htolerances, ha', hr'⟩ := Tolerances.of_areFinite hfinite
    rcases hrun : (run problem).outcome (after problem s₀ (detour ++ [.steps 1])) with
      ⟨e | report, s⟩
    · rw [hrun] at hsuccess
      cases hsuccess
    · rw [hrun] at hsuccess
      rw [after_append] at hrun
      obtain ⟨-, hreport, hbars⟩ := nonfinite_unsuccessful ha' hr'
      have hnone := hreport Int problem request detour [.steps 1] s₀ _ s n report rfl hstart
        (by decide) (.inr ⟨[.steps 1], move, _, rfl, Prod.ext ha rfl⟩) rfl htolerances (by decide)
        hstep hrun hsuccess (by rw [hmode]; exact nofun)
      refine ⟨s₀, n, report, s, hstart, hrun, hsuccess, fun i hi => ?_⟩
      by_contra hnot
      refine hnone i (hbars _ _ _ i ?_ hi (Bool.eq_false_iff.mpr hnot))
      exact .inr (.inl hmode)

end Session

end QuasiNewton
