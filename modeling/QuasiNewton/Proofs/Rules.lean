import QuasiNewton.Proofs.Criteria
import QuasiNewton.Proofs.Invariants
import QuasiNewton.Proofs.Readings
import QuasiNewton.Proofs.Solves

/-!
# Step lengths and reset checks

Whatever is done to a session, its line search is the one its setup asks for, and the tolerance of
its reset check is positive. Over exact scalars a line search without a function of the caller goes
the same positive length at every step, and what a reset check lets pass is not zero.
-/

namespace QuasiNewton

open QuasiNewton.Action

/-! ## Sessions -/

section

variable {A : Arithmetic} {P : Type} {setup : Setup A P}

/-- Every reset check has a positive tolerance. -/
theorem ResetCheck.isAbove_of_make {given : Setting A.Real} {c : ResetCheck A}
    (h : make given = .ok c) : c.tolerance.isAbove (M := A.toMagnitudes) 0 = true := by
  obtain ⟨q, -, h⟩ := Attempt.bind_eq_ok.mp h
  split at h
  case isTrue hq =>
    obtain rfl := Attempt.pure_eq_ok.mp h
    exact hq
  case isFalse => cases h

/-- A reset check of a kind has a positive tolerance. -/
theorem ResetCheck.isAbove_of_forKind {kind : A.Kind} {given : Setting A.Real} {c : ResetCheck A}
    (h : forKind kind given = .ok c) : c.tolerance.isAbove (M := A.toMagnitudes) 0 = true := by
  unfold forKind at h
  split at h
  · split at h
    · exact isAbove_of_make h
    · cases h
  · exact isAbove_of_make h

/-- A line search that always goes the same positive length: one that is not a function, or a
function that always answers this length. -/
def LineSearch.Choice.IsFixed : Choice A → Prop
  | .setting _ => True
  | .function f => ∃ α, A.compareInt α 0 = some .gt ∧ ∀ n u d, f n u d = .ok α

namespace Session

/-- The line search is the one the setup asks for, and the reset check has a positive tolerance. -/
structure Supplied (setup : Setup A P) (s : Session A P) : Prop where
  rule : LineSearch.ofChoice setup.options.lineSearch = .ok s.lineSearch
  check : s.resetCheck.tolerance.isAbove (M := A.toMagnitudes) 0 = true

/-- The line search and the reset check of a session. -/
def lineSearchAndResetCheck (s : Session A P) : LineSearch A × ResetCheck A :=
  (s.lineSearch, s.resetCheck)

variable {s s' : Session A P}

/-- Being supplied is a matter of the two. -/
theorem Supplied.of_lineSearchAndResetCheck (h : s.Supplied setup)
    (hsame : s'.lineSearchAndResetCheck = s.lineSearchAndResetCheck) : s'.Supplied setup := by
  obtain ⟨hrule, hcheck⟩ := Prod.mk.inj hsame
  constructor
  · rw [hrule]
    exact h.rule
  · rw [hcheck]
    exact h.check

/-- What keeps the two keeps a session supplied. -/
theorem Supplied.kept {α : Type} {x : Action A P α} (h : s.Supplied setup)
    (hx : x.Keeps lineSearchAndResetCheck) :
    Upholds (fun _ => Supplied setup) (Supplied setup) x s :=
  .of_keeps hx fun _ => h.of_lineSearchAndResetCheck

/-- A session that was started is supplied. -/
theorem supplied_start {request : Request A P} {n : Nat} (h : start setup request = (.ok s, n)) :
    s.Supplied setup := by
  obtain ⟨budget, ready, monitor, check, rule, -, -, -, hcheck, hrule, rfl⟩ := start_eq_ok_iff.mp h
  exact ⟨hrule, ResetCheck.isAbove_of_forKind hcheck⟩

/-- A step changes neither. -/
theorem Supplied.advance (h : s.Supplied setup) :
    Upholds (fun _ => Supplied setup) (Supplied setup) (Session.advance setup) s := by
  exact .of_outcome_snd (h.of_lineSearchAndResetCheck
    (congrArg (fun c : Settings A P => (c.lineSearch, c.resetCheck)) (settings_advance setup s)))

/-- New arrays come with a new reset check. -/
theorem Supplied.relocate (h : s.Supplied setup) (point : Tensor A) (layout : Layout) :
    Upholds (fun _ => Supplied setup) (Supplied setup) (Session.relocate setup point layout) s := by
  refine .get_seq ?_
  split
  · refine h.kept (.bind ((monitorAndVerdict_moveTo setup point).map fun v =>
      (v.1.1.lineSearch, v.1.1.resetCheck)) fun _ => .of_rework fun _ _ _ => rfl)
  · refine .get_seq (.modify_seq (.attempt_seq (fun _ _ => ⟨h.rule, h.check⟩) fun ready _ => ?_))
    refine .modify_seq (.get_seq (.attempt_seq (fun _ _ => ⟨h.rule, h.check⟩)
      fun check hcheck => ?_))
    exact .of_modify ⟨h.rule, ResetCheck.isAbove_of_forKind hcheck⟩

/-- A restart keeps a session supplied, whether it answers or fails. -/
theorem Supplied.restart (h : s.Supplied setup) (r : Restart A P) :
    Upholds (fun _ => Supplied setup) (Supplied setup) (Session.restart setup r) s := by
  have hadopt : (adopt r : Action A P Unit).Keeps lineSearchAndResetCheck :=
    keeps_adopt (fun _ _ => rfl) (fun _ _ => rfl) r
  have hrenew : (renewMonitor setup r).Keeps lineSearchAndResetCheck :=
    keeps_renewMonitor setup (fun _ _ => rfl) (fun _ _ => rfl) r
  refine .seq (h.kept hadopt) fun _ s₁ h₁ => .get_seq (.seq (h₁.relocate _ _) fun _ s₂ h₂ => ?_)
  exact .seq (h₂.kept hrenew) fun _ s₃ h₃ => .of_modify ⟨h₃.rule, h₃.check⟩

/-- Steps and runs leave them as they are. -/
theorem invariant_supplied (setup : Setup A P) :
    Invariant setup (Supplied setup) (Supplied setup) where
  advance := fun hs _ => hs.advance
  exhaust := fun hs _ => ⟨hs.rule, hs.check⟩
  lines := fun _ hs => ⟨hs.rule, hs.check⟩
  weaken := fun hs => hs

/-- Whatever a session has been put through, both are as they were when it was started. -/
theorem supplied_after {request : Request A P} {s₀ : Session A P} {n : Nat}
    (hstart : start setup request = (.ok s₀, n)) {ops : List (Operation A P)}
    (hops : ∀ op ∈ ops, op.IsSolving) : (after setup s₀ ops).Supplied setup :=
  (invariant_supplied setup).after_of_robust hops (fun _ r _ hs => hs.restart r)
    (supplied_start hstart)

end Session

end

/-! ## Exact scalars -/

variable {𝕜 ρ : Type} [Field 𝕜] [StarRing 𝕜] [DecidableEq 𝕜] [Field ρ] [LinearOrder ρ]
  [FloorRing ρ] {S : Scalars 𝕜 ρ}

/-- A fixed line search always goes the same positive length. -/
theorem LineSearch.exists_length [IsStrictOrderedRing ρ] {choice : Choice S.arithmetic}
    {rule : LineSearch S.arithmetic} (hfixed : choice.IsFixed) (h : ofChoice choice = .ok rule) :
    ∃ α : ρ, 0 < α ∧ ∀ n u d, (rule.length n u d).1 = .ok α := by
  have hpositive {α : ρ} (hα : S.arithmetic.compareInt α 0 = some .gt) : 0 < α := by
    have hgt : ((0 : ℤ) : ρ) < α := compare_gt_iff_gt.mp (Option.some.inj hα)
    rwa [Int.cast_zero] at hgt
  have hlength {z : Attempt S.arithmetic S.arithmetic.Real} (h : (z >>= fun length =>
      if S.arithmetic.compareInt length 0 == some .gt then
        (pure (.fixed length) : Attempt S.arithmetic (LineSearch S.arithmetic))
      else throw (.badStepLength length)) = .ok rule) :
      ∃ α : ρ, 0 < α ∧ ∀ n u d, (rule.length n u d).1 = .ok α := by
    obtain ⟨α, -, h⟩ := Attempt.bind_eq_ok.mp h
    split at h
    case isTrue hα =>
      obtain rfl := Attempt.pure_eq_ok.mp h
      exact ⟨α, hpositive (beq_iff_eq.mp hα), fun _ _ _ => rfl⟩
    case isFalse => cases h
  cases choice with
  | function f =>
    obtain rfl := Except.ok.inj h
    obtain ⟨α, hα, hf⟩ := hfixed
    exact ⟨α, hpositive hα, fun n u d => hf (n + 1) u d⟩
  | setting value =>
    cases value with
    | absent =>
      obtain rfl := Except.ok.inj h
      exact ⟨1, one_pos, fun _ _ _ => rfl⟩
    | number q =>
      cases q with
      | flag b => cases h
      | whole n => exact hlength h
      | real x => exact hlength h
    | text _ => cases h
    | list _ => cases h
    | record _ => cases h

/-- A quantity above zero is a real above zero. -/
theorem Scalars.re_ofQuantity_pos [IsStrictOrderedRing ρ] {q : Quantity ρ}
    (hq : q.isAbove (M := S.magnitudes) 0 = true) : 0 < S.re (S.arithmetic.ofQuantity () q) := by
  have hwhole (n : ℤ) : S.re (n : 𝕜) = n := by
    rw [← map_intCast S.ofReal, S.re_ofReal]
  have habove : q.compareInt (M := S.magnitudes) 0 = some .gt := beq_iff_eq.mp hq
  cases q with
  | flag b =>
    cases b with
    | false => cases habove
    | true => exact (hwhole 1).symm ▸ Int.cast_pos.mpr one_pos
  | whole n =>
    have hn : 0 < n := compare_gt_iff_gt.mp (Option.some.inj habove)
    exact (hwhole n).symm ▸ Int.cast_pos.mpr hn
  | real x =>
    have hx : ((0 : ℤ) : ρ) < x := compare_gt_iff_gt.mp (Option.some.inj habove)
    rw [Int.cast_zero] at hx
    exact (S.re_ofReal x).symm ▸ hx

namespace ResetCheck

variable [IsStrictOrderedRing ρ] {c : ResetCheck S.arithmetic} {t u : Tensor S.arithmetic}

/-- Zeros are negligible. -/
theorem negligible_of_entries (hroot : S.root 0 = 0)
    (hc : c.tolerance.isAbove (M := S.magnitudes) 0 = true) (ht : ∀ i < t.size, t.entry i = 0) :
    c.negligible t = .ok true := by
  refine (Tensor.allWithin_eq_true_iff c.tolerance t).mpr ⟨fun _ _ => rfl, fun i hi => ?_⟩
  have hentry : t.abs.elem i = S.ofReal 0 := by
    have h : t.abs.elem i = S.ofReal (S.root (S.normSq (t.entry i))) := Tensor.elem_ofFn _ _ _ hi
    rw [h, ht i hi, S.normSq_zero, hroot]
  have hle : S.re (S.ofReal 0) ≤ S.re (S.arithmetic.ofQuantity () c.tolerance) :=
    (S.re_ofReal 0).trans_le (Scalars.re_ofQuantity_pos (S := S) hc).le
  rw [Tensor.castTo_eq, hentry]
  exact decide_eq_true hle

/-- What a reset check lets pass has an element that is not zero. -/
theorem exists_entry_ne_zero (hroot : S.root 0 = 0)
    (hc : c.tolerance.isAbove (M := S.magnitudes) 0 = true)
    (h : c.anyNegligible t u = .ok false) :
    (∃ i < t.size, t.entry i ≠ 0) ∧ ∃ i < u.size, u.entry i ≠ 0 := by
  have hne {t : Tensor S.arithmetic} (ht : c.negligible t = .ok false) :
      ∃ i < t.size, t.entry i ≠ 0 := by
    by_contra hzero
    push Not at hzero
    cases ht.symm.trans (negligible_of_entries hroot hc hzero)
  obtain ⟨small, hsmall, h⟩ := Attempt.bind_eq_ok.mp h
  cases small with
  | true => cases h
  | false => exact ⟨hne hsmall, hne h⟩

end ResetCheck

end QuasiNewton
