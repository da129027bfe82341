import QuasiNewton.Proofs.Corrections
import QuasiNewton.Proofs.Counters
import QuasiNewton.Proofs.Fallback
import QuasiNewton.Proofs.Maps
import QuasiNewton.Proofs.Rules
import QuasiNewton.Proofs.Sizes

/-!
# The secant method

In one dimension and without rounding the denominator of an update is zero only if the inverse
Jacobian, the step or the change of the residual is. The inverse Jacobian never is, and the reset
check lets neither of the other two pass. So no denominator is ever replaced, and the step after a
correction is that of the secant method: its length cancels against that of the step before.
-/

namespace QuasiNewton

open Matrix QuasiNewton.Action

/-! ## Replaced denominators -/

namespace Session

variable {A : Arithmetic} {P : Type}

/-- How many denominators have been replaced. -/
def replaced (s : Session A P) : Int := s.statistics.guards

variable (setup : Setup A P)

/-- To log an event replaces no denominator. -/
theorem keeps_replaced_log (what : Event A.Real) : (log setup what).Keeps replaced :=
  (keeps_log setup what).map replaced

/-- Nor does the first half of a step. -/
theorem keeps_replaced_probe : (probe setup).Keeps replaced :=
  (monitorAndLines_probe setup).map fun v => v.2.1

/-- Nor does the monitor. -/
theorem keeps_replaced_consult : (consult setup).Keeps replaced :=
  keeps_consult setup fun _ _ => rfl

/-- Nor does the end of a session. -/
theorem keeps_replaced_conclude : (conclude setup).Keeps replaced := by
  refine .bind (.of_modify fun _ => rfl) fun _ => .bind (.of_rework fun _ _ _ => rfl) fun _ =>
    .get_bind fun s => ?_
  split
  · exact .get_bind fun _ => .bind ((monitorAndLines_moveTo setup _).map fun v => v.2.1) fun _ =>
      .bind (.of_modify fun _ => rfl) fun _ => .get_bind fun _ => keeps_replaced_log setup _
  · exact .of_pure ()

/-- Nor does a reset, or the stop in its place. -/
theorem keeps_replaced_resetOrStop : (resetOrStop setup).Keeps replaced := by
  refine .get_bind fun s => ?_
  split
  · exact .bind (.of_modify fun _ => rfl) fun _ => keeps_replaced_log setup _
  · exact .bind (.of_rework fun _ _ _ => rfl) fun _ => .bind (.of_modify fun _ => rfl) fun _ =>
      .get_bind fun _ => keeps_replaced_log setup _

end Session

variable {𝕜 ρ : Type} [Field 𝕜]

/-- In one dimension a matrix is a factor. -/
theorem Secant.mulVec_fin_one (M : Matrix (Fin 1) (Fin 1) 𝕜) (x : Fin 1 → 𝕜) :
    (M *ᵥ x) 0 = M 0 0 * x 0 := by
  simp [mulVec, dotProduct]

/-- A step against a residual by the slope of the secant through the last two points leads to the
zero of the secant: its length cancels against that of the step before, which the slope holds. -/
theorem Secant.add_mul_neg_eq {a j u u₀ r r₀ : 𝕜} (hr : r ≠ r₀) (h : a * (j * (r - r₀)) = u - u₀) :
    u + a * -(j * r) = u - r * (u - u₀) / (r - r₀) := by
  have hne : r - r₀ ≠ 0 := sub_ne_zero.mpr hr
  rw [← h]
  field_simp
  ring

variable [StarRing 𝕜] [Field ρ] [LinearOrder ρ] {S : Scalars 𝕜 ρ}

/-- In one dimension only a matrix, a step or a change of zero makes a denominator of zero. -/
theorem Secant.Divides.unguarded_of_one {J : Matrix (Fin 1) (Fin 1) 𝕜} {s y : Fin 1 → 𝕜} {δ : 𝕜}
    {g : Bool} (h : Divides S J s y δ g) (hJ : IsUnit J) (hs : s 0 ≠ 0) (hy : y 0 ≠ 0) :
    g = false := by
  cases g with
  | false => rfl
  | true =>
    obtain ⟨-, hzero⟩ := h.guarded rfl
    rw [isUnit_iff_isUnit_det, det_fin_one, isUnit_iff_ne_zero] at hJ
    have hinner : star s ⬝ᵥ J *ᵥ y = star (s 0) * (J 0 0 * y 0) := by
      rw [← mulVec_fin_one, dotProduct, Fin.sum_univ_one, Pi.star_apply]
    rw [hinner] at hzero
    exact absurd hzero (mul_ne_zero (star_ne_zero.mpr hs) (mul_ne_zero hJ hy))

variable [DecidableEq 𝕜] [FloorRing ρ] {P : Type} {setup : Setup S.arithmetic P}

/-- A tensor of one element has one that is not zero only if it is the first. -/
theorem Tensor.entry_ne_zero_of_one {t : Tensor S.arithmetic} (ht : t.size = 1)
    (h : ∃ i < t.size, t.entry i ≠ 0) : t.entry 0 ≠ 0 := by
  obtain ⟨i, hi, hne⟩ := h
  rw [ht, Nat.lt_one_iff] at hi
  rwa [hi] at hne

/-- In one dimension a correction that the reset check lets pass keeps its denominator. -/
theorem Workspace.unguarded_of_correct {e : Engine} {w : Workspace S.arithmetic}
    (hw : w.Ordered e) (hm : w.Invertible) (hsize : w.direction.size = 1)
    (hd : ∃ i < w.direction.size, w.direction.entry i ≠ 0)
    (hy : ∃ i < w.change.size, w.change.entry i ≠ 0) {x : Workspace S.arithmetic × Bool}
    (hx : w.correct e = .ok x) : x.2 = false := by
  obtain ⟨n, hm, hunit⟩ := hm
  obtain ⟨u, inverse, d, hu, -, -, rfl⟩ := hw.of_correct hx
  obtain ⟨hdsize, hysize⟩ := Secant.sizes_of_update hm hu
  obtain rfl : n = 1 := hdsize.symm.trans hsize
  obtain ⟨u', δ, hu', hcorrects⟩ := Secant.exists_update (Tensor.isMatrix_matrix hm)
    (Tensor.isVector_flatten hdsize) (Tensor.isVector_flatten hysize)
  obtain rfl := Except.ok.inj (hu'.symm.trans hu)
  exact hcorrects.divides.unguarded_of_one hunit
    (neg_ne_zero.mpr (Tensor.entry_ne_zero_of_one hdsize hd))
    (Tensor.entry_ne_zero_of_one hysize hy)

namespace Session

variable {b s s' : Session S.arithmetic P}

/-! ## Steps in one dimension -/

section

variable [IsStrictOrderedRing ρ]

/-- The second half of a step in one dimension replaces no denominator, whether it answers or
fails. -/
theorem replaced_refine (hroot : S.root 0 = 0) (hs : s.Ordered setup) (hm : s.work.Invertible)
    (hcheck : s.resetCheck.tolerance.isAbove (M := S.magnitudes) 0 = true)
    (hsize : s.work.direction.size = 1) :
    Upholds (fun _ s' => s'.replaced = s.replaced) (fun s' => s'.replaced = s.replaced)
      (refine setup) s := by
  have hI := (Workspace.preserved_invertible setup).stable
  -- the change of the residual is new, all else is as it was
  refine .seq (m := fun _ s₁ => (s₁.Ordered setup ∧ s₁.work.Invertible) ∧
      s₁.resetCheck = s.resetCheck ∧ s₁.work.direction = s.work.direction ∧
      s₁.replaced = s.replaced)
    (.of_rework (fun w hw => ?_) fun _ _ => rfl) fun _ s₁ ⟨h₁, hcheck₁, hd₁, hr₁⟩ => ?_
  · obtain ⟨y, -, rfl⟩ := Workspace.Ordered.of_compare hs hw
    exact ⟨hI.compare ⟨hs, hm⟩ hw, rfl, rfl, rfl⟩
  refine .seq (m := fun _ s₂ => (s₂.Ordered setup ∧ s₂.work.Invertible) ∧
      s₂.resetCheck = s.resetCheck ∧ s₂.work.direction = s.work.direction ∧
      s₂.replaced = s.replaced)
    (.of_rework (fun w hw => ?_) fun _ _ => hr₁) fun _ s₂ ⟨h₂, hcheck₂, hd₂, hr₂⟩ => .get_seq ?_
  · obtain rfl := Except.ok.inj ((Workspace.Ordered.commit h₁.1).symm.trans hw)
    exact ⟨hI.commit h₁ hw, hcheck₁, hd₁, hr₁⟩
  refine .attempt_seq (fun _ _ => hr₂) fun small hsmall => ?_
  cases small with
  | true => exact .of_keeps (keeps_replaced_resetOrStop setup) fun _ h => h.trans hr₂
  | false =>
    rw [← hcheck₂] at hcheck
    rw [← hd₂] at hsize
    obtain ⟨hd, hy⟩ := ResetCheck.exists_entry_ne_zero hroot hcheck hsmall
    refine .get_seq (.attempt_seq (fun _ _ => hr₂) fun (w, guarded) hw => .modify_seq ?_)
    obtain rfl : guarded = false :=
      Workspace.unguarded_of_correct h₂.1 h₂.2 hsize hd hy hw
    exact .of_pure hr₂

/-- So does a whole step. -/
theorem replaced_advance (hroot : S.root 0 = 0) (hs : s.Ordered setup) (hm : s.work.Invertible)
    (hcheck : s.resetCheck.tolerance.isAbove (M := S.magnitudes) 0 = true)
    (hsize : s.work.iterate.size = 1) :
    Upholds (fun _ s' => s'.replaced = s.replaced) (fun s' => s'.replaced = s.replaced)
      (advance setup) s := by
  have hprobe : (count .steps >>= fun _ => probe setup).Keeps replaced :=
    .bind (.of_modify fun _ => rfl) fun _ => keeps_replaced_probe setup
  have hI := (Workspace.preserved_invertible setup).stable
  unfold advance
  rw [← bind_assoc]
  refine .seq (m := fun _ s₁ => (s₁.Ordered setup ∧ s₁.work.Invertible) ∧
      s₁.resetCheck = s.resetCheck ∧ s₁.work.direction.size = 1 ∧ s₁.replaced = s.replaced)
    (.of_cases (fun _ s₁ h => ?_) fun _ _ h => hprobe.eq_of_outcome h)
    fun _ s₁ ⟨h₁, hcheck₁, hd₁, hr₁⟩ => ?_
  · have h₁ := (Upholds.modify_seq (hI.probe (by exact ⟨hs, hm⟩))).of_ok h
    obtain ⟨x, hx, rfl⟩ := of_probe hs h
    obtain ⟨v, -, hd⟩ := hx.direction S.isWorking
    exact ⟨h₁, rfl, (congrArg Shape.size (Tensor.shape_of_reshape hd)).trans hsize,
      hprobe.eq_of_outcome h⟩
  rw [← hcheck₁] at hcheck
  have hconsult : (consult setup).Keeps fun s => (s.work, s.resetCheck, s.replaced) :=
    keeps_consult setup fun _ _ => rfl
  refine .seq (.of_cases (fun _ s₂ h => hconsult.eq_of_outcome h) fun _ s₂ h =>
    ((keeps_replaced_consult setup).eq_of_outcome h).trans hr₁) fun stop s₂ h₂ => ?_
  obtain ⟨hw, h₂⟩ := Prod.mk.inj h₂
  obtain ⟨hc, hr₂⟩ := Prod.mk.inj h₂
  cases stop with
  | true => exact .of_keeps (keeps_replaced_conclude setup) fun _ h => h.trans (hr₂.trans hr₁)
  | false =>
    rw [Ordered, ← hw] at h₁
    rw [← hw] at hd₁
    rw [← hc] at hcheck
    have hrefine := replaced_refine hroot h₁.1 h₁.2 hcheck hd₁
    exact hrefine.mono (fun _ _ h => h.trans (hr₂.trans hr₁)) fun _ h => h.trans (hr₂.trans hr₁)

/-- A session with one unknown, whose inverse Jacobian is regular and of whose denominators none was
replaced. -/
structure Univariate (setup : Setup S.arithmetic P) (s : Session S.arithmetic P) : Prop where
  ordered : s.Ordered setup
  invertible : s.work.Invertible
  supplied : s.Supplied setup
  shaped : s.Shaped (·.size = 1)
  unreplaced : s.replaced = 0

/-- Steps and runs preserve all that. -/
theorem invariant_univariate (hroot : S.root 0 = 0) (setup : Setup S.arithmetic P) :
    Invariant setup (Univariate setup) (Univariate setup) where
  advance := by
    intro s hs _
    have hwork := (Workspace.preserved_invertible setup).stable.session_advance
      (s := s) ⟨hs.ordered, hs.invertible⟩
    have hreplaced := replaced_advance hroot hs.ordered hs.invertible hs.supplied.check
      hs.shaped.iterate
    exact (((hwork.and hs.supplied.advance).and (hs.shaped.advance hs.ordered)).and hreplaced).mono
      (fun _ _ ⟨⟨⟨hw, hsupplied⟩, hshaped⟩, hr⟩ =>
        ⟨hw.1, hw.2, hsupplied, hshaped, hr.trans hs.unreplaced⟩)
      fun _ ⟨⟨⟨hw, hsupplied⟩, hshaped⟩, hr⟩ =>
        ⟨hw.1, hw.2, hsupplied, hshaped, hr.trans hs.unreplaced⟩
  exhaust := fun {s} hs _ =>
    ⟨hs.ordered, hs.invertible, ⟨hs.supplied.rule, hs.supplied.check⟩,
      ⟨hs.shaped.iterate, hs.shaped.best⟩, hs.unreplaced⟩
  lines := fun {s} _ hs =>
    ⟨hs.ordered, hs.invertible, ⟨hs.supplied.rule, hs.supplied.check⟩,
      ⟨hs.shaped.iterate, hs.shaped.best⟩, hs.unreplaced⟩
  weaken := fun hs => hs

/-- A solve with one unknown begins so. -/
theorem Renews.univariate {request : Request S.arithmetic P} {s₀ : Session S.arithmetic P} {n : ℕ}
    (hstart : start setup request = (.ok s₀, n)) {past : List (Operation S.arithmetic P)}
    (hpast : ∀ op ∈ past, op.IsSolving) (hrenews : Renews setup s₀ past)
    (hsize : (after setup s₀ past).work.iterate.size = 1) :
    (after setup s₀ past).Univariate setup := by
  obtain ⟨hcleared, -⟩ := hrenews.counted hstart
  obtain ⟨hordered, hinvertible⟩ :=
    (Workspace.preserved_invertible setup).stable.after hstart hpast
  have hbest : (after setup s₀ past).monitor.bestIterate.size = 1 := by
    rw [hcleared.point]
    exact hsize
  exact ⟨hordered, hinvertible, supplied_after hstart hpast, ⟨hsize, hbest⟩,
    congrArg Statistics.guards hcleared.statistics⟩

end

/-! ## Points of the secant method -/

/-- Where the search direction and the length are known, a probe leads to the point that they give,
whatever the residual function answers there. -/
theorem upholds_probe {A : Arithmetic} {setup : Setup A P} {s : Session A P} {α : A.Real}
    {w w' : Workspace A} (hlength : ∀ n u d, (s.lineSearch.length n u d).1 = .ok α)
    (hw : s.work.aim setup.engine = .ok w) (hw' : w.advance setup.engine α = .ok w') :
    Upholds (fun _ s' => s'.work.iterate = w'.iterate) (fun s' => s'.work.iterate = w'.iterate)
      (probe setup) s := by
  have hfail {x : Attempt A (Workspace A)} {y : Workspace A} (hx : x = .ok y) {p : Prop}
      (e : Fault A.Real) (he : x = .error e) : p := nomatch hx.symm.trans he
  refine .seq (m := fun _ s₁ => s₁.work = w ∧ s₁.lineSearch = s.lineSearch)
    (.of_rework (fun w₁ h => ⟨Except.ok.inj (h.symm.trans hw), rfl⟩) (hfail hw))
    fun _ s₁ ⟨hw₁, hl₁⟩ => ?_
  refine .seq (m := fun length s₂ => length = α ∧ s₂.work = w)
    (.of_cases (fun length s₂ h => ?_) fun e s₂ h => ?_) fun length s₂ ⟨hα, hw₂⟩ => ?_
  · rw [outcome_stepLength, hl₁] at h
    obtain ⟨hlength', rfl⟩ := Prod.mk.inj h
    exact ⟨Except.ok.inj (hlength'.symm.trans (hlength _ _ _)), hw₁⟩
  · rw [outcome_stepLength, hl₁] at h
    cases (congrArg Prod.fst h).symm.trans (hlength _ _ _)
  subst hα
  rw [← hw₂] at hw'
  refine .seq (m := fun _ s₃ => s₃.work.iterate = w'.iterate)
    (.of_rework (fun w₃ h => ?_) (hfail hw')) fun _ s₃ h₃ => ?_
  · obtain rfl := Except.ok.inj (hw'.symm.trans h)
    rfl
  · have hkeeps : (settleOrigin setup >>= fun _ => evaluateTrial setup).Keeps iterateAndMonitor :=
      .bind (iterateAndMonitor_settleOrigin setup) fun _ => iterateAndMonitor_evaluateTrial setup
    exact .of_keeps hkeeps fun s' h => (congrArg Prod.fst h).trans h₃

/-- So does the next step, before it falls back. -/
theorem exists_visited_one {A : Arithmetic} {setup : Setup A P} {s : Session A P} {α : A.Real}
    (hA : A.JoinsSigned) (hworking : ∀ k, A.IsWorking k) (hs : s.work.Workable setup.engine)
    (hlength : ∀ n u d, (s.lineSearch.length n u d).1 = .ok α) :
    ∃ v d, s.work.inverse.matMul s.work.residual.flatten = .ok v ∧
      v.reshape s.work.iterate.shape = .ok d ∧
      s.work.iterate.sub (d.scale α) = .ok (visited setup s 1) := by
  obtain ⟨d, hw, hworkable, hdirection⟩ := hs.exists_aim hA
  obtain ⟨u, hw', -⟩ := hworkable.exists_advance hA hdirection α
  have hprobe : Upholds (fun _ s' => s'.work.iterate = u) (fun s' => s'.work.iterate = u)
      (count .steps >>= fun _ => probe setup) s :=
    .modify_seq (upholds_probe
      (s := { s with statistics := s.statistics.bump .steps 1 }) hlength hw hw')
  have hvisited : visited setup s 1 = u := hprobe.outcome_snd (fun _ _ h => h) fun _ h => h
  obtain ⟨v, d', hv, hd, haim⟩ := hs.ordered.of_aim hw
  rw [hs.ordered.turned_eq hworking] at haim
  obtain rfl : d = d' := congrArg Workspace.direction haim
  obtain ⟨u', hu, hadvance⟩ := hworkable.ordered.of_advance hw'
  obtain rfl : u = u' := congrArg Workspace.iterate hadvance
  rw [hvisited]
  exact ⟨v, d, hv, hd, hu⟩

/-- A step that answers and does not fall back leads there. -/
theorem iterate_of_step {A : Arithmetic} {setup : Setup A P} {s s' : Session A P}
    (hs : s.Ordered setup) (hgoing : s.stopped = false)
    (hstep : (step setup).outcome s = (.ok (), s')) (hstatus : s'.status.fallsBack = false) :
    s'.work.iterate = visited setup s 1 := by
  rw [outcome_step_of_not_stopped setup hgoing] at hstep
  cases of_advance hs hstep with
  | concluded hx hcheck hend =>
    rw [Probe.Valid.visited_eq (b := s) (k := 0) hx]
    cases hend with
    | stayed => rfl
    | restored hback => cases hback.symm.trans hstatus
  | refined hx hcheck hrest =>
    rw [Probe.Valid.visited_eq (b := s) (k := 0) hx]
    exact hrest.kept.iterate

section

variable {F : Tensor S.arithmetic → P → Attempt S.arithmetic (Tensor S.arithmetic)}

/-- The inverse Jacobian of a solve with one unknown has one element, if the arrays belonged
together when it began. -/
theorem inverse_of_fitting (hR : setup.residual.Computes F) (hF : Residual.Conforms F)
    {request : Request S.arithmetic P} {s₀ : Session S.arithmetic P} {n : ℕ}
    (hstart : start setup request = (.ok s₀, n)) {past present : List (Operation S.arithmetic P)}
    (hpast : ∀ op ∈ past, op.IsSolving) (hrenews : Renews setup s₀ past)
    (hb : b = after setup s₀ past) (hpresent : ∀ op ∈ present, op.TakesSteps)
    (hfit : Fitting setup s₀ past) (hsize : (after setup b present).work.iterate.size = 1) :
    (after setup b present).work.inverse.shape = [1, 1] := by
  obtain ⟨f, hf⟩ := (regular_start hR hF hstart).toComposed.after hR hF hpast hfit
  have hcleared := (hrenews.counted hstart).1
  rw [← hb] at hf hcleared
  have hordered : b.Ordered setup := fun _ => ⟨f, hf.work⟩
  have hshaped : b.Shaped (· = b.work.iterate.shape) := ⟨rfl, congrArg Tensor.shape hcleared.point⟩
  have hfit' := (invariant_shaped setup (· = b.work.iterate.shape)).fitting
    (fun _ h => Tensor.frame_eq rfl (h.2.best.trans h.2.iterate.symm)) hpresent ⟨hordered, hshaped⟩
  obtain ⟨g, hg⟩ := hf.after hR hF (fun op hop => (hpresent op hop).isSolving) hfit'
  have hg_size : g.shape.size = 1 := (Tensor.size_of_frame hg.work.iterate).symm.trans hsize
  have hshape : (after setup b present).work.inverse.shape = [g.shape.size, g.shape.size] :=
    Tensor.shape_of_frame hg.work.inverse
  rwa [hg_size] at hshape

/-- After a step from one point to another the next step goes to the zero of the secant through
both, and lands there unless it falls back. -/
structure SecantStep (F : Tensor S.arithmetic → P → Attempt S.arithmetic (Tensor S.arithmetic))
    (setup : Setup S.arithmetic P) (s s' : Session S.arithmetic P) : Prop where
  point : ∃ v v', F s.work.iterate s.parameter = .ok v ∧ F s'.work.iterate s.parameter = .ok v' ∧
    v'.entry 0 ≠ v.entry 0 ∧ (visited setup s' 1).entry 0 = s'.work.iterate.entry 0 -
      v'.entry 0 * (s'.work.iterate.entry 0 - s.work.iterate.entry 0) / (v'.entry 0 - v.entry 0)
  shape : (visited setup s' 1).shape = s'.work.iterate.shape
  lands : ∀ s'', (step setup).outcome s' = (.ok (), s'') → s''.status.fallsBack = false →
    s''.work.iterate = visited setup s' 1

/-- After a correction the arrays can make the next step. -/
theorem SecantEquation.workable {n : ℕ} {α : ρ} (h : SecantEquation n α s s') (hn : n ≠ 0)
    (hF : Residual.Conforms F) (hs' : s'.Consistent F) (hordered : s'.Ordered setup) :
    s'.work.Workable setup.engine where
  ordered := hordered
  nonempty := h.iterate.trans_ne hn
  residual := Tensor.shape_congr (hF _ _ _ hs')
  inverse := by
    rw [h.iterate]
    exact h.inverse
  signed := rfl
  signed_inverse := rfl

/-- In one dimension a correction with the denominator of the method is one between residuals that
differ. -/
theorem Correction.entry_ne {α : ρ} {δ : 𝕜} (h : Correction 1 α δ false s s')
    (hF : Residual.Conforms F) (hs : s.Consistent F) (hs' : s'.Consistent F) :
    s'.work.residual.entry 0 ≠ s.work.residual.entry 0 := by
  obtain ⟨-, hδ⟩ := h.divides.unguarded rfl
  intro hsame
  have hnone : s'.work.change.vector 1 = 0 := by
    rw [h.vector_change hF hs hs']
    exact funext fun i => Subsingleton.elim 0 i ▸ sub_eq_zero.mpr hsame
  rw [hnone, mulVec_zero, dotProduct_zero] at hδ
  exact hδ rfl

variable [IsStrictOrderedRing ρ]

/-- So it is after every correction. -/
theorem Univariate.secantStep (hs : s.Univariate setup) (hroot : S.root 0 = 0)
    (hR : setup.residual.Computes F) (hF : Residual.Conforms F) (hconsistent : s.Consistent F)
    (hline : setup.options.lineSearch.IsFixed)
    (hstep : (step setup).outcome s = (.ok (), s')) (hgoing : s'.stopped = false)
    (hresets : s'.resets = s.resets) : SecantStep F setup s s' := by
  obtain ⟨n, hm, -⟩ := hs.invertible
  obtain ⟨hstepped, α, δ, guarded, hcorrection⟩ :=
    exists_correction hs.ordered hm hstep hgoing hresets
  obtain rfl : n = 1 := hcorrection.size.symm.trans hs.shaped.iterate
  have hs' : s'.Univariate setup := ((invariant_univariate hroot setup).step hs).of_ok hstep
  have hconsistent' : s'.Consistent F := hstepped.consistent hR hF
  obtain rfl := hcorrection.guards (hs'.unreplaced.trans hs.unreplaced.symm)
  have hsecant := hcorrection.secantEquation
  -- both steps are of one length
  obtain ⟨α', -, hlength⟩ := LineSearch.exists_length hline hs.supplied.rule
  obtain rfl : α' = α := by
    obtain ⟨d, searches, -, -, hα⟩ := hcorrection.length
    exact Except.ok.inj ((hlength _ _ _).symm.trans (congrArg Prod.fst hα))
  have hrule' : s'.lineSearch = s.lineSearch :=
    Except.ok.inj (hs'.supplied.rule.symm.trans hs.supplied.rule)
  rw [← hrule'] at hlength
  obtain ⟨w, d, hw, hd, hpoint⟩ := exists_visited_one S.joinsSigned S.isWorking
    (hsecant.workable Nat.one_ne_zero hF hconsistent' hs'.ordered) hlength
  obtain ⟨hshape, hvector⟩ := Workspace.vector_of_advance hsecant.inverse hw hd hpoint
  have hequation : S.ofReal α' * (s'.work.inverse.matrix 1 0 0 *
      (s'.work.residual.entry 0 - s.work.residual.entry 0)) =
      s'.work.iterate.entry 0 - s.work.iterate.entry 0 := by
    have h := congrFun hsecant.equation 0
    rw [hcorrection.vector_change hF hconsistent hconsistent', hcorrection.previous, Pi.smul_apply,
      Secant.mulVec_fin_one, smul_eq_mul] at h
    exact h
  have hnext : (visited setup s' 1).entry 0 = s'.work.iterate.entry 0 +
      S.ofReal α' * -(s'.work.inverse.matrix 1 0 0 * s'.work.residual.entry 0) := by
    have h := congrFun hvector 0
    rw [Pi.add_apply, Pi.smul_apply, Workspace.descent, Pi.neg_apply, Secant.mulVec_fin_one,
      smul_eq_mul] at h
    exact h
  have hne := hcorrection.entry_ne hF hconsistent hconsistent'
  have hvalue : F s'.work.iterate s.parameter = .ok s'.work.residual := by
    rw [← hcorrection.parameter]
    exact hconsistent'
  exact
    { point := ⟨_, _, hconsistent, hvalue, hne, hnext.trans (Secant.add_mul_neg_eq hne hequation)⟩
      shape := hshape
      lands := fun _ hstep' hstatus => iterate_of_step hs'.ordered hgoing hstep' hstatus }

/-- In one dimension and without rounding no denominator is ever replaced, whichever steps fail, and
the inverse Jacobian stays regular: it is a number that is not zero, if the arrays belonged together
when the solve began. With full steps or a fixed length a step that goes on after a correction is
one of the secant method. -/
theorem secant_method (hroot : S.root 0 = 0) {request : Request S.arithmetic P}
    {s₀ : Session S.arithmetic P} {n : ℕ} (hstart : start setup request = (.ok s₀, n))
    {past present : List (Operation S.arithmetic P)} (hpast : ∀ op ∈ past, op.IsSolving)
    (hrenews : Renews setup s₀ past) (hb : b = after setup s₀ past)
    (hsize : b.work.iterate.size = 1) (hpresent : ∀ op ∈ present, op.TakesSteps)
    (hs : s = after setup b present) :
    s.statistics.guards = 0 ∧ s.work.Invertible ∧
      ∀ F, setup.residual.Computes F → Residual.Conforms F →
        (Fitting setup s₀ past →
          s.work.inverse.shape = [1, 1] ∧ s.work.inverse.entry 0 ≠ 0) ∧
        (Completes setup b present → s.Consistent F) ∧
        ∀ s', setup.options.lineSearch.IsFixed → s.Consistent F →
          (step setup).outcome s = (.ok (), s') → s'.stopped = false → s'.resets = s.resets →
          SecantStep F setup s s' := by
  have hbegun : b.Univariate setup := by
    rw [hb] at hsize ⊢
    exact hrenews.univariate hstart hpast hsize
  have huni : s.Univariate setup := by
    rw [hs]
    exact (invariant_univariate hroot setup).after_of_robust
      (fun op hop => (hpresent op hop).isSolving)
      (fun _ r hr _ => (hpresent _ hr).elim) hbegun
  refine ⟨huni.unreplaced, huni.invertible, fun F hR hF => ⟨fun hfit => ?_, fun hanswer => ?_,
    fun s' hline hconsistent hstep hgoing hresets =>
      huni.secantStep hroot hR hF hconsistent hline hstep hgoing hresets⟩⟩
  · have hiterate := huni.shaped.iterate
    rw [hs] at hiterate
    have hshape := inverse_of_fitting hR hF hstart hpast hrenews hb hpresent hfit hiterate
    rw [← hs] at hshape
    obtain ⟨m, hm, hunit⟩ := huni.invertible
    obtain rfl : m = 1 := (List.cons.inj (hm.symm.trans hshape)).1
    rw [isUnit_iff_isUnit_det, det_fin_one, isUnit_iff_ne_zero] at hunit
    exact ⟨hshape, hunit⟩
  · have hopened := hrenews.opened hR hF hstart hpast
    rw [hs]
    rw [← hb] at hopened
    exact ((invariant_consistent hR hF).after_of_mem (fun op hop => (hpresent op hop).isSolving)
      (fun _ r hr _ => (hpresent _ hr).elim) hanswer ⟨hbegun.ordered, hopened.consistent⟩).2

end

end Session

namespace Roots

/-- The square of the iterate less two, over the rational numbers. -/
def residual : Tensor Scalars.rational.arithmetic → Int →
    Attempt Scalars.rational.arithmetic (Tensor Scalars.rational.arithmetic) :=
  Residual.ofMap (n := 1) fun u _ => u 0 * u 0 - 2

/-- The search for a root of two. -/
def problem : Setup Scalars.rational.arithmetic Int where
  residual := .returning fun _ => residual
  options := .standard
  norm := .rms
  verbosity := .number (.whole 0)

/-- A start at three. -/
def request : Request Scalars.rational.arithmetic Int := Affine.startAt () [3] 0

/-- A step, and a restart at one. -/
def detour : List (Operation Scalars.rational.arithmetic Int) :=
  [.steps 1, .restart (Affine.restartAt () [1] 0)]

end Roots

namespace Session

open QuasiNewton.Roots in
/-- The second step after the restart corrects the inverse Jacobian. -/
theorem secant_method_root :
    ∃ s₀ n s', start problem request = (.ok s₀, n) ∧
      (step problem).outcome (after problem (after problem s₀ detour) [.steps 1]) = (.ok (), s') ∧
      SecantStep residual problem (after problem (after problem s₀ detour) [.steps 1]) s' := by
  obtain ⟨s₀, n, hstart, ⟨⟨⟩, hrestart⟩, hsize, hanswer, ⟨⟨⟩, ha⟩, hgoing, hresets⟩ :=
    exists_started problem request (fun s =>
      (∃ a, ((restart problem (Affine.restartAt () [1] 0)).outcome
        (after problem s [.steps 1])).1 = .ok a) ∧
      (after problem s detour).work.iterate.size = 1 ∧
      Completes problem (after problem s detour) [.steps 1] ∧
      (∃ a, ((step problem).outcome
        (after problem (after problem s detour) [.steps 1])).1 = .ok a) ∧
      ((step problem).outcome
        (after problem (after problem s detour) [.steps 1])).2.stopped = false ∧
      ((step problem).outcome (after problem (after problem s detour) [.steps 1])).2.resets =
        (after problem (after problem s detour) [.steps 1]).resets) (by decide +kernel)
  have hpast : ∀ op ∈ detour, op.IsSolving := by decide
  have hpresent : ∀ op ∈ ([.steps 1] : List (Operation Scalars.rational.arithmetic Int)),
      op.TakesSteps := by decide
  obtain ⟨-, -, hmethod⟩ := secant_method (S := Scalars.rational) (by decide +kernel) hstart hpast
    (.inr ⟨[.steps 1], _, _, rfl, Prod.ext hrestart rfl⟩) rfl hsize hpresent rfl
  obtain ⟨-, hconsistent, hstep⟩ := hmethod residual (fun _ _ _ => rfl) Residual.conforms_ofMap
  exact ⟨s₀, n, _, hstart, Prod.ext ha rfl,
    hstep _ trivial (hconsistent hanswer) (Prod.ext ha rfl) hgoing hresets⟩

end Session

end QuasiNewton
