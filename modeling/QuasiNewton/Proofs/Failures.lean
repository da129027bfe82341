import QuasiNewton.Proofs.Counters

/-!
# Reports of failure

A solve that fails ends where its last step went, or it returns to the best iterate. The criterion
has been checked wherever a step went, and it did not hold there. It has not been checked where the
solve began: a solve may return there although the criterion holds, and still report a failure.
-/

namespace QuasiNewton

open QuasiNewton.Action

variable {A : Arithmetic} {P : Type} {F : Tensor A → P → Attempt A (Tensor A)} {setup : Setup A P}

namespace Session

variable {b c s s' : Session A P}

/-! ## Solves -/

/-- A solve that began with a session and goes on or has ended: it keeps the settings, and the
criterion holds where it has ended in a success. -/
structure Solving (setup : Setup A P) (b s : Session A P) : Prop where
  settings : s.settings = b.settings
  running : s.stopped = false → s.status = .running
  met : s.status = .success → b.criterion setup s.work.residual s.work.iterate = .ok true

/-- A step that answers goes on with the solve or ends it. -/
theorem Solving.stepped (h : Solving setup b c) (hc : c.Ordered setup) (hgoing : c.stopped = false)
    (hadvance : (advance setup).outcome c = (.ok (), s')) : Solving setup b s' := by
  have hrunning := h.running hgoing
  have hsettings : s'.settings = b.settings := by
    have hkept := settings_advance setup c
    rw [hadvance] at hkept
    exact hkept.trans h.settings
  cases of_advance hc hadvance with
  | @concluded x m _ hx hm hend =>
    cases hend with
    | stayed hstays =>
      refine ⟨hsettings, nofun, fun _ => ?_⟩
      rw [← criterion_of_settings h.settings]
      rcases Monitor.check_eq_ok hm with ⟨hholds, -⟩ | ⟨-, hback⟩
      · exact hholds
      · cases (hback rfl).symm.trans hstays
    | restored hback =>
      refine ⟨hsettings, nofun, fun hsuccess => ?_⟩
      change m.status = .success at hsuccess
      change m.status.fallsBack = true at hback
      rw [hsuccess] at hback
      cases hback
  | @refined x m _ hx hm hrest =>
    refine ⟨hsettings, fun hgoes => (hrest.kept.status hgoes).trans hrunning, fun hsuccess => ?_⟩
    cases hrest with
    | exhausted => cases hsuccess
    | reset => cases hrunning.symm.trans hsuccess
    | corrected => cases hrunning.symm.trans hsuccess

/-- A solve goes on as long as its steps answer. -/
theorem tracks_solving (b : Session A P) : Tracks setup fun _ s => Solving setup b s where
  advance h hs hgoing hadvance := h.stepped hs hgoing hadvance
  exhaust h _ := ⟨h.settings, nofun, nofun⟩
  lines _ h := ⟨h.settings, h.running, h.met⟩

/-- A session that is cleared is solving from where it is. -/
theorem Cleared.solving (h : b.Cleared) : Solving setup b b where
  settings := rfl
  running _ := h.status
  met hsuccess := by cases h.status.symm.trans hsuccess

/-! ## Rejected points -/

/-- The residual has been evaluated at a point, with the parameter of a session and into an array
that belongs to it, and the criterion in effect did not hold. -/
def Rejected (setup : Setup A P) (b : Session A P) (point : Tensor A) : Prop :=
  ∃ n array v, (setup.engine = .inPlace → array.frame = b.work.iterate.frame) ∧
    (setup.residual.evaluate n array point b.parameter).1 = .ok v ∧
    b.criterion setup v point = .ok false

/-- The criterion does not hold either when the residual is evaluated there once more. -/
theorem Rejected.again (hR : setup.residual.Computes F) {point : Tensor A}
    (h : Rejected setup b point) {n : Nat} {array v : Tensor A}
    (harray : setup.engine = .inPlace → array.frame = b.work.iterate.frame)
    (hv : (setup.residual.evaluate n array point b.parameter).1 = .ok v) :
    b.criterion setup v point = .ok false := by
  obtain ⟨n', array', v', harray', hv', hmisses⟩ := h
  have hframe (hw : setup.residual.writes = true) : array'.frame = array.frame :=
    (harray' (if_pos hw)).trans (harray (if_pos hw)).symm
  rw [hR.evaluate_same hframe n' n] at hv'
  obtain rfl := Except.ok.inj (hv'.symm.trans hv)
  exact hmisses

/-- What is known of the best iterate of a solve that began with a session: it is where the solve
began or it has been rejected. It fits the arrays that are overwritten, and if residuals conform it
is of the kind of the iterate. -/
structure Known (F : Tensor A → P → Attempt A (Tensor A)) (setup : Setup A P) (b : Session A P)
    (best iterate : Tensor A) : Prop where
  candidate : best = b.work.iterate ∨ Rejected setup b best
  frame : setup.engine = .inPlace → best.frame = b.work.iterate.frame
  kind : Residual.Conforms F → best.kind = iterate.kind

/-! ## Sessions without a success -/

/-- Where a session is that is not marked as a success: no step has led it away from where the solve
began, or the criterion does not hold where it is, or it has returned. It may have returned to where
the solve began; if arrays are replaced and have changed their kind since, it has returned to the
best iterate in the new kind. -/
inductive Unmet (setup : Setup A P) (b s : Session A P) : Prop
  | waiting (hsteps : s.statistics.steps = 0) (hiterate : s.work.iterate = b.work.iterate)
  | missed (hmisses : b.criterion setup s.work.residual s.work.iterate = .ok false)
  | returned (hback : s.status.fallsBack = true) (hiterate : s.work.iterate = b.work.iterate)
  | converted (hback : s.status.fallsBack = true) (hengine : setup.engine = .rebuilding)
    (hkind : s.work.iterate.kind ≠ s.monitor.bestIterate.kind)

/-- A solve with what is known of its best iterate and of where it is. -/
structure Seeking (F : Tensor A → P → Attempt A (Tensor A)) (setup : Setup A P)
    (b s : Session A P) : Prop extends Solving setup b s where
  frame : setup.engine = .inPlace → s.work.iterate.frame = b.work.iterate.frame
  best : Known F setup b s.monitor.bestIterate s.work.iterate
  unmet : s.status ≠ .success → Unmet setup b s
  ofKind : Residual.Conforms F → ∃ κ, s.work.OfKind κ
  consistent : Residual.Conforms F → s.Consistent F

/-- A probe of arrays that are overwritten stays in their frame. -/
theorem Probe.Valid.frame {x : Probe A} (hx : x.Valid setup c) (he : setup.engine = .inPlace) :
    x.iterate.frame = c.work.iterate.frame ∧ x.residual.frame = c.work.iterate.frame := by
  obtain ⟨f, hf⟩ := hx.ordered he
  exact ⟨hf.iterate.trans hf.previous.symm, hf.trial.trans hf.previous.symm⟩

namespace Seeking

variable {x : Probe A} {m : Monitor A}

/-- A search keeps the parameter that it began with. -/
theorem parameter (h : Seeking F setup b c) : c.parameter = b.parameter :=
  congrArg Settings.parameter h.settings

/-- Where a step went and the criterion did not hold, the point is rejected. -/
theorem rejected (h : Seeking F setup b c) (hc : c.Ordered setup) (hx : x.Valid setup c)
    (hmisses : c.criterion setup x.residual x.iterate = .ok false) :
    Rejected setup b x.iterate := by
  refine ⟨c.evaluations, c.work.trial, x.residual, ?_, ?_, ?_⟩
  · intro he
    obtain ⟨f, hf⟩ := hc he
    exact (hf.trial.trans hf.iterate.symm).trans (h.frame he)
  · rw [← h.parameter]
    exact hx.residual
  · rw [← criterion_of_settings h.settings]
    exact hmisses

/-- After a check the best iterate is the one before it, or the point that the check rejected. -/
theorem known (h : Seeking F setup b c) (hc : c.Ordered setup) (hx : x.Valid setup c) {stop : Bool}
    (hm : c.monitor.check setup.norm x.residual x.iterate = (.ok stop, m)) :
    Known F setup b m.bestIterate x.iterate := by
  have hkept : Known F setup b c.monitor.bestIterate x.iterate :=
    { h.best with
      kind := fun hF => by
        obtain ⟨κ, hκ⟩ := h.ofKind hF
        rw [h.best.kind hF, hκ.iterate, hx.kind hκ] }
  rcases Monitor.check_eq_ok hm with ⟨-, -, rfl⟩ | ⟨hmisses, -⟩
  · exact hkept
  · have hnoted := c.monitor.bestIterate_check setup.norm x.residual x.iterate
    rw [hm] at hnoted
    rcases hnoted with hbest | hbest
    · rwa [show m.bestIterate = c.monitor.bestIterate from hbest]
    · rw [show m.bestIterate = x.iterate from hbest]
      exact
        { candidate := .inr (h.rejected hc hx hmisses)
          frame := fun he => (hx.frame he).1.trans (h.frame he)
          kind := fun _ => rfl }

/-- A return to the best iterate reaches it, unless the arrays are replaced and have changed their
kind. -/
theorem landed (h : Seeking F setup b c) (hx : x.Valid setup c) {point u : Tensor A}
    (hknown : Known F setup b point x.iterate)
    (hu : Workspace.Landing setup.engine (c.probed x).work point u) :
    u = point ∨ (setup.engine = .rebuilding ∧ u.kind ≠ point.kind) := by
  have hframe (he : setup.engine = .inPlace) : point.frame = x.iterate.frame :=
    (hknown.frame he).trans ((hx.frame he).1.trans (h.frame he)).symm
  by_cases hkind : point.kind = x.iterate.kind
  · exact .inl (hu.exact hkind fun he => Tensor.shape_congr (hframe he))
  · refine .inr ⟨?_, fun hsame => hkind (hsame.symm.trans hu.kind)⟩
    cases he : setup.engine with
    | inPlace => exact absurd (Tensor.kind_congr (hframe he)) hkind
    | rebuilding => rfl

/-- A return to the best iterate ends where the criterion does not hold or where the solve began. -/
theorem restored (h : Seeking F setup b c) (hR : setup.residual.Computes F) (hx : x.Valid setup c)
    (hknown : Known F setup b m.bestIterate x.iterate) {u v : Tensor A}
    (hu : Workspace.Landing setup.engine (c.probed x).work m.bestIterate u)
    (hv : (setup.residual.evaluate (c.evaluations + 1) x.residual u c.parameter).1 = .ok v)
    (hback : s'.status.fallsBack = true) (hiterate : s'.work.iterate = u)
    (hresidual : s'.work.residual = v) (hbest : s'.monitor.bestIterate = m.bestIterate) :
    Unmet setup b s' := by
  rcases h.landed hx hknown hu with hexact | ⟨hengine, hkind⟩
  · rcases hknown.candidate with hbegan | hrejected
    · exact .returned hback (by rw [hiterate, hexact, hbegan])
    · refine .missed ?_
      rw [hiterate, hresidual]
      rw [← hexact] at hrejected
      rw [h.parameter] at hv
      exact hrejected.again hR (fun he => (hx.frame he).2.trans (h.frame he)) hv
  · refine .converted hback hengine ?_
    rw [hiterate, hbest]
    exact hkind

/-- A step that answers keeps what is known. -/
theorem stepped (h : Seeking F setup b c) (hR : setup.residual.Computes F) (hc : c.Ordered setup)
    (hgoing : c.stopped = false) (hadvance : (advance setup).outcome c = (.ok (), s')) :
    Seeking F setup b s' := by
  have hstep := of_advance hc hadvance
  have hsolving := h.toSolving.stepped hc hgoing hadvance
  have hofKind (hF : Residual.Conforms F) : ∃ κ, s'.work.OfKind κ :=
    (((Workspace.preserved_ofKind hR hF).stable.session_advance ⟨hc, h.ofKind hF⟩).of_ok hadvance).2
  have hconsistent (hF : Residual.Conforms F) : s'.Consistent F := hstep.consistent hR hF
  cases hstep with
  | @concluded x m _ hx hm hend =>
    have hknown := h.known hc hx hm
    have hframe (he : setup.engine = .inPlace) : x.iterate.frame = b.work.iterate.frame :=
      (hx.frame he).1.trans (h.frame he)
    cases hend with
    | stayed hstays =>
      refine ⟨hsolving, hframe, hknown, fun hunmet => ?_, hofKind, hconsistent⟩
      rcases Monitor.check_eq_ok hm with ⟨-, -, hsuccess⟩ | ⟨-, hback⟩
      · exact absurd (congrArg Monitor.status hsuccess) hunmet
      · cases (hback rfl).symm.trans hstays
    | @restored u v transcript origin shared hback hu hv =>
      have hlanded : u.kind = x.iterate.kind := hu.kind
      refine ⟨hsolving, fun he => (hu.frame he).trans (hframe he), ?_, fun _ => ?_, hofKind,
        hconsistent⟩
      · exact { hknown with kind := fun hF => (hknown.kind hF).trans hlanded.symm }
      · exact h.restored hR hx hknown ⟨hu.kind, hu.frame, hu.shape, hu.exact⟩ hv hback rfl rfl rfl
  | @refined x m _ hx hm hrest =>
    have hkept := hrest.kept
    have hiterate : s'.work.iterate = x.iterate := hkept.iterate
    have hresidual : s'.work.residual = x.residual := by cases hrest <;> rfl
    refine ⟨hsolving, fun he => ?_, ?_, fun _ => .missed ?_, hofKind, hconsistent⟩
    · rw [hiterate]
      exact (hx.frame he).1.trans (h.frame he)
    · rw [hkept.monitor, hiterate]
      exact h.known hc hx hm
    · rw [hiterate, hresidual, ← criterion_of_settings h.settings]
      rcases Monitor.check_eq_ok hm with ⟨-, hstop, -⟩ | ⟨hmisses, -⟩
      · cases hstop
      · exact hmisses

/-- The end of the budget leaves a solve where it is. -/
theorem exhausted (h : Seeking F setup b s) (hgoing : s.stopped = false) :
    Seeking F setup b { s with status := .iterationsExhausted, stopped := true } := by
  have hrunning := h.running hgoing
  have hunmet := h.unmet (by rw [hrunning]; exact nofun)
  have hforward : s.status.fallsBack = false := by rw [hrunning]; rfl
  have hsolving := (tracks_solving b).exhaust (l := []) h.toSolving hgoing
  refine { h with toSolving := hsolving, unmet := fun _ => ?_ }
  cases hunmet with
  | waiting hsteps hiterate => exact .waiting hsteps hiterate
  | missed hmisses => exact .missed hmisses
  | returned hback => cases hforward.symm.trans hback
  | converted hback => cases hforward.symm.trans hback

end Seeking

/-- What is known is kept as long as steps answer. -/
theorem tracks_seeking (hR : setup.residual.Computes F) (b : Session A P) :
    Tracks setup fun _ s => Seeking F setup b s where
  advance h hs hgoing hadvance := h.stepped hR hs hgoing hadvance
  exhaust h hgoing := h.exhausted hgoing
  lines transcript h := by
    have hsolving := (tracks_solving b).lines (l := []) transcript h.toSolving
    refine { h with toSolving := hsolving, unmet := fun hunmet => ?_ }
    cases h.unmet hunmet with
    | waiting hsteps hiterate => exact .waiting hsteps hiterate
    | missed hmisses => exact .missed hmisses
    | returned hback hiterate => exact .returned hback hiterate
    | converted hback hengine hkind => exact .converted hback hengine hkind

/-! ## Reports -/

/-- A solve that begins has been nowhere else. -/
theorem Cleared.seeking (h : b.Cleared) (hofKind : Residual.Conforms F → ∃ κ, b.work.OfKind κ)
    (hconsistent : Residual.Conforms F → b.Consistent F) : Seeking F setup b b where
  toSolving := h.solving
  frame := fun _ => rfl
  best :=
    { candidate := .inl h.point
      frame := fun _ => congrArg Tensor.frame h.point
      kind := fun _ => congrArg Tensor.kind h.point }
  unmet := fun _ => .waiting (by rw [h.statistics]; rfl) rfl
  ofKind := hofKind
  consistent := hconsistent

/-- If residuals conform and the criterion does not hold where the solve began, it does not hold
where the solve is as long as that is not marked as a success. -/
theorem Seeking.missed (h : Seeking F setup b s) (hF : Residual.Conforms F)
    (hb : b.Consistent F) (hbegan : b.criterion setup b.work.residual b.work.iterate ≠ .ok true)
    (hunmet : s.status ≠ .success) :
    b.criterion setup s.work.residual s.work.iterate ≠ .ok true := by
  have hsame (hiterate : s.work.iterate = b.work.iterate) :
      b.criterion setup s.work.residual s.work.iterate ≠ .ok true := by
    have hconsistent := h.consistent hF
    rw [Consistent, hiterate, h.parameter] at hconsistent
    rw [hiterate, Except.ok.inj (hconsistent.symm.trans hb)]
    exact hbegan
  cases h.unmet hunmet with
  | waiting _ hiterate => exact hsame hiterate
  | missed hmisses =>
    intro hholds
    cases hmisses.symm.trans hholds
  | returned _ hiterate => exact hsame hiterate
  | converted _ _ hkind => exact absurd (h.best.kind hF).symm hkind

/-- If a solve reports a failure, the criterion in effect does not hold of what it reports, or it
reports the point where it began, as no step was taken or the best iterate was there; if arrays are
replaced and have changed their kind, what it reports is not the best iterate itself. With residuals
of the kind and the shape of the iterate it follows that the criterion does not hold of what it
reports unless it holds where the solve began. -/
theorem failure_missed (hR : setup.residual.Computes F) {request : Request A P} {s₀ : Session A P}
    {n : Nat} (hstart : start setup request = (.ok s₀, n)) {past present : List (Operation A P)}
    (hpast : ∀ op ∈ past, op.IsSolving) (hrenews : Renews setup s₀ past)
    (hb : b = after setup s₀ past) (hpresent : ∀ op ∈ present, op.TakesSteps)
    (hanswer : Completes setup b present) {r : Report A}
    (hrun : (run setup).outcome (after setup b present) = (.ok r, s))
    (hfailure : r.success = false) :
    (b.criterion setup r.residual r.iterate = .ok false ∨
      (r.iterate = b.work.iterate ∧ (r.steps = 0 ∨ r.status.fallsBack = true)) ∨
      (setup.engine = .rebuilding ∧ r.status.fallsBack = true ∧
        r.iterate.kind ≠ s.monitor.bestIterate.kind)) ∧
    (Residual.Conforms F → b.criterion setup b.work.residual b.work.iterate ≠ .ok true →
      b.criterion setup r.residual r.iterate ≠ .ok true ∧
      ∀ x y, b.monitor.tolerances = ⟨.number x, .number y⟩ →
        ¬b.monitor.condition.mode.Criterion setup.norm x y r.residual r.iterate) := by
  have hcleared := (hrenews.counted hstart).1
  have hordered := (Workspace.stable_ordered setup).after hstart hpast
  rw [← hb] at hcleared hordered
  have hconsistent (hF : Residual.Conforms F) : b.Consistent F := by
    rw [hb]
    exact (hrenews.opened hR hF hstart hpast).consistent
  have hofKind (hF : Residual.Conforms F) : ∃ κ, b.work.OfKind κ := by
    rw [hb]
    exact ((Workspace.preserved_ofKind hR hF).stable.after hstart hpast).2
  have hseeking : Seeking F setup b s := (tracks_seeking hR b).after_run (l := []) hpresent hanswer
    (hcleared.seeking hofKind hconsistent) hordered hrun
  obtain ⟨norm, -, rfl⟩ := of_run hrun
  have hunmet : s.status ≠ .success := by
    intro hsuccess
    change (s.status == .success) = false at hfailure
    rw [hsuccess] at hfailure
    cases hfailure
  constructor
  · cases hseeking.unmet hunmet with
    | waiting hsteps hiterate => exact .inr (.inl ⟨hiterate, .inl hsteps⟩)
    | missed hmisses => exact .inl hmisses
    | returned hback hiterate => exact .inr (.inl ⟨hiterate, .inr hback⟩)
    | converted hback hengine hkind => exact .inr (.inr ⟨hengine, hback, hkind⟩)
  · intro hF hbegan
    have hmissed := hseeking.missed hF (hconsistent hF) hbegan hunmet
    refine ⟨hmissed, fun x y htolerances hmeets => hmissed ?_⟩
    rw [criterion, htolerances]
    exact (Mode.holds_eq_true_iff _ (hF _ _ _ (hseeking.consistent hF))).mpr hmeets

open QuasiNewton.Affine in
/-- Twice the iterate less the parameter is reflected by the first step: a solve that allows one
check without a new best norm fails where it started, and the criterion does not hold there. -/
theorem failure_missed_affine :
    ∃ s₀ n r s, start problem request = (.ok s₀, n) ∧
      (run problem).outcome (after problem (after problem s₀ impatience) [.steps 1]) =
        (.ok r, s) ∧
      r.success = false ∧
      (after problem s₀ impatience).criterion problem r.residual r.iterate ≠ .ok true := by
  obtain ⟨s₀, n, hstart, hrestart, hbegan, hstep, hfailed⟩ := exists_started problem request
    (fun s => (∃ a, ((restart problem impatient).outcome (after problem s [.steps 1])).1 = .ok a) ∧
      ((after problem s impatience).criterion problem (after problem s impatience).work.residual
        (after problem s impatience).work.iterate).toOption ≠ some true ∧
      Completes problem (after problem s impatience) [.steps 1] ∧
      ((run problem).outcome (after problem s (impatience ++ [.steps 1]))).1.toOption.any
        (fun r => !r.success) = true) (by decide +kernel)
  obtain ⟨⟨⟩, ha⟩ := hrestart
  rcases hrun : (run problem).outcome (after problem s₀ (impatience ++ [.steps 1])) with ⟨e | r, s⟩
  · rw [hrun] at hfailed
    cases hfailed
  · rw [hrun] at hfailed
    have hfailure : r.success = false := (Bool.not_eq_true' r.success).mp hfailed
    rw [after_append] at hrun
    have hmissed := failure_missed (computes_residual 2) hstart (by decide)
      (.inr ⟨[.steps 1], impatient, _, rfl, Prod.ext ha rfl⟩) rfl (by decide) hstep hrun hfailure
    exact ⟨s₀, n, r, s, hstart, hrun, hfailure,
      (hmissed.2 (conforms_residual 2) fun hholds => hbegan (congrArg Except.toOption hholds)).1⟩

end Session

end QuasiNewton
