import QuasiNewton.Proofs.Endings

/-!
# Sessions abreast

Where a solve is cut depends on its monitor, its tolerances and its budgets. The parts of a step
around the question to the monitor read none of them: two sessions that differ in these and in their
lines only are abreast, and those parts answer the same from both and keep them abreast.
-/

namespace QuasiNewton

variable {A : Arithmetic} {P : Type} {α β : Type}

/-- What decides where a solve is cut. -/
structure Cut (A : Arithmetic) where
  monitor : Monitor A
  tolerances : Tolerances A
  budget : Quantity A.Real

/-- The same method with another budget of resets. -/
def Setup.allowing (setup : Setup A P) (resetBudget : Quantity A.Real) : Setup A P :=
  { setup with options := { setup.options with resetBudget } }

namespace Session

/-- Where the session is cut. -/
def cut (s : Session A P) : Cut A where
  monitor := s.monitor
  tolerances := s.tolerances
  budget := s.budget

/-- The session with another cut and other lines. -/
def under (s : Session A P) (c : Cut A) (transcript : List (Line A.Real)) : Session A P :=
  { s with monitor := c.monitor, tolerances := c.tolerances, budget := c.budget, transcript }

end Session

namespace Action

/-- With another cut and other lines in front of it the second action answers as the first, and
leads to the same session but for them. -/
def Oblivious (c : Cut A) (x y : Action A P α) (s : Session A P) : Prop :=
  ∀ transcript, ∃ transcript',
    y.outcome (s.under c transcript) = ((x.outcome s).1, (x.outcome s).2.under c transcript')

namespace Oblivious

variable {c : Cut A} {x y : Action A P α} {f g : α → Action A P β} {s s' : Session A P}

/-- An answer of the first action is one of the second, which leads to the same session but for cut
and lines. -/
theorem of_ok (h : Oblivious c x y s) {a : α} (hx : x.outcome s = (.ok a, s'))
    (transcript : List (Line A.Real)) :
    ∃ transcript', y.outcome (s.under c transcript) = (.ok a, s'.under c transcript') := by
  obtain ⟨l, hl⟩ := h transcript
  rw [hx] at hl
  exact ⟨l, hl⟩

/-- What does not read the cut does not change it. -/
theorem cut_eq (h : Oblivious s.cut x x s) {a : Except (Fault A.Real) α}
    (hx : x.outcome s = (a, s')) : s'.cut = s.cut := by
  obtain ⟨l, hl⟩ := h s.transcript
  change x.outcome s = _ at hl
  rw [hx] at hl
  have hs' : s' = s'.under s.cut l := (Prod.mk.inj hl).2
  exact (congrArg Session.cut hs').trans rfl

/-! ## Rules -/

/-- An answer that is known does not read the cut. -/
theorem of_pure (a : α) : Oblivious c (pure a) (pure a) s := fun l => ⟨l, rfl⟩

/-- Nor does an attempt. -/
theorem of_attempt (z : Attempt A α) :
    Oblivious c (Session.attempt z) (Session.attempt z) s := by
  intro l
  rw [Session.outcome_attempt, Session.outcome_attempt]
  exact ⟨l, rfl⟩

/-- Nor does a change of the session that commutes with another cut and other lines. -/
theorem of_modify {g g' : Session A P → Session A P}
    (h : ∀ transcript, ∃ transcript', g' (s.under c transcript) = (g s).under c transcript') :
    Oblivious c (modify g) (modify g') s := by
  intro l
  obtain ⟨l', hl'⟩ := h l
  exact ⟨l', congrArg (Prod.mk (Except.ok ())) hl'⟩

/-- An action goes on from where the one before it led. -/
theorem bind (hx : Oblivious c x y s)
    (hf : ∀ a s', x.outcome s = (.ok a, s') → Oblivious c (f a) (g a) s') :
    Oblivious c (x >>= f) (y >>= g) s := by
  intro l
  obtain ⟨l₁, h₁⟩ := hx l
  rw [outcome_bind, outcome_bind, h₁]
  rcases h : x.outcome s with ⟨e | a, s'⟩
  · exact ⟨l₁, rfl⟩
  · exact hf a s' h l₁

/-- What depends on the session does not read the cut if it reads something else only, and neither
does what follows. -/
theorem get_bind {f g : Session A P → Action A P β} (h : Oblivious c (f s) (g s) s)
    (hread : ∀ transcript, g (s.under c transcript) = g s) :
    Oblivious c (get >>= f) (get >>= g) s := by
  intro l
  rw [outcome_get_bind, outcome_get_bind, hread]
  exact h l

/-- A change of the arrays does not read the cut. -/
theorem of_rework (change : Workspace A → Attempt A (Workspace A)) :
    Oblivious c (Session.rework change) (Session.rework change) s :=
  .get_bind (.bind (.of_attempt _) fun _ _ _ => .of_modify fun l => ⟨l, rfl⟩) fun _ => rfl

/-- A change of the arrays comes before what makes an exception of the session it ends in. -/
theorem rework_bind_or {E : Session A P → Prop} {change : Workspace A → Attempt A (Workspace A)}
    {f g : Unit → Action A P β} (h : ∀ w, change s.work = .ok w →
      E ((f ()).outcome { s with work := w }).2 ∨
        Oblivious c (f ()) (g ()) { s with work := w }) :
    E ((Session.rework change >>= f).outcome s).2 ∨
      Oblivious c (Session.rework change >>= f) (Session.rework change >>= g) s := by
  have hrework := Session.outcome_rework change s
  cases hw : change s.work with
  | error e =>
    rw [hw] at hrework
    refine .inr (.bind (.of_rework change) fun a s' hs' => ?_)
    rw [hrework] at hs'
    cases hs'
  | ok w =>
    rw [hw] at hrework
    rw [outcome_bind, hrework]
    refine (h w hw).imp_right fun hrest => .bind (.of_rework change) fun a s' hs' => ?_
    rw [hrework] at hs'
    cases hs'
    exact hrest

/-- So does an attempt. -/
theorem attempt_bind_or {E : Session A P → Prop} {z : Attempt A α}
    (h : ∀ a, z = .ok a → E ((f a).outcome s).2 ∨ Oblivious c (f a) (g a) s) :
    E ((Session.attempt z >>= f).outcome s).2 ∨
      Oblivious c (Session.attempt z >>= f) (Session.attempt z >>= g) s := by
  cases z with
  | error e => exact .inr fun l => ⟨l, rfl⟩
  | ok a => exact h a rfl

end Oblivious

end Action

namespace Session

open QuasiNewton.Action

variable (setup : Setup A P) {q : Quantity A.Real} {c : Cut A} {s s' : Session A P}

/-! ## Reports -/

/-- Whether lines are wanted does not depend on the cut or on the budget of resets. -/
theorem oblivious_speaks (level : Int) :
    Oblivious c (speaks setup level) (speaks (setup.allowing q) level) s :=
  .bind (.of_attempt _) fun _ _ _ => .of_pure _

/-- What is reported does not matter. -/
theorem oblivious_log (what what' : Event A.Real) :
    Oblivious c (log setup what) (log (setup.allowing q) what') s := by
  refine .bind (oblivious_speaks setup 2) fun speaks _ _ => ?_
  cases speaks with
  | true => exact .get_bind (.of_modify fun _ => ⟨_, rfl⟩) fun _ => rfl
  | false => exact .of_pure ()

/-- So a report may read the session. -/
theorem oblivious_get_log (what what' : Session A P → Event A.Real) :
    Oblivious c (get >>= fun s => log setup (what s))
      (get >>= fun s => log (setup.allowing q) (what' s)) s := by
  intro l
  rw [outcome_get_bind, outcome_get_bind]
  exact oblivious_log setup (what s) (what' (s.under c l)) l

/-- Sessions with the same tolerances are announced alike, but for their budgets. -/
theorem oblivious_announce (hc : c.tolerances = s.tolerances) :
    Oblivious c (announce setup) (announce (setup.allowing q)) s := by
  refine .bind (oblivious_speaks setup 1) fun speaks t ht => ?_
  have hkept : (Session.speaks setup 1).Keeps (id : Session A P → Session A P) :=
    keeps_speaks setup 1
  obtain rfl : t = s := hkept.eq_of_outcome ht
  cases speaks with
  | false => exact .of_pure ()
  | true =>
    intro l
    rw [if_pos rfl, if_pos rfl, outcome_get_bind, outcome_get_bind,
      show (t.under c l).tolerances = t.tolerances from hc]
    have hreports (line line' : Quantity A.Real → Quantity A.Real → Line A.Real) : Oblivious c
        (attempt (reportable t.tolerances.absolute) >>= fun a =>
          attempt (reportable t.tolerances.relative) >>= fun r => report (line a r))
        (attempt (reportable t.tolerances.absolute) >>= fun a =>
          attempt (reportable t.tolerances.relative) >>= fun r => report (line' a r)) t :=
      .bind (.of_attempt _) fun _ _ _ => .bind (.of_attempt _) fun _ _ _ =>
        .of_modify fun _ => ⟨_, rfl⟩
    exact hreports _ _ l

/-- The lines about the progress of a run are reported under every cut. -/
theorem oblivious_progress : Oblivious c (progress setup) (progress (setup.allowing q)) s := by
  refine .bind (oblivious_speaks setup 1) fun speaks t _ => ?_
  cases speaks with
  | false => exact .of_pure ()
  | true =>
    refine .get_bind ?_ fun _ => rfl
    by_cases htenth : t.statistics.steps % 10 = 0
    · simp only [if_pos htenth]
      exact .bind (.of_attempt _) fun _ _ _ => .of_modify fun _ => ⟨_, rfl⟩
    · simp only [if_neg htenth]
      exact .of_pure ()

/-- The report is the same. -/
theorem oblivious_close : Oblivious c (close setup) (close (setup.allowing q)) s := by
  refine .get_bind (.bind (.of_attempt _) fun norm _ _ =>
    .bind (oblivious_speaks setup 0) fun speaks _ _ => ?_) fun _ => rfl
  cases speaks with
  | true =>
    exact .bind (.of_modify fun _ => ⟨_, rfl⟩) fun _ _ _ => .bind (.of_modify fun _ => ⟨_, rfl⟩)
      fun _ _ _ => .bind (.of_modify fun _ => ⟨_, rfl⟩) fun _ _ _ => .of_pure _
  | false => exact .of_pure _

/-! ## The parts of a step -/

/-- The caller's array is settled under every cut. -/
theorem oblivious_settleOrigin :
    Oblivious c (settleOrigin setup) (settleOrigin (setup.allowing q)) s := by
  refine .of_modify fun l => ⟨l, ?_⟩
  have hengine : (setup.allowing q).engine = setup.engine := rfl
  have hunder : (s.under c l).shared = s.shared := rfl
  rw [hengine, hunder]
  cases setup.engine with
  | rebuilding => rfl
  | inPlace => cases s.shared <;> rfl

/-- The residual is evaluated under every cut. -/
theorem oblivious_evaluate (array : Tensor A) :
    Oblivious c (evaluate setup array) (evaluate (setup.allowing q) array) s :=
  .get_bind (.bind (.of_modify fun l => ⟨l, rfl⟩) fun _ _ _ => .of_attempt _) fun _ => rfl

/-- Moves to a point do not read the cut. -/
theorem oblivious_moveTo (point : Tensor A) :
    Oblivious c (moveTo setup point) (moveTo (setup.allowing q) point) s :=
  .bind (.of_rework _) fun _ _ _ => .bind (oblivious_settleOrigin setup) fun _ _ _ =>
    .get_bind (.bind (oblivious_evaluate setup _) fun _ _ _ => .of_modify fun l => ⟨l, rfl⟩)
      fun _ => rfl

/-- Nor does the first half of a step. -/
theorem oblivious_probe : Oblivious c (probe setup) (probe (setup.allowing q)) s :=
  .bind (.of_rework _) fun _ _ _ => .bind
    (.get_bind (.bind (.of_modify fun l => ⟨l, rfl⟩) fun _ _ _ => .of_attempt _) fun _ => rfl)
    fun _ _ _ => .bind (.of_rework _) fun _ _ _ => .bind (oblivious_settleOrigin setup) fun _ _ _ =>
    .get_bind (.bind (oblivious_evaluate setup _) fun _ _ _ =>
      .bind (.of_modify fun l => ⟨l, rfl⟩) fun _ _ _ => .of_modify fun l => ⟨l, rfl⟩) fun _ => rfl

/-- Monitors that stop for the same cause end sessions the same way; they have to know the same best
iterate if it is restored. -/
theorem oblivious_conclude (hstatus : c.monitor.status = s.monitor.status)
    (hbest : s.monitor.status.fallsBack = true →
      c.monitor.bestIterate = s.monitor.bestIterate) :
    Oblivious c (conclude setup) (conclude (setup.allowing q)) s := by
  have hended (l : List (Line A.Real)) :
      ({ s.under c l with status := (s.under c l).monitor.status, stopped := true } :
        Session A P) = ({ s with status := s.monitor.status, stopped := true }).under c l :=
    congrArg (fun status => ({ s.under c l with status, stopped := true } : Session A P)) hstatus
  refine .bind (.of_modify fun l => ⟨l, hended l⟩) fun _ s₁ h₁ => ?_
  refine .bind (.of_rework _) fun _ s₂ h₂ => .get_bind ?_ fun _ => rfl
  obtain rfl := (Prod.mk.inj h₁).2
  have hmonitor : s₂.status = s.monitor.status ∧ s₂.monitor = s.monitor := by
    have hkept : (rework (Workspace.commit setup.engine) : Action A P Unit).Keeps
        fun s => (s.status, s.monitor) := .of_rework fun _ _ _ => rfl
    exact Prod.mk.inj (hkept.eq_of_outcome h₂)
  by_cases hback : s₂.status.fallsBack = true
  · simp only [if_pos hback]
    rw [hmonitor.1] at hback
    have hsame : c.monitor.bestIterate = s₂.monitor.bestIterate :=
      (hbest hback).trans (congrArg Monitor.bestIterate hmonitor.2).symm
    intro l
    have hrest : Oblivious c
        (moveTo setup s₂.monitor.bestIterate >>= fun _ => count .evaluations >>= fun _ =>
          get >>= fun s => log setup (.restored s.status s.monitor.best))
        (moveTo (setup.allowing q) s₂.monitor.bestIterate >>= fun _ => count .evaluations >>=
          fun _ => get >>= fun s => log (setup.allowing q) (.restored s.status s.monitor.best))
        s₂ :=
      .bind (oblivious_moveTo setup _) fun _ _ _ => .bind (.of_modify fun l => ⟨l, rfl⟩)
        fun _ _ _ => oblivious_get_log setup _ _
    obtain ⟨l', hl'⟩ := hrest l
    refine ⟨l', Eq.trans ?_ hl'⟩
    rw [restoreBest, outcome_get_bind]
    rw [show (s₂.under c l).monitor.bestIterate = s₂.monitor.bestIterate from hsame]
  · simp only [if_neg hback]
    exact .of_pure ()

/-- Nor does a correction. -/
theorem oblivious_correct : Oblivious c (correct setup) (correct (setup.allowing q)) s := by
  refine .get_bind (.bind (.of_attempt _) fun (_, guarded) _ _ =>
    .bind (.of_modify fun l => ⟨l, rfl⟩) fun _ _ _ => ?_) fun _ => rfl
  cases guarded with
  | true => exact .bind (.of_modify fun l => ⟨l, rfl⟩) fun _ _ _ => oblivious_log setup _ _
  | false => exact .of_pure ()

/-- A reset does not read the cut, and two budgets that are both used up or both not make no
difference to it. -/
theorem oblivious_resetOrStop (hsame : q.isReachedBy (M := A.toMagnitudes) s.resets =
    setup.options.resetBudget.isReachedBy (M := A.toMagnitudes) s.resets) :
    Oblivious c (resetOrStop setup) (resetOrStop (setup.allowing q)) s := by
  refine .get_bind ?_ fun _ => rfl
  change Oblivious c (if setup.options.resetBudget.isReachedBy (M := A.toMagnitudes) s.resets = true
    then _ else _) (if q.isReachedBy (M := A.toMagnitudes) s.resets = true then _ else _) s
  rw [hsame]
  split
  · exact .bind (.of_modify fun l => ⟨l, rfl⟩) fun _ _ _ => oblivious_log setup _ _
  · exact .bind (.of_rework _) fun _ _ _ => .bind (.of_modify fun l => ⟨l, rfl⟩) fun _ _ _ =>
      oblivious_get_log setup _ _

/-- Once the budget of resets is used up, the next reset ends the session, whether the report of it
answers or fails. -/
theorem verdict_resetOrStop
    (h : setup.options.resetBudget.isReachedBy (M := A.toMagnitudes) s.resets = true) :
    ((resetOrStop setup).outcome s).2.verdict = (.resetsExhausted, true) := by
  rw [resetOrStop, outcome_get_bind, if_pos h, outcome_modify_bind]
  exact (keeps_log setup _).map verdict _

/-- What makes an exception of the sessions that resets end in makes one of the step. -/
theorem oblivious_refine_or {E : Session A P → Prop} (hreset : ∀ work,
    E ((resetOrStop setup).outcome { s with work }).2 ∨
      Oblivious c (resetOrStop setup) (resetOrStop (setup.allowing q)) { s with work }) :
    E ((refine setup).outcome s).2 ∨
      Oblivious c (refine setup) (refine (setup.allowing q)) s := by
  refine Oblivious.rework_bind_or fun w _ => Oblivious.rework_bind_or fun w' _ => ?_
  have hrest := Oblivious.attempt_bind_or (c := c) (s := { s with work := w' }) (E := E)
    (z := s.resetCheck.anyNegligible w'.direction w'.change)
    (f := fun small => if small then resetOrStop setup else correct setup)
    (g := fun small =>
      if small then resetOrStop (setup.allowing q) else correct (setup.allowing q))
    fun small _ => by
      cases small with
      | true => exact hreset w'
      | false => exact .inr (oblivious_correct setup)
  exact hrest.imp_right fun h => .get_bind h fun _ => rfl

/-- The second half of a step that goes on does not read the cut. -/
theorem oblivious_refine : Oblivious c (refine setup) (refine setup) s :=
  (oblivious_refine_or setup (q := setup.options.resetBudget) (E := fun _ => False)
    fun _ => .inr (oblivious_resetOrStop setup rfl)).resolve_left id

/-- A larger budget of resets makes no difference until the smaller one is used up. -/
theorem oblivious_refine_of_larger
    (hq : q.isReachedBy (M := A.toMagnitudes) s.resets = true →
      setup.options.resetBudget.isReachedBy (M := A.toMagnitudes) s.resets = true) :
    ((refine setup).outcome s).2.verdict = (.resetsExhausted, true) ∨
      Oblivious c (refine setup) (refine (setup.allowing q)) s := by
  refine oblivious_refine_or setup (E := fun s' => s'.verdict = (.resetsExhausted, true))
    fun w => ?_
  cases hreached : setup.options.resetBudget.isReachedBy (M := A.toMagnitudes) s.resets with
  | true => exact .inl (verdict_resetOrStop setup hreached)
  | false =>
    have hnot := Bool.eq_false_iff.mpr fun h => Bool.eq_false_iff.mp hreached (hq h)
    exact .inr (oblivious_resetOrStop setup (hnot.trans hreached.symm))

/-! ## Whole steps -/

/-- A step that answers has gone along the search direction, has asked the monitor there, and has
ended the session or prepared the next step. -/
theorem outcome_advance_eq_ok {setup : Setup A P} {s s' : Session A P} :
    (advance setup).outcome s = (.ok (), s') ↔
      ∃ s₁ stop m,
        (probe setup).outcome { s with statistics := s.statistics.bump .steps 1 } = (.ok (), s₁) ∧
        s₁.monitor.check setup.norm s₁.work.trial s₁.work.iterate = (.ok stop, m) ∧
        (if stop then conclude setup else refine setup).outcome { s₁ with monitor := m } =
          (.ok (), s') := by
  rw [advance, count, outcome_modify_bind, outcome_bind_eq_ok]
  constructor
  · rintro ⟨_, s₁, hprobe, h⟩
    obtain ⟨stop, s₂, hconsult, h⟩ := outcome_bind_eq_ok.mp h
    rw [outcome_consult] at hconsult
    obtain ⟨hstop, rfl⟩ := Prod.mk.inj hconsult
    exact ⟨s₁, stop, _, hprobe, Prod.ext hstop rfl, h⟩
  · rintro ⟨s₁, stop, m, hprobe, hcheck, h⟩
    refine ⟨(), s₁, hprobe, outcome_bind_eq_ok.mpr ⟨stop, { s₁ with monitor := m }, ?_, h⟩⟩
    rw [outcome_consult, hcheck]

/-- The first half of a step leaves the cut and the resets alone. -/
theorem of_probe_eq_ok {setup : Setup A P} (h : (probe setup).outcome { s with
    statistics := s.statistics.bump .steps 1 } = (.ok (), s')) :
    s'.cut = s.cut ∧ s'.resets = s.resets ∧ s'.stopped = s.stopped ∧ s'.status = s.status ∧
      s'.statistics.steps = s.statistics.steps + 1 := by
  have hsame := (monitorAndVerdict_probe setup).eq_of_outcome h
  have hsettings : s'.settings = s.settings := congrArg (·.1.1) hsame
  have hmonitor : s'.monitor = s.monitor := congrArg (·.2.2) hsame
  refine ⟨?_, congrArg (·.2.1) hsame, congrArg (·.1.2.2.1) hsame,
    congrArg (·.1.2.1) hsame, congrArg (·.1.2.2.2) hsame⟩
  rw [cut, hmonitor, show s'.tolerances = s.tolerances from congrArg Settings.tolerances hsettings,
    show s'.budget = s.budget from congrArg Settings.budget hsettings, cut]

/-- A session that is concluded has ended for the cause its monitor gave, and has taken no further
step. -/
theorem of_conclude_eq_ok {setup : Setup A P} (h : (conclude setup).outcome s = (.ok (), s')) :
    s'.stopped = true ∧ s'.status = s.monitor.status ∧
      s'.statistics.steps = s.statistics.steps := by
  have hkept : ∀ t, ((rework (Workspace.commit setup.engine) >>= fun _ => get >>= fun s =>
      if s.status.fallsBack then restoreBest setup else pure ()).outcome t).2.settingsAndVerdict =
        t.settingsAndVerdict := by
    refine Keeps.bind (.of_rework fun _ _ _ => rfl) fun _ => .get_bind fun s => ?_
    split
    · exact settingsAndVerdict_restoreBest setup
    · exact .of_pure ()
  unfold conclude at h
  rw [outcome_modify_bind] at h
  have hlast := hkept { s with status := s.monitor.status, stopped := true }
  rw [h] at hlast
  exact ⟨congrArg (·.2.2.1) hlast, congrArg (·.2.1) hlast, congrArg (·.2.2.2) hlast⟩

end Session

end QuasiNewton
