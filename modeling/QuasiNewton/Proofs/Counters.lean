import QuasiNewton.Proofs.Trails
import QuasiNewton.Proofs.Verdicts

/-!
# Counters

The counters of a session count what happened since its last start or restart: evaluations of the
residual, calls of a step that found it going, and the steps among these that replaced the inverse
Jacobian by the identity or corrected it with a denominator of zero. What a step did is told from
the session it found and the one it led to, not from the counters.
-/

namespace QuasiNewton

open QuasiNewton.Action

variable {A : Arithmetic} {P : Type} {setup : Setup A P}

namespace Secant

/-- The denominator of a secant update is zero. -/
def Vanishes (inverse direction change : Tensor A) : Prop :=
  ∃ step product raw, direction.neg = .ok step ∧ inverse.matMul change = .ok product ∧
    step.inner product = .ok raw ∧ A.isZero raw.kind (raw.elem 0) = true

/-- The denominators that are replaced are the ones that are zero. -/
theorem guarded_iff {inverse direction change : Tensor A} {u : Update A}
    (h : update inverse direction change = .ok u) :
    u.guarded = true ↔ Vanishes inverse direction change := by
  obtain ⟨step, hstep, h⟩ := Attempt.bind_eq_ok.mp h
  obtain ⟨product, hproduct, h⟩ := Attempt.bind_eq_ok.mp h
  obtain ⟨row, -, h⟩ := Attempt.bind_eq_ok.mp h
  obtain ⟨⟨denom, guarded⟩, hdenom, h⟩ := Attempt.bind_eq_ok.mp h
  obtain ⟨gap, -, h⟩ := Attempt.bind_eq_ok.mp h
  obtain ⟨column, -, h⟩ := Attempt.bind_eq_ok.mp h
  obtain ⟨inverse', -, h⟩ := Attempt.bind_eq_ok.mp h
  obtain rfl := Attempt.pure_eq_ok.mp h
  obtain ⟨raw, hraw, hdenom⟩ := Attempt.bind_eq_ok.mp hdenom
  have hguarded : guarded = true ↔ A.isZero raw.kind (raw.elem 0) = true := by
    by_cases hzero : A.isZero raw.kind (raw.elem 0) = true
    · rw [if_pos hzero] at hdenom
      cases hdenom
      exact ⟨fun _ => hzero, fun _ => rfl⟩
    · rw [if_neg hzero] at hdenom
      cases hdenom
      exact ⟨nofun, fun h => absurd h hzero⟩
  constructor
  · intro hg
    exact ⟨step, product, raw, hstep, hproduct, hraw, hguarded.mp hg⟩
  · rintro ⟨step', product', raw', hstep', hproduct', hraw', hzero⟩
    obtain rfl := Except.ok.inj (hstep.symm.trans hstep')
    obtain rfl := Except.ok.inj (hproduct.symm.trans hproduct')
    obtain rfl := Except.ok.inj (hraw.symm.trans hraw')
    exact hguarded.mpr hzero

end Secant

namespace Session

variable {b c s s' : Session A P} {l : List (Session A P)} {before : Nat}

/-! ## Sorts of steps -/

/-- The session that a step leads to. -/
def stepped (setup : Setup A P) (c : Session A P) : Session A P := ((step setup).outcome c).2

/-- The step of a session goes somewhere and goes on from there, and the residual has changed. -/
structure Continues (setup : Setup A P) (c : Session A P) (x : Probe A) (y : Tensor A) : Prop where
  probe : x.Valid setup c
  change : x.residual.sub c.work.residual = .ok y
  going : (stepped setup c).stopped = false

/-- The step of a session replaces the inverse Jacobian by the identity. -/
def Resets (setup : Setup A P) (c : Session A P) : Prop :=
  ∃ x y, Continues setup c x y ∧ c.resetCheck.anyNegligible x.direction y = .ok true ∧
    (stepped setup c).work.inverse = Secant.initial x.iterate x.residual

/-- The step of a session corrects the inverse Jacobian by a secant update. Arrays that are
overwritten store what a rank-one update in place leaves of the sum. -/
def Corrects (setup : Setup A P) (c : Session A P) : Prop :=
  ∃ x y u, Continues setup c x y ∧ c.resetCheck.anyNegligible x.direction y = .ok false ∧
    Secant.update c.work.inverse x.direction.flatten y.flatten = .ok u ∧
    u.inverse.Accumulates (stepped setup c).work.inverse

/-- The step of a session corrects the inverse Jacobian, and the denominator is zero. -/
def Guards (setup : Setup A P) (c : Session A P) : Prop :=
  Corrects setup c ∧ ∃ x y, Continues setup c x y ∧
    Secant.Vanishes c.work.inverse x.direction.flatten y.flatten

/-- A session makes one probe only. -/
theorem Probe.Valid.unique {x x' : Probe A} (h : x.Valid setup c) (h' : x'.Valid setup c) :
    x = x' := by
  have hprobed : c.probed x = c.probed x' := (Prod.mk.inj (h.made.symm.trans h'.made)).2
  have hdirection : x.direction = x'.direction := congrArg (·.work.direction) hprobed
  have hlength : x.length = x'.length := by
    have hsame := h.length.symm.trans (hdirection ▸ h'.length)
    exact Except.ok.inj (Prod.mk.inj hsame).1
  obtain ⟨d, α, u, v, n, o, b⟩ := x
  obtain ⟨d', α', u', v', n', o', b'⟩ := x'
  obtain rfl : d = d' := hdirection
  obtain rfl : α = α' := hlength
  obtain rfl : u = u' := congrArg (·.work.iterate) hprobed
  obtain rfl : v = v' := congrArg (·.work.trial) hprobed
  obtain rfl : n = n' := congrArg Session.searches hprobed
  obtain rfl : o = o' := congrArg Session.origin hprobed
  obtain rfl : b = b' := congrArg Session.shared hprobed
  rfl

/-- A step continues in one way only. -/
theorem Continues.unique {x x' : Probe A} {y y' : Tensor A} (h : Continues setup c x y)
    (h' : Continues setup c x' y') : x = x' ∧ y = y' := by
  obtain rfl := h.probe.unique h'.probe
  exact ⟨rfl, Except.ok.inj (h.change.symm.trans h'.change)⟩

/-- No step both resets and corrects. -/
theorem Resets.not_corrects (h : Resets setup c) : ¬Corrects setup c := by
  rintro ⟨x', y', u, hcontinues', hlarge, -, -⟩
  obtain ⟨x, y, hcontinues, hsmall, -⟩ := h
  obtain ⟨rfl, rfl⟩ := hcontinues.unique hcontinues'
  cases hsmall.symm.trans hlarge

/-- What a step that answers does to the counters of resets and of replaced denominators. -/
inductive Sorted (setup : Setup A P) (s s' : Session A P) : Prop
  | ended (hstopped : s'.stopped = true) (hstays : ∀ x y, ¬Continues setup s x y)
    (hresets : s'.resets = s.resets) (hguards : s'.statistics.guards = s.statistics.guards)
  | reset (hgoing : s'.stopped = false) (hsort : Resets setup s)
    (hresets : s'.resets = s.resets + 1) (hguards : s'.statistics.guards = s.statistics.guards)
  | corrected (hgoing : s'.stopped = false) (hsort : Corrects setup s)
    (hplain : ¬Guards setup s) (hresets : s'.resets = s.resets)
    (hguards : s'.statistics.guards = s.statistics.guards)
  | guarded (hgoing : s'.stopped = false) (hsort : Guards setup s) (hresets : s'.resets = s.resets)
    (hguards : s'.statistics.guards = s.statistics.guards + 1)

/-- A step that answers ends the session, resets or corrects, and counts what it does. -/
theorem sorted_advance (hs : s.Ordered setup) (hgoing : s.stopped = false)
    (hadvance : (advance setup).outcome s = (.ok (), s')) : Sorted setup s s' := by
  have hstepped : stepped setup s = s' := by
    rw [stepped, outcome_step_of_not_stopped setup hgoing, hadvance]
  have hstays (hstopped : s'.stopped = true) (x : Probe A) (y : Tensor A) :
      ¬Continues setup s x y := by
    intro h
    have hgoes := h.going
    rw [hstepped, hstopped] at hgoes
    cases hgoes
  cases of_advance hs hadvance with
  | concluded hx hm hend =>
    cases hend with
    | stayed => exact .ended rfl (hstays rfl) rfl rfl
    | restored => exact .ended rfl (hstays rfl) rfl rfl
  | @refined x m _ hx hm hrest =>
    cases hrest with
    | exhausted => exact .ended rfl (hstays rfl) rfl rfl
    | @reset y transcript hy hsmall hbudget =>
      have hcontinues : Continues setup s x y :=
        ⟨hx, hy, (congrArg Session.stopped hstepped).trans hgoing⟩
      exact .reset hgoing ⟨x, y, hcontinues, hsmall, congrArg (·.work.inverse) hstepped⟩ rfl rfl
    | @corrected y d inverse u transcript hy hsmall hu hinverse hd =>
      have hcontinues : Continues setup s x y :=
        ⟨hx, hy, (congrArg Session.stopped hstepped).trans hgoing⟩
      have hstored : (stepped setup s).work.inverse = inverse :=
        congrArg (·.work.inverse) hstepped
      have hcorrects : Corrects setup s :=
        ⟨x, y, u, hcontinues, hsmall, hu, hstored.symm ▸ hinverse⟩
      cases hguarded : u.guarded with
      | true =>
        exact .guarded hgoing ⟨hcorrects, x, y, hcontinues, (Secant.guarded_iff hu).mp hguarded⟩
          rfl rfl
      | false =>
        refine .corrected hgoing hcorrects ?_ rfl rfl
        rintro ⟨-, x', y', hcontinues', hzero⟩
        obtain ⟨rfl, rfl⟩ := hcontinues.unique hcontinues'
        cases hguarded.symm.trans ((Secant.guarded_iff hu).mpr hzero)

/-! ## Counting along a trail -/

open Classical in
/-- How many of the steps taken are of a sort. -/
noncomputable def tally (p : Session A P → Prop) (l : List (Session A P)) : Nat :=
  l.countP fun c => decide (p c)

section

variable {p : Session A P → Prop}

/-- A session of the sort adds one to the tally. -/
theorem tally_snoc_of (h : p s) : tally p (l ++ [s]) = tally p l + 1 := by
  simp [tally, h]

/-- A session of another sort adds nothing. -/
theorem tally_snoc_of_not (h : ¬p s) : tally p (l ++ [s]) = tally p l := by
  simp [tally, h]

end

/-- The counters of a session tell what the steps it has taken did, and what it has cost since the
evaluations counted before. -/
structure Counted (setup : Setup A P) (before : Nat) (l : List (Session A P)) (s : Session A P) :
    Prop where
  calls : (s.evaluations : Int) = before + s.statistics.evaluations
  evaluations : s.statistics.evaluations =
    1 + s.statistics.steps + if s.status.fallsBack then 1 else 0
  steps : s.statistics.steps = l.length
  resets : s.resets = tally (Resets setup) l
  guards : s.statistics.guards = tally (Guards setup) l
  together : s.resets + s.statistics.guards ≤ s.statistics.steps
  corrections : s.stopped = false →
    (tally (Corrects setup) l : Int) = s.statistics.steps - s.resets
  direct : s.statistics.jacobians = 0 ∧ s.statistics.factorizations = 0 ∧
    s.statistics.linearSolves = 0
  running : s.stopped = false → s.status = .running

/-- A session that has just begun has taken no steps. -/
theorem Cleared.counted (h : s.Cleared) (hbefore : s.evaluations = before + 1) :
    Counted setup before [] s := by
  constructor
  case calls =>
    rw [h.statistics, hbefore]
    rfl
  case evaluations =>
    rw [h.statistics, h.status]
    rfl
  case steps =>
    rw [h.statistics]
    rfl
  case resets => exact h.resets
  case guards =>
    rw [h.statistics]
    rfl
  case together =>
    rw [h.statistics, h.resets]
    exact Int.le_refl 0
  case corrections =>
    intro _
    rw [h.statistics, h.resets]
    rfl
  case direct =>
    rw [h.statistics]
    exact ⟨rfl, rfl, rfl⟩
  case running => exact fun _ => h.status

/-- What a step that answers costs. -/
structure Billed (s s' : Session A P) : Prop where
  steps : s'.statistics.steps = s.statistics.steps + 1
  evaluations : s'.statistics.evaluations =
    s.statistics.evaluations + 1 + if s'.status.fallsBack then 1 else 0
  calls : (s'.evaluations : Int) =
    s.evaluations + (s'.statistics.evaluations - s.statistics.evaluations)
  direct : s'.statistics.jacobians = s.statistics.jacobians ∧
    s'.statistics.factorizations = s.statistics.factorizations ∧
    s'.statistics.linearSolves = s.statistics.linearSolves
  running : s'.stopped = false → s'.status = .running

/-- A step of a running session raises the counters by what it did. -/
theorem Stepped.billed (h : Stepped setup s s') (hrunning : s.status = .running) : Billed s s' := by
  cases h with
  | @concluded x m _ hx hm hend =>
    cases hend with
    | stayed hback =>
      have hback : m.status.fallsBack = false := hback
      refine ⟨rfl, ?_, ?_, ⟨rfl, rfl, rfl⟩, nofun⟩
      · rw [hback]
        exact (Int.add_zero _).symm
      · change ((s.evaluations + 1 : Nat) : Int) =
          s.evaluations + (s.statistics.evaluations + 1 - _)
        omega
    | restored hback =>
      have hback : m.status.fallsBack = true := hback
      refine ⟨rfl, ?_, ?_, ⟨rfl, rfl, rfl⟩, nofun⟩
      · rw [hback]
        rfl
      · change ((s.evaluations + 1 + 1 : Nat) : Int) =
          s.evaluations + (s.statistics.evaluations + 1 + 1 - _)
        omega
  | @refined x m _ hx hm hrest =>
    have hcalls : ((s.evaluations + 1 : Nat) : Int) =
        s.evaluations + (s.statistics.evaluations + 1 - s.statistics.evaluations) := by omega
    have hevaluations : s.statistics.evaluations + 1 = s.statistics.evaluations + 1 +
        if s.status.fallsBack then 1 else 0 := by
      rw [hrunning]
      exact (Int.add_zero _).symm
    cases hrest with
    | exhausted => exact ⟨rfl, (Int.add_zero _).symm, hcalls, ⟨rfl, rfl, rfl⟩, nofun⟩
    | reset => exact ⟨rfl, hevaluations, hcalls, ⟨rfl, rfl, rfl⟩, fun _ => hrunning⟩
    | @corrected y d inverse u =>
      cases hguarded : u.guarded with
      | true => exact ⟨rfl, hevaluations, hcalls, ⟨rfl, rfl, rfl⟩, fun _ => hrunning⟩
      | false => exact ⟨rfl, hevaluations, hcalls, ⟨rfl, rfl, rfl⟩, fun _ => hrunning⟩

namespace Sorted

/-- A session that has ended by a step was neither reset nor corrected. -/
theorem not_of_stays (h : ∀ x y, ¬Continues setup s x y) :
    ¬Resets setup s ∧ ¬Corrects setup s ∧ ¬Guards setup s := by
  have hcorrects : ¬Corrects setup s := by
    rintro ⟨x, y, -, hcontinues, -⟩
    exact h x y hcontinues
  refine ⟨?_, hcorrects, fun hguards => hcorrects hguards.1⟩
  rintro ⟨x, y, hcontinues, -⟩
  exact h x y hcontinues

/-- The resets counted tell whether a step reset. -/
theorem resets_iff (h : Sorted setup s s') : Resets setup s ↔ s'.resets = s.resets + 1 := by
  constructor
  · intro hreset
    cases h with
    | ended _ hstays => exact absurd hreset (not_of_stays hstays).1
    | reset _ _ hresets => exact hresets
    | corrected _ hcorrects => exact absurd hcorrects hreset.not_corrects
    | guarded _ hguards => exact absurd hguards.1 hreset.not_corrects
  · intro hcounted
    cases h with
    | ended _ _ hresets => omega
    | reset _ hreset => exact hreset
    | corrected _ _ _ hresets => omega
    | guarded _ _ hresets => omega

/-- The replaced denominators counted tell whether a step replaced one. -/
theorem guards_iff (h : Sorted setup s s') :
    Guards setup s ↔ s'.statistics.guards = s.statistics.guards + 1 := by
  constructor
  · intro hguards
    cases h with
    | ended _ hstays => exact absurd hguards (not_of_stays hstays).2.2
    | reset _ hreset => exact absurd hguards.1 hreset.not_corrects
    | corrected _ _ hplain => exact absurd hguards hplain
    | guarded _ _ _ hcounted => exact hcounted
  · intro hcounted
    cases h with
    | ended _ _ _ hguards => omega
    | reset _ _ _ hguards => omega
    | corrected _ _ _ _ hguards => omega
    | guarded _ hguards => exact hguards

/-- The steps that reset go with the resets counted. -/
theorem tally_resets (h : Sorted setup s s') : (tally (Resets setup) (l ++ [s]) : Int) =
    tally (Resets setup) l + (s'.resets - s.resets) := by
  cases h with
  | ended _ hstays hresets =>
    rw [tally_snoc_of_not (not_of_stays hstays).1]
    omega
  | reset _ hreset hresets =>
    rw [tally_snoc_of hreset]
    omega
  | corrected _ hcorrects _ hresets =>
    rw [tally_snoc_of_not fun hreset => hreset.not_corrects hcorrects]
    omega
  | guarded _ hguards hresets =>
    rw [tally_snoc_of_not fun hreset => hreset.not_corrects hguards.1]
    omega

/-- The steps that replace a denominator go with the replaced ones counted. -/
theorem tally_guards (h : Sorted setup s s') : (tally (Guards setup) (l ++ [s]) : Int) =
    tally (Guards setup) l + (s'.statistics.guards - s.statistics.guards) := by
  cases h with
  | ended _ hstays _ hguards =>
    rw [tally_snoc_of_not (not_of_stays hstays).2.2]
    omega
  | reset _ hreset _ hguards =>
    rw [tally_snoc_of_not fun hguarded => hreset.not_corrects hguarded.1]
    omega
  | corrected _ _ hplain _ hguards =>
    rw [tally_snoc_of_not hplain]
    omega
  | guarded _ hguarded _ hguards =>
    rw [tally_snoc_of hguarded]
    omega

/-- A step that goes on corrects unless it resets. -/
theorem tally_corrects (h : Sorted setup s s') (hgoing : s'.stopped = false) :
    (tally (Corrects setup) (l ++ [s]) : Int) =
      tally (Corrects setup) l + 1 - (s'.resets - s.resets) := by
  cases h with
  | ended hstopped => cases hstopped.symm.trans hgoing
  | reset _ hreset hresets =>
    rw [tally_snoc_of_not hreset.not_corrects]
    omega
  | corrected _ hcorrects _ hresets =>
    rw [tally_snoc_of hcorrects]
    omega
  | guarded _ hguarded hresets =>
    rw [tally_snoc_of hguarded.1]
    omega

/-- A step resets once or replaces one denominator at most. -/
theorem together (h : Sorted setup s s') :
    s'.resets + s'.statistics.guards ≤ s.resets + s.statistics.guards + 1 := by
  cases h with
  | ended _ _ hresets hguards => omega
  | reset _ _ hresets hguards => omega
  | corrected _ _ _ hresets hguards => omega
  | guarded _ _ hresets hguards => omega

/-- The counters go on telling what the steps did. -/
theorem counted (hsort : Sorted setup s s') (hbill : Billed s s') (hrunning : s.status = .running)
    (hgoing : s.stopped = false) (h : Counted setup before l s) :
    Counted setup before (l ++ [s]) s' := by
  have hsteps := hbill.steps
  constructor
  case calls =>
    have hbilled := hbill.calls
    have hcounted := h.calls
    omega
  case evaluations =>
    have hcounted := h.evaluations
    rw [hrunning] at hcounted
    change _ = _ + 0 at hcounted
    rw [hbill.evaluations, hsteps]
    omega
  case steps =>
    have hcounted := h.steps
    rw [List.length_append, List.length_singleton]
    omega
  case resets =>
    rw [hsort.tally_resets, ← h.resets]
    omega
  case guards =>
    rw [hsort.tally_guards, ← h.guards]
    omega
  case together =>
    have htogether := h.together
    have hmost := hsort.together
    omega
  case corrections =>
    intro hgoing'
    rw [hsort.tally_corrects hgoing', h.corrections hgoing]
    omega
  case direct =>
    obtain ⟨hjacobians, hfactorizations, hsolves⟩ := hbill.direct
    rw [hjacobians, hfactorizations, hsolves]
    exact h.direct
  case running => exact hbill.running

end Sorted

/-- The counters of a session go on telling what its steps did as long as they answer. -/
theorem tracks_counted (setup : Setup A P) (before : Nat) :
    Tracks setup (Counted setup before) where
  advance h hs hgoing hadvance :=
    (sorted_advance hs hgoing hadvance).counted ((of_advance hs hadvance).billed (h.running hgoing))
      (h.running hgoing) hgoing h
  exhaust h hgoing :=
    { h with
      evaluations := by
        have hevaluations := h.evaluations
        rwa [h.running hgoing] at hevaluations
      corrections := nofun
      running := nofun }
  lines _ h := { h with }

/-! ## Histories -/

/-- The calls of the residual function before the last operation of a history. -/
def callsBefore (setup : Setup A P) (s : Session A P) (ops : List (Operation A P)) : Nat :=
  match ops.getLast? with
  | none => 0
  | some _ => (after setup s ops.dropLast).evaluations

/-- A solve begins with a session that has just begun, with one evaluation. -/
theorem Renews.counted {request : Request A P} {s₀ : Session A P} {n : Nat}
    (hstart : start setup request = (.ok s₀, n)) {ops : List (Operation A P)}
    (h : Renews setup s₀ ops) :
    (after setup s₀ ops).Cleared ∧
      Counted setup (callsBefore setup s₀ ops) [] (after setup s₀ ops) := by
  rcases h with rfl | ⟨earlier, r, s', rfl, hrestart⟩
  · obtain ⟨hcleared, hevaluations⟩ := cleared_start hstart
    exact ⟨hcleared, hcleared.counted hevaluations⟩
  · obtain ⟨hcleared, hevaluations⟩ := cleared_restart hrestart
    rw [after_restart hrestart, callsBefore, List.getLast?_concat, List.dropLast_concat]
    exact ⟨hcleared, hcleared.counted hevaluations⟩

/-- The counters that a report repeats. -/
structure Repeated (s : Session A P) (r : Report A) : Prop where
  evaluations : r.evaluations = s.statistics.evaluations
  steps : r.steps = s.statistics.steps
  resets : r.resets = s.resets
  statistics : r.statistics = some s.statistics

/-- After a start or a restart that answers, and steps and runs that answer, the counters tell
exactly what was done since, the resets are within their budget, and a run that then answers reports
the counters that it leaves. This holds whatever function of the residual the norm is. -/
theorem counters_exact (hA : A.Integral) {budget tolerance : Setting A.Real}
    {search : LineSearch.Choice A} (hoptions : Options.make budget tolerance search =
      .ok setup.options) {request : Request A P} {s₀ : Session A P} {n : Nat}
    (hstart : start setup request = (.ok s₀, n)) {past present : List (Operation A P)}
    (hpast : ∀ op ∈ past, op.IsSolving) (hrenews : Renews setup s₀ past)
    (hb : b = after setup s₀ past) (hpresent : ∀ op ∈ present, op.TakesSteps)
    (hanswer : Completes setup b present) (hs : s = after setup b present) :
    ∃ m, Quantity.StandsFor (M := A.toMagnitudes) setup.options.resetBudget m ∧ s.resets ≤ m ∧
      Counted setup (callsBefore setup s₀ past) (stepping setup b present) s ∧
      ∀ r s', (run setup).outcome s = (.ok r, s') → s'.resets ≤ m ∧
        Counted setup (callsBefore setup s₀ past) (stepping setup b (present ++ [.run])) s' ∧
        s'.Repeated r := by
  obtain ⟨m, hpositive, hm⟩ := Options.resetBudget_standsFor hA hoptions
  obtain ⟨hcleared, hcounted⟩ := hrenews.counted hstart
  rw [← hb] at hcleared hcounted
  have hordered : b.Ordered setup := by
    rw [hb]
    exact (Workspace.stable_ordered setup).after hstart hpast
  have hcoherent : s.Coherent m := by
    rw [hs]
    exact (hcleared.coherent hpositive).after hm hpositive (fun op h => (hpresent op h).isSolving)
      (renewing_of_takesSteps hpresent)
  have htracks := tracks_counted setup (callsBefore setup s₀ past)
  refine ⟨m, hm, hcoherent.resets, ?_, ?_⟩
  · rw [hs]
    exact htracks.after hpresent hanswer hcounted hordered
  · intro r s' hrun
    refine ⟨((hcoherent.run hm).of_ok hrun).resets, ?_, ?_⟩
    · rw [hs] at hrun
      exact htracks.after_run hpresent hanswer hcounted hordered hrun
    · obtain ⟨norm, -, rfl⟩ := of_run hrun
      exact ⟨rfl, rfl, rfl, rfl⟩

open QuasiNewton.Affine in
/-- Over the restart at two elements and a step from there, the residual is called once for the
start, once for the step before the restart, and twice since. -/
theorem counters_exact_affine :
    ∃ s₀ n s, start problem request = (.ok s₀, n) ∧
      s = after problem (after problem s₀ detour) [.steps 1] ∧ s.resets ≤ 3 ∧
      callsBefore problem s₀ detour = 2 ∧ s.evaluations = 4 ∧
      Counted problem (callsBefore problem s₀ detour)
        (stepping problem (after problem s₀ detour) [.steps 1]) s := by
  obtain ⟨s₀, n, hstart, ⟨hrestart, hstep⟩, hbefore, hcalls⟩ := exists_started problem request
    (fun s => ((∃ a, ((restart problem move).outcome (after problem s [.steps 1])).1 = .ok a) ∧
        Completes problem (after problem s detour) [.steps 1]) ∧
      callsBefore problem s detour = 2 ∧
      (after problem (after problem s detour) [.steps 1]).evaluations = 4) (by decide +kernel)
  obtain ⟨⟨⟩, ha⟩ := hrestart
  have hoptions : Options.make (.number (.whole 3)) .absent (.setting .absent) =
      .ok problem.options := rfl
  obtain ⟨m, hm, hresets, hcounted, -⟩ := counters_exact Machine.magnitudes_integral hoptions
    hstart (by decide) (.inr ⟨[.steps 1], move, _, rfl, Prod.ext ha rfl⟩) rfl (by decide) hstep rfl
  obtain rfl : m = 3 := hm.unique (Quantity.standsFor_of_integer? rfl)
  exact ⟨s₀, n, _, hstart, rfl, hresets, hbefore, hcalls, hcounted⟩

end Session

end QuasiNewton
