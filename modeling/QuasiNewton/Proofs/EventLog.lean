import QuasiNewton.Proofs.Events
import QuasiNewton.Proofs.Narration

/-!
# The log of events

At a verbosity of two or more the log of a solve tells what its steps did, each event with the
number of its step. A step that resets the inverse Jacobian, replaces a denominator, gives up or
returns to the best iterate adds one event, and no other step adds one. The counters and the outcome
of the solve can be read off the log.
-/

namespace QuasiNewton

open QuasiNewton.Action

variable {A : Arithmetic} {P : Type} {setup : Setup A P}

/-- An event is told last, and no event of its sort before it. -/
def LastOfSort {ρ : Type} (sort : Event ρ → Bool) (e : Int × Event ρ) (log : List (Int × Event ρ)) :
    Prop :=
  ∃ earlier, log = earlier ++ [e] ∧ ∀ e' ∈ earlier, sort e'.2 = false

namespace Session

variable {b c c' s : Session A P} {k : Nat} {q : Quantity A.Real}
  {log : List (Int × Event A.Real)} {what : Event A.Real} {note : Option (Event A.Real)}

/-! ## The events of steps -/

/-- What a step that answers tells of: a reset, a replaced denominator, the end of the budget of
resets, or the return to the best iterate. -/
inductive Tells (setup : Setup A P) (c : Session A P) : Event A.Real → Prop
  | reset {c' : Session A P} (hstep : (step setup).outcome c = (.ok (), c'))
    (hreset : Resets setup c) : Tells setup c (.reset c'.resets setup.options.resetBudget)
  | guarded {c' : Session A P} (hstep : (step setup).outcome c = (.ok (), c'))
    (hguards : Guards setup c) : Tells setup c .guarded
  | exhausted {c' : Session A P} (hstep : (step setup).outcome c = (.ok (), c'))
    (hstatus : c'.status = .resetsExhausted) :
    Tells setup c (.exhausted setup.options.resetBudget)
  | restored {c' : Session A P} (hstep : (step setup).outcome c = (.ok (), c'))
    (hback : c'.status.fallsBack = true) : Tells setup c (.restored c'.status c'.monitor.best)

/-- Only steps that answer tell of something. -/
theorem Tells.answers (h : Tells setup c what) : (step setup).Answers c := by
  cases h with
  | reset hstep => exact ⟨(), _, hstep⟩
  | guarded hstep => exact ⟨(), _, hstep⟩
  | exhausted hstep => exact ⟨(), _, hstep⟩
  | restored hstep => exact ⟨(), _, hstep⟩

/-- The log of the first steps from a session: each adds the one event that it tells of, with its
number, or it tells of none and adds none. -/
inductive Logs (setup : Setup A P) (b : Session A P) : Nat → List (Int × Event A.Real) → Prop
  | none : Logs setup b 0 []
  | silent {k : Nat} {log : List (Int × Event A.Real)} (h : Logs setup b k log)
    (hsilent : ∀ what, ¬Tells setup (attempts setup b k) what) : Logs setup b (k + 1) log
  | snoc {k : Nat} {log : List (Int × Event A.Real)} {what : Event A.Real} (h : Logs setup b k log)
    (htold : ∀ e, Tells setup (attempts setup b k) e ↔ e = what) :
    Logs setup b (k + 1) (log ++ [(((k + 1 : Nat) : Int), what)])

/-- What a running session tells of by a step that answers is what is noted of that. -/
theorem tells_iff (hs : c.Ordered setup) (hgoing : c.stopped = false)
    (hrunning : c.status = .running) (hadvance : (advance setup).outcome c = (.ok (), c'))
    (hnoted : Noted setup c c' note) : Tells setup c what ↔ note = some what := by
  have hsorted := sorted_advance hs hgoing hadvance
  have hstep := (outcome_step_of_not_stopped setup hgoing).trans hadvance
  have hsame {t : Session A P} (h : (step setup).outcome c = (.ok (), t)) : t = c' :=
    (Prod.mk.inj (h.symm.trans hstep)).2
  constructor
  · intro htells
    cases htells with
    | reset h hreset =>
      obtain rfl := hsame h
      exact hnoted.resets_iff.mp (hsorted.resets_iff.mp hreset)
    | guarded h hguards =>
      obtain rfl := hsame h
      exact hnoted.guards_iff.mp (hsorted.guards_iff.mp hguards)
    | exhausted h hstatus =>
      obtain rfl := hsame h
      exact (hnoted.exhausted_iff hrunning).mp hstatus
    | restored h hback =>
      obtain rfl := hsame h
      exact (hnoted.fallsBack_iff hrunning).mp hback
  · intro hnote
    subst hnote
    cases hnoted with
    | reset hresets => exact .reset hstep (hsorted.resets_iff.mpr hresets)
    | guarded _ hguards => exact .guarded hstep (hsorted.guards_iff.mpr hguards)
    | exhausted _ _ hstatus => exact .exhausted hstep hstatus
    | restored _ _ hback => exact .restored hstep hback

/-! ## What can be read off the log -/

/-- The counters and the outcome of a session can be read off a log: the numbers of the steps grow,
the resets are numbered from one and told with their budget, as many replaced denominators are told
as were counted, and the end of the budget of resets or the return to the best iterate is told last
if the outcome says so, and else not at all. -/
structure Attests (setup : Setup A P) (s : Session A P) (log : List (Int × Event A.Real)) :
    Prop where
  within : ∀ e ∈ log, e.1 ≤ s.statistics.steps
  increasing : (log.map Prod.fst).Pairwise (· < ·)
  resets : ∃ n : Nat, s.resets = n ∧ log.filterMap (fun e => e.2.reset?) =
    (List.range n).map fun i => (((i + 1 : Nat) : Int), setup.options.resetBudget)
  guards : s.statistics.guards = log.countP fun e => e.2.isGuarded
  exhausted : s.status = .resetsExhausted → LastOfSort Event.isExhausted
    (s.statistics.steps, .exhausted setup.options.resetBudget) log
  unexhausted : s.status ≠ .resetsExhausted → ∀ e ∈ log, e.2.isExhausted = false
  restored : s.status.fallsBack = true →
    LastOfSort Event.isRestored (s.statistics.steps, .restored s.status s.monitor.best) log
  unrestored : s.status.fallsBack = false → ∀ e ∈ log, e.2.isRestored = false

namespace Attests

/-- What a session that has just begun has told of. -/
theorem of_cleared (h : b.Cleared) : Attests setup b [] where
  within := nofun
  increasing := .nil
  resets := ⟨0, h.resets, rfl⟩
  guards := by
    rw [h.statistics]
    rfl
  exhausted hstatus := by cases h.status.symm.trans hstatus
  unexhausted := fun _ => nofun
  restored hback := by
    rw [h.status] at hback
    cases hback
  unrestored := fun _ => nofun

/-- A running session has told neither of the end of its budget nor of a return. -/
theorem calm (h : Attests setup c log) (hrunning : c.status = .running) :
    (∀ e ∈ log, e.2.isExhausted = false) ∧ ∀ e ∈ log, e.2.isRestored = false := by
  obtain ⟨hlasting, hforward⟩ := Status.quiet (.inl hrunning)
  exact ⟨h.unexhausted hlasting, h.unrestored hforward⟩

/-- What is read off a log does not depend on the end of the budget of steps. -/
theorem exhaust (h : Attests setup c log) (hrunning : c.status = .running) :
    Attests setup { c with status := .iterationsExhausted, stopped := true } log :=
  { within := h.within
    increasing := h.increasing
    resets := h.resets
    guards := h.guards
    exhausted := nofun
    unexhausted := fun _ => (h.calm hrunning).1
    restored := nofun
    unrestored := fun _ => (h.calm hrunning).2 }

/-- A step of which nothing is noted adds nothing. -/
theorem silent (h : Attests setup c log) (hrunning : c.status = .running)
    (hsteps : c'.statistics.steps = c.statistics.steps + 1) (hnoted : Noted setup c c' none) :
    Attests setup c' log := by
  obtain ⟨hexhausted, hrestored⟩ := h.calm hrunning
  cases hnoted with
  | silent hresets hguards hstatus =>
    obtain ⟨hlasting, hforward⟩ :=
      Status.quiet (hstatus.imp (fun h => h.1.trans hrunning) And.left)
    constructor
    case within =>
      intro e he
      have hwithin := h.within e he
      omega
    case increasing => exact h.increasing
    case resets =>
      rw [hresets]
      exact h.resets
    case guards =>
      rw [hguards]
      exact h.guards
    case exhausted => exact fun hstatus' => absurd hstatus' hlasting
    case unexhausted => exact fun _ => hexhausted
    case restored => exact fun hback => absurd (hforward.symm.trans hback) Bool.false_ne_true
    case unrestored => exact fun _ => hrestored

/-! An event goes to the end of the log, with the number of the step that has just been taken. -/

/-- The number of a further step is within the steps that are counted then. -/
theorem within_snoc (h : Attests setup c log)
    (hsteps : c'.statistics.steps = c.statistics.steps + 1) :
    ∀ e ∈ log ++ [(c'.statistics.steps, what)], e.1 ≤ c'.statistics.steps := by
  intro e he
  rcases List.mem_append.mp he with he | he
  · have hwithin := h.within e he
    omega
  · rw [List.mem_singleton.mp he]

/-- It is above those before it. -/
theorem increasing_snoc (h : Attests setup c log)
    (hsteps : c'.statistics.steps = c.statistics.steps + 1) :
    ((log ++ [(c'.statistics.steps, what)]).map Prod.fst).Pairwise (· < ·) := by
  rw [List.map_append, List.pairwise_append]
  refine ⟨h.increasing, List.pairwise_singleton _ _, ?_⟩
  intro m hm m' hm'
  obtain ⟨e, he, rfl⟩ := List.mem_map.mp hm
  have hwithin := h.within e he
  rw [List.map_singleton, List.mem_singleton] at hm'
  rw [hm']
  omega

/-- An event that is no reset leaves the resets of the log and of the session. -/
theorem resets_snoc (h : Attests setup c log) {i : Int} (hresets : c'.resets = c.resets)
    (hwhat : what.reset? = none) :
    ∃ n : Nat, c'.resets = n ∧ (log ++ [(i, what)]).filterMap (fun e => e.2.reset?) =
      (List.range n).map fun i => (((i + 1 : Nat) : Int), setup.options.resetBudget) := by
  obtain ⟨n, hn, hnumbers⟩ := h.resets
  refine ⟨n, by omega, ?_⟩
  rw [List.filterMap_append, hnumbers]
  simp [hwhat]

/-- An event that is no replaced denominator leaves those of the log and of the session. -/
theorem guards_snoc (h : Attests setup c log) {i : Int}
    (hguards : c'.statistics.guards = c.statistics.guards) (hwhat : what.isGuarded = false) :
    c'.statistics.guards = (log ++ [(i, what)]).countP fun e => e.2.isGuarded := by
  rw [hguards, h.guards, List.countP_append]
  simp [hwhat]

/-- A sort of event that is absent stays absent when an event of another sort is added. -/
theorem absent_snoc {sort : Event A.Real → Bool} {i : Int} (hlog : ∀ e ∈ log, sort e.2 = false)
    (hwhat : sort what = false) : ∀ e ∈ log ++ [(i, what)], sort e.2 = false := by
  intro e he
  rcases List.mem_append.mp he with he | he
  · exact hlog e he
  · rw [List.mem_singleton.mp he]
    exact hwhat

/-- A step adds the event that is noted of it. -/
theorem snoc (h : Attests setup c log) (hrunning : c.status = .running)
    (hsteps : c'.statistics.steps = c.statistics.steps + 1)
    (hnoted : Noted setup c c' (some what)) :
    Attests setup c' (log ++ [(c'.statistics.steps, what)]) := by
  obtain ⟨hexhausted, hrestored⟩ := h.calm hrunning
  have hwithin : ∀ e ∈ log ++ [(c'.statistics.steps, what)], e.1 ≤ c'.statistics.steps :=
    h.within_snoc hsteps
  have hincreasing : ((log ++ [(c'.statistics.steps, what)]).map Prod.fst).Pairwise (· < ·) :=
    h.increasing_snoc hsteps
  cases hnoted with
  | reset hresets hguards hstatus =>
    obtain ⟨hlasting, hforward⟩ := Status.quiet (.inl (hstatus.trans hrunning))
    obtain ⟨n, hn, hnumbers⟩ := h.resets
    constructor
    case within => exact hwithin
    case increasing => exact hincreasing
    case resets =>
      refine ⟨n + 1, by omega, ?_⟩
      rw [List.filterMap_append, hnumbers, List.range_succ, List.map_append, hresets, hn]
      rfl
    case guards => exact h.guards_snoc hguards rfl
    case exhausted => exact fun hstatus' => absurd hstatus' hlasting
    case unexhausted => exact fun _ => absent_snoc hexhausted rfl
    case restored => exact fun hback => absurd (hforward.symm.trans hback) Bool.false_ne_true
    case unrestored => exact fun _ => absent_snoc hrestored rfl
  | guarded hresets hguards hstatus =>
    obtain ⟨hlasting, hforward⟩ := Status.quiet (.inl (hstatus.trans hrunning))
    constructor
    case within => exact hwithin
    case increasing => exact hincreasing
    case resets => exact h.resets_snoc hresets rfl
    case guards =>
      rw [hguards, h.guards, List.countP_append]
      rfl
    case exhausted => exact fun hstatus' => absurd hstatus' hlasting
    case unexhausted => exact fun _ => absent_snoc hexhausted rfl
    case restored => exact fun hback => absurd (hforward.symm.trans hback) Bool.false_ne_true
    case unrestored => exact fun _ => absent_snoc hrestored rfl
  | exhausted hresets hguards hstatus =>
    constructor
    case within => exact hwithin
    case increasing => exact hincreasing
    case resets => exact h.resets_snoc hresets rfl
    case guards => exact h.guards_snoc hguards rfl
    case exhausted => exact fun _ => ⟨log, rfl, hexhausted⟩
    case unexhausted => exact fun hother => absurd hstatus hother
    case restored =>
      intro hback
      rw [hstatus] at hback
      cases hback
    case unrestored => exact fun _ => absent_snoc hrestored rfl
  | restored hresets hguards hback =>
    constructor
    case within => exact hwithin
    case increasing => exact hincreasing
    case resets => exact h.resets_snoc hresets rfl
    case guards => exact h.guards_snoc hguards rfl
    case exhausted =>
      intro hstatus
      rw [hstatus] at hback
      cases hback
    case unexhausted => exact fun _ => absent_snoc hexhausted rfl
    case restored => exact fun _ => ⟨log, rfl, hrestored⟩
    case unrestored => exact fun hother => absurd (hother.symm.trans hback) Bool.false_ne_true

end Attests

/-! ## Steps -/

/-- A session that steps have led to, and the log of these. -/
structure Chronicle (setup : Setup A P) (b : Session A P) (k : Nat) (c : Session A P)
    (log : List (Int × Event A.Real)) : Prop where
  lines : c.transcript = b.transcript ++ log.map Line.ofEvent
  steps : c.statistics.steps = k
  logs : Logs setup b k log
  attests : Attests setup c log
  running : c.stopped = false → c.status = .running
  returnable : c.Returnable setup

section

variable (hverbosity : setup.verbosity = .number q)
  (hq : q.reaches (M := A.toMagnitudes) 2 = true)
  (hR : ∀ n array u p, ∃ v, (setup.residual.evaluate n array u p).1 = .ok v)

include hverbosity hq hR

/-- Either nothing is noted of a step and no line added, or one event is, with the number of the
step. -/
theorem exists_noted (hreturnable : c.Returnable setup) (hgoing : c.stopped = false)
    (hrunning : c.status = .running) :
    ∃ note, Noted setup c ((advance setup).outcome c).2 note ∧
      ((advance setup).outcome c).2.transcript = c.transcript ++
        note.toList.map (Line.event ((advance setup).outcome c).2.statistics.steps) ∧
      ∀ what, Tells setup c what ↔ note = some what := by
  have hnarrates := narrates_advance hverbosity hq hR hreturnable
  rcases hadvance : (advance setup).outcome c with ⟨e | ⟨⟩, c'⟩
  · have hkept := hnarrates.of_error hadvance
    have hlines : c'.transcript = c.transcript := congrArg Prod.fst hkept
    refine ⟨none, .of_linesAndVerdict hkept, ?_, fun what => ⟨fun htells => ?_, nofun⟩⟩
    · exact hlines.trans (List.append_nil _).symm
    · obtain ⟨_, t, hanswers⟩ := htells.answers
      cases ((outcome_step_of_not_stopped setup hgoing).trans hadvance).symm.trans hanswers
  · obtain ⟨note, hnoted, hlines⟩ := hnarrates.of_ok hadvance
    exact ⟨note, hnoted, hlines,
      fun what => tells_iff hreturnable.ordered hgoing hrunning hadvance hnoted⟩

/-- A further step adds the event that it tells of to the log, if it tells of one. -/
theorem Chronicle.next (h : Chronicle setup b k (attempts setup b k) log)
    (hgoing : (attempts setup b k).stopped = false) :
    ∃ log', Chronicle setup b (k + 1) (attempts setup b (k + 1)) log' := by
  have hrunning := h.running hgoing
  have hnext := attempts_succ hgoing
  have hsteps : (attempts setup b (k + 1)).statistics.steps = ((k + 1 : Nat) : Int) := by
    have hcounted := steps_advance setup (attempts setup b k)
    rw [← hnext, h.steps] at hcounted
    exact hcounted
  have hcounts : (attempts setup b (k + 1)).statistics.steps =
      (attempts setup b k).statistics.steps + 1 := by
    rw [hsteps, h.steps]
    rfl
  have hreturnable : (attempts setup b (k + 1)).Returnable setup := by
    rw [hnext]
    exact h.returnable.advance
  obtain ⟨note, hnoted, hlines, htells⟩ :=
    exists_noted hverbosity hq hR h.returnable hgoing hrunning
  rw [← hnext] at hnoted hlines
  rw [h.lines] at hlines
  have hstays := hnoted.running hrunning
  cases note with
  | none =>
    refine ⟨log, ?_, hsteps, .silent h.logs fun what => ?_,
      h.attests.silent hrunning hcounts hnoted, hstays, hreturnable⟩
    · rw [hlines]
      exact List.append_nil _
    · rw [htells]
      exact nofun
  | some what =>
    have hattests := h.attests.snoc hrunning hcounts hnoted
    rw [hsteps] at hlines hattests
    refine ⟨log ++ [(((k + 1 : Nat) : Int), what)], ?_, hsteps, .snoc h.logs fun e => ?_, hattests,
      hstays, hreturnable⟩
    · rw [hlines, List.map_append, List.append_assoc]
      rfl
    · rw [htells, Option.some_inj]
      exact eq_comm

/-- As long as no session on the way has ended, steps from one that has just begun have a log. -/
theorem exists_chronicle (hb : b.Cleared) (hs : b.Ordered setup) (k : Nat)
    (hgoing : ∀ j < k, (attempts setup b j).stopped = false) :
    ∃ log, Chronicle setup b k (attempts setup b k) log := by
  induction k with
  | zero =>
    refine ⟨[], (List.append_nil _).symm, ?_, .none, .of_cleared hb, fun _ => hb.status,
      hb.returnable hs⟩
    rw [attempts, hb.statistics]
    rfl
  | succ k ih =>
    obtain ⟨log, hlog⟩ := ih fun j hj => hgoing j (Nat.lt_succ_of_lt hj)
    exact hlog.next hverbosity hq hR (hgoing k (Nat.lt_succ_self k))

end

/-! ## Histories -/

/-- Two transcripts go on from a third one and tell of the same events. -/
def TellAlike (base l m : List (Line A.Real)) : Prop :=
  ∃ x y, l = base ++ x ∧ m = base ++ y ∧ events x = events y

/-- Under one verbosity two transcripts that tell of the same events go on to tell of the same. -/
theorem matched_tellAlike (q : Quantity A.Real) (base : List (Line A.Real)) :
    Quantity.Matched (M := A.toMagnitudes) q q (TellAlike base) := by
  rintro level line l m - ⟨x, y, rfl, rfl, hsame⟩
  unfold Quantity.utter
  by_cases hsaid : q.reaches (M := A.toMagnitudes) level = true
  · rw [if_pos hsaid, if_pos hsaid]
    refine ⟨x ++ [line], y ++ [line], List.append_assoc _ _ _, List.append_assoc _ _ _, ?_⟩
    rw [events_append, events_append, hsame]
  · rw [if_neg hsaid, if_neg hsaid]
    exact ⟨x, y, rfl, rfl, hsame⟩

/-- A session that a number of steps led to, and the same one at the end of its budget of steps. -/
def Reached (setup : Setup A P) (b : Session A P) (k : Nat) (c : Session A P) : Prop :=
  c = attempts setup b k ∨ (attempts setup b k).stopped = false ∧
    c = { attempts setup b k with status := .iterationsExhausted, stopped := true }

/-- But for lines that tell of no event, steps have led to a session. -/
def Pursues (setup : Setup A P) (b s : Session A P) : Prop :=
  ∃ k c, (∀ j < k, (attempts setup b j).stopped = false) ∧ Reached setup b k c ∧
    Beside (TellAlike b.transcript) c s

/-- Histories go on so. -/
theorem persists_pursues (hverbosity : setup.verbosity = .number q) (b : Session A P) :
    Persists setup (Pursues setup b) where
  step {s} := by
    rintro ⟨k, c, hgoing, hreached, hbeside⟩
    have hstopped : c.stopped = s.stopped := by rw [hbeside.same]
    cases hs : s.stopped with
    | true =>
      rw [outcome_step_of_stopped setup hs]
      exact ⟨k, c, hgoing, hreached, hbeside⟩
    | false =>
      rw [hs] at hstopped
      rcases hreached with rfl | ⟨-, rfl⟩
      · refine ⟨k + 1, _, fun j hj => ?_, .inl rfl, ?_⟩
        · rcases Nat.lt_succ_iff_lt_or_eq.mp hj with hj | rfl
          · exact hgoing j hj
          · exact hstopped
        · have hechoes : Echoes (TellAlike b.transcript) (step (setup.saying q))
              (step (setup.saying q)) := echoes_step (matched_tellAlike q b.transcript)
          rw [Setup.saying_self hverbosity] at hechoes
          exact (hechoes _ s hbeside).after (fun _ _ _ h => h) fun _ _ h => h
      · cases hstopped
  exhaust {s} := by
    rintro ⟨k, c, hgoing, hreached, hbeside⟩ hs
    have hstopped : c.stopped = false := by
      rw [hbeside.same] at hs
      exact hs
    rcases hreached with rfl | ⟨-, rfl⟩
    · refine ⟨k, _, hgoing, .inr ⟨hstopped, rfl⟩, ?_, hbeside.lines⟩
      rw [hbeside.same]
    · cases hstopped
  aside {s lines} := by
    rintro ⟨k, c, hgoing, hreached, hbeside⟩ hlines
    refine ⟨k, c, hgoing, hreached, ?_, ?_⟩
    · rw [hbeside.same]
    · obtain ⟨x, y, hx, hy, hsame⟩ := hbeside.lines
      refine ⟨x, y ++ lines, hx, ?_, ?_⟩
      · dsimp only
        rw [hy, List.append_assoc]
      · rw [events_append, hlines, hsame, List.append_nil]

/-- The log is faithful. At a verbosity of two or more, with a residual function that answers, the
events told since the last start or restart are those of the steps taken since, each with the number
of its step, and steps and runs may answer or fail. The counters and the outcome of the session can
be read off them. The norm may be any function of the residual, also one that refuses it. -/
theorem log_faithful (hverbosity : setup.verbosity = .number q)
    (hq : q.reaches (M := A.toMagnitudes) 2 = true)
    (hR : ∀ n array u p, ∃ v, (setup.residual.evaluate n array u p).1 = .ok v)
    {request : Request A P} {s₀ : Session A P} {n : Nat}
    (hstart : start setup request = (.ok s₀, n)) {past present : List (Operation A P)}
    (hpast : ∀ op ∈ past, op.IsSolving) (hrenews : Renews setup s₀ past)
    (hb : b = after setup s₀ past) (hpresent : ∀ op ∈ present, op.TakesSteps)
    (hs : s = after setup b present) :
    ∃ (k : Nat) (lines : List (Line A.Real)), s.statistics.steps = k ∧
      (∀ j < k, (attempts setup b j).stopped = false) ∧
      (∃ c, Reached setup b k c ∧ s = { c with transcript := s.transcript }) ∧
      s.transcript = b.transcript ++ lines ∧ Logs setup b k (events lines) ∧
      Attests setup s (events lines) := by
  obtain ⟨hcleared, -⟩ := hrenews.counted hstart
  have hordered := (Workspace.stable_ordered setup).after hstart hpast
  rw [← hb] at hcleared hordered
  have hbegins : Pursues setup b b :=
    ⟨0, b, fun j hj => absurd hj (Nat.not_lt_zero j), .inl rfl, rfl, [], [],
      (List.append_nil _).symm, (List.append_nil _).symm, rfl⟩
  obtain ⟨k, c, hgoing, hreached, hbeside⟩ :=
    (persists_pursues hverbosity b).after hpresent hbegins
  rw [← hs] at hbeside
  obtain ⟨log, hlog⟩ := exists_chronicle hverbosity hq hR hcleared hordered k hgoing
  have hattests : Attests setup c log ∧ c.transcript = b.transcript ++ log.map Line.ofEvent ∧
      c.statistics.steps = k := by
    rcases hreached with rfl | ⟨hgoes, rfl⟩
    · exact ⟨hlog.attests, hlog.lines, hlog.steps⟩
    · exact ⟨hlog.attests.exhaust (hlog.running hgoes), hlog.lines, hlog.steps⟩
  obtain ⟨hattests, hlines, hsteps⟩ := hattests
  obtain ⟨x, y, hx, hy, hsame⟩ := hbeside.lines
  have hevents : events y = log := by
    rw [hlines] at hx
    rw [← hsame, ← List.append_cancel_left hx, events_map_ofEvent]
  refine ⟨k, y, ?_, hgoing, ⟨c, hreached, hbeside.same⟩, hy, ?_, ?_⟩
  · rw [hbeside.same]
    exact hsteps
  · rw [hevents]
    exact hlog.logs
  · rw [hevents, hbeside.same]
    exact { hattests with }

end Session

namespace Affine

/-- A residual that is the same everywhere, at a verbosity of two. -/
def stuck : Setup Machine.arithmetic Int :=
  (Affine.setup Machine.arithmetic 0).saying (.whole 2)

end Affine

namespace Session

open QuasiNewton.Affine in
/-- Over a restart and a run from there, which resets as often as it may and then gives up. -/
theorem log_faithful_stuck :
    ∃ s₀ n b s k lines, start stuck request = (.ok s₀, n) ∧ b = after stuck s₀ detour ∧
      s = after stuck b [.run] ∧ s.resets = 3 ∧ s.status = .resetsExhausted ∧
      s.transcript = b.transcript ++ lines ∧ Logs stuck b k (events lines) ∧
      Attests stuck s (events lines) := by
  obtain ⟨s₀, n, hstart, hrestart, hresets, hstatus⟩ := exists_started stuck request
    (fun s => (∃ a, ((restart stuck move).outcome (after stuck s [.steps 1])).1 = .ok a) ∧
      (after stuck (after stuck s detour) [.run]).resets = 3 ∧
      (after stuck (after stuck s detour) [.run]).status = .resetsExhausted) (by decide +kernel)
  obtain ⟨⟨⟩, ha⟩ := hrestart
  have hverbosity : stuck.verbosity = .number (.whole 2) := rfl
  have hR : ∀ n array u p, ∃ v, (stuck.residual.evaluate n array u p).1 = .ok v :=
    fun _ _ _ _ => ⟨_, rfl⟩
  have hpresent : ∀ op ∈ [(.run : Operation Machine.arithmetic Int)], op.TakesSteps := by decide
  obtain ⟨k, lines, -, -, -, hlines, hlogs, hattests⟩ := log_faithful hverbosity rfl hR hstart
    (by decide) (.inr ⟨[.steps 1], move, _, rfl, Prod.ext ha rfl⟩) rfl hpresent rfl
  exact ⟨s₀, n, _, _, k, lines, hstart, rfl, rfl, hresets, hstatus, hlines, hlogs, hattests⟩

end Session

end QuasiNewton
