import QuasiNewton.Proofs.Judgements

/-!
# The sessions that steps find

Every call of a step finds a session, whether the caller makes it or the loop of a run. The trail of
a history lists these sessions in their order, and those of them that have not ended take the step.
What steps, ends of budgets and lines do to a session together with the list of the steps it has
taken, a history of steps and runs that answer does.
-/

namespace QuasiNewton

open QuasiNewton.Action

variable {A : Arithmetic} {P : Type} {setup : Setup A P}

namespace Session

variable {b s s' : Session A P} {l : List (Session A P)}

/-! ## Trails -/

/-- The sessions that a number of calls of a step find. Nothing is called after a step that fails.
-/
def foundBySteps (setup : Setup A P) : Nat → Session A P → List (Session A P)
  | 0, _ => []
  | n + 1, s =>
    s :: match (step setup).outcome s with
      | (.ok _, s') => foundBySteps setup n s'
      | (.error _, _) => []

/-- The sessions that the calls of a step in the loop of a run find. -/
def foundByLoop (setup : Setup A P) : Nat → Session A P → List (Session A P)
  | 0, _ => []
  | fuel + 1, s =>
    if s.mayContinue then
      s :: match (step setup >>= fun _ => progress setup).outcome s with
        | (.ok _, s') => foundByLoop setup fuel s'
        | (.error _, _) => []
    else []

/-- The sessions that the calls of a step in an operation find. -/
def found (setup : Setup A P) (s : Session A P) : Operation A P → List (Session A P)
  | .steps n => foundBySteps setup n s
  | .run =>
    match (announce setup).outcome s with
    | (.ok _, s') => foundByLoop setup (s'.budget.ceiling (M := A.toMagnitudes)) s'
    | (.error _, _) => []
  | .restart _ | .setResidual _ | .setInverse _ | .setStopped _ => []

/-- The sessions that the calls of a step in a history find. -/
def trail (setup : Setup A P) : Session A P → List (Operation A P) → List (Session A P)
  | _, [] => []
  | s, op :: ops => found setup s op ++ trail setup (next setup s op) ops

/-- The sessions among these that have not ended. -/
def going (l : List (Session A P)) : List (Session A P) := l.filter fun s => !s.stopped

/-- The sessions that take a step in a history. -/
def stepping (setup : Setup A P) (s : Session A P) (ops : List (Operation A P)) :
    List (Session A P) :=
  going (trail setup s ops)

@[simp] theorem going_nil : going ([] : List (Session A P)) = [] := rfl

/-- The sessions that have not ended are found list by list. -/
theorem going_append (l l' : List (Session A P)) : going (l ++ l') = going l ++ going l' :=
  List.filter_append l l'

/-- They are found session by session. -/
theorem going_cons (s : Session A P) (l : List (Session A P)) :
    going (s :: l) = going [s] ++ going l :=
  going_append [s] l

/-- A session that has ended is not among them. -/
theorem going_of_stopped (h : s.stopped = true) : going [s] = [] := by
  rw [going, List.filter_cons, h]
  rfl

/-- A session that goes on is. -/
theorem going_of_going (h : s.stopped = false) : going [s] = [s] := by
  rw [going, List.filter_cons, h]
  rfl

/-! ## Relations along a trail -/

/-- A relation of a session in order to the list of the steps it has taken, which every part of a
run that answers preserves. -/
structure Tracks (setup : Setup A P) (R : List (Session A P) → Session A P → Prop) : Prop where
  advance : ∀ {l s s'}, R l s → s.Ordered setup → s.stopped = false →
    (advance setup).outcome s = (.ok (), s') → R (l ++ [s]) s'
  exhaust : ∀ {l s}, R l s → s.stopped = false →
    R l { s with status := .iterationsExhausted, stopped := true }
  lines : ∀ {l s} transcript, R l s → R l { s with transcript }

namespace Tracks

variable {R : List (Session A P) → Session A P → Prop} (hR : Tracks setup R)

include hR

/-- A call of a step adds the session it finds to the list, unless that has ended. -/
theorem step (h : R l s) (hs : s.Ordered setup)
    (hstep : (Session.step setup).outcome s = (.ok (), s')) :
    R (l ++ going [s]) s' ∧ s'.Ordered setup := by
  have hordered := ((Workspace.stable_ordered setup).invariant.step hs).of_ok hstep
  refine ⟨?_, hordered⟩
  cases hstopped : s.stopped with
  | true =>
    rw [outcome_step_of_stopped setup hstopped] at hstep
    cases hstep
    rwa [going_of_stopped hstopped, List.append_nil]
  | false =>
    rw [outcome_step_of_not_stopped setup hstopped] at hstep
    rw [going_of_going hstopped]
    exact hR.advance h hs hstopped hstep

/-- What holds along a trail is extended by the sessions that steps find going. -/
theorem steps {n : Nat} (h : R l s) (hs : s.Ordered setup)
    (hsteps : (Session.steps setup n).outcome s = (.ok (), s')) :
    R (l ++ going (foundBySteps setup n s)) s' ∧ s'.Ordered setup := by
  induction n generalizing s l with
  | zero =>
    cases hsteps
    rw [foundBySteps, going_nil, List.append_nil]
    exact ⟨h, hs⟩
  | succ n ih =>
    obtain ⟨_, s₁, hstep, hrest⟩ := outcome_bind_eq_ok.mp hsteps
    obtain ⟨h₁, hs₁⟩ := hR.step h hs hstep
    have hfound : foundBySteps setup (n + 1) s = s :: foundBySteps setup n s₁ := by
      rw [foundBySteps, hstep]
    rw [hfound, going_cons, ← List.append_assoc]
    exact ih h₁ hs₁ hrest

/-- A report adds nothing to the list. -/
theorem report {α : Type} {a : α} {x : Action A P α} (hx : x.Keeps mute) (h : R l s)
    (hs : s.Ordered setup) (hreport : x.outcome s = (.ok a, s')) : R l s' ∧ s'.Ordered setup := by
  have hmute : s'.mute = s.mute := by
    have hkept := hx s
    rwa [hreport] at hkept
  rw [eq_of_mute hmute]
  exact ⟨hR.lines _ h, hs⟩

/-- So it is by those that the loop of a run finds going. -/
theorem loop {fuel : Nat} (h : R l s) (hs : s.Ordered setup)
    (hloop : (iterate setup fuel).outcome s = (.ok (), s')) :
    R (l ++ going (foundByLoop setup fuel s)) s' ∧ s'.Ordered setup := by
  induction fuel generalizing s l with
  | zero =>
    cases hloop
    rw [foundByLoop, going_nil, List.append_nil]
    exact ⟨h, hs⟩
  | succ fuel ih =>
    rcases of_iterate_eq_ok hloop with
      ⟨hcontinue, rfl⟩ | ⟨hcontinue, s₁, s₂, hstep, hprogress, hrest⟩
    · rw [foundByLoop, if_neg hcontinue, going_nil, List.append_nil]
      exact ⟨h, hs⟩
    · obtain ⟨h₁, hs₁⟩ := hR.step h hs hstep
      obtain ⟨h₂, hs₂⟩ := hR.report (keeps_progress setup) h₁ hs₁ hprogress
      have hturn : (Session.step setup >>= fun _ => progress setup).outcome s = (.ok (), s₂) :=
        outcome_bind_eq_ok.mpr ⟨(), s₁, hstep, hprogress⟩
      have hfound : foundByLoop setup (fuel + 1) s = s :: foundByLoop setup fuel s₂ := by
        rw [foundByLoop, if_pos hcontinue, hturn]
      rw [hfound, going_cons, ← List.append_assoc]
      exact ih h₂ hs₂ hrest

/-- So it is by those that a run finds going. -/
theorem run {r : Report A} (h : R l s) (hs : s.Ordered setup)
    (hrun : (Session.run setup).outcome s = (.ok r, s')) :
    R (l ++ going (found setup s .run)) s' ∧ s'.Ordered setup := by
  obtain ⟨_, s₁, hannounce, hrun⟩ := outcome_bind_eq_ok.mp hrun
  obtain ⟨h₁, hs₁⟩ := hR.report (keeps_announce setup) h hs hannounce
  rw [outcome_get_bind] at hrun
  obtain ⟨_, s₂, hloop, hrun⟩ := outcome_bind_eq_ok.mp hrun
  obtain ⟨h₂, hs₂⟩ := hR.loop h₁ hs₁ hloop
  have hfound : found setup s .run =
      foundByLoop setup (s₁.budget.ceiling (M := A.toMagnitudes)) s₁ := by
    rw [found, hannounce]
  rw [Session.exhaust, outcome_modify_bind] at hrun
  rw [hfound]
  refine hR.report (keeps_close setup) ?_ ?_ hrun
  · split
    case isTrue => exact h₂
    case isFalse hstopped => exact hR.exhaust h₂ (Bool.eq_false_iff.mpr hstopped)
  · split
    · exact hs₂
    · exact hs₂

/-- An operation of steps that answers. -/
theorem perform {op : Operation A P} (hop : op.TakesSteps) {a : Option (Report A)} (h : R l s)
    (hs : s.Ordered setup) (hperform : (Session.perform setup op).outcome s = (.ok a, s')) :
    R (l ++ going (found setup s op)) s' ∧ s'.Ordered setup := by
  cases op with
  | steps n =>
    obtain ⟨_, s₁, hsteps, hreturn⟩ := outcome_bind_eq_ok.mp hperform
    cases hreturn
    exact hR.steps h hs hsteps
  | run =>
    obtain ⟨r, s₁, hrun, hreturn⟩ := outcome_bind_eq_ok.mp hperform
    cases hreturn
    exact hR.run h hs hrun
  | restart r => exact hop.elim
  | setResidual t => exact hop.elim
  | setInverse t => exact hop.elim
  | setStopped value => exact hop.elim

/-- The sessions of a history of steps and runs that answer are related to the steps taken in it. -/
theorem after {ops : List (Operation A P)} (hops : ∀ op ∈ ops, op.TakesSteps)
    (hanswer : Completes setup s ops) (h : R l s) (hs : s.Ordered setup) :
    R (l ++ stepping setup s ops) (Session.after setup s ops) := by
  induction ops generalizing s l with
  | nil =>
    rw [stepping, trail, going_nil, List.append_nil]
    exact h
  | cons op ops ih =>
    obtain ⟨⟨a, ha⟩, hrest⟩ := hanswer
    obtain ⟨h₁, hs₁⟩ := hR.perform (hops op List.mem_cons_self) h hs (Prod.ext ha rfl)
    rw [stepping, trail, going_append, ← List.append_assoc]
    exact ih (fun op' hop' => hops op' (List.mem_cons_of_mem _ hop')) hrest h₁ hs₁

/-- So is the session of a run that answers after such a history. -/
theorem after_run {ops : List (Operation A P)} (hops : ∀ op ∈ ops, op.TakesSteps)
    (hanswer : Completes setup s ops) (h : R l s) (hs : s.Ordered setup) {r : Report A}
    (hrun : (Session.run setup).outcome (Session.after setup s ops) = (.ok r, s')) :
    R (l ++ stepping setup s (ops ++ [.run])) s' := by
  have hperform : (Session.perform setup .run).outcome (Session.after setup s ops) =
      (.ok (some r), s') := outcome_bind_eq_ok.mpr ⟨r, s', hrun, rfl⟩
  have hafter : Session.after setup s (ops ++ [.run]) = s' := by
    rw [after_append]
    exact congrArg Prod.snd hperform
  have hanswer' : Completes setup s (ops ++ [.run]) :=
    hanswer.append ⟨⟨some r, congrArg Prod.fst hperform⟩, trivial⟩
  have hops' : ∀ op ∈ ops ++ [.run], op.TakesSteps := by
    intro op hop
    rcases List.mem_append.mp hop with hop | hop
    · exact hops op hop
    · rw [List.mem_singleton.mp hop]
      trivial
  rw [← hafter]
  exact hR.after hops' hanswer' h hs

end Tracks

end Session

end QuasiNewton
