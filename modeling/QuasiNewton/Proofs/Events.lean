import QuasiNewton.Proofs.Success
import QuasiNewton.Proofs.Verbosity

/-!
# Events among the lines

The lines of a transcript that tell of events of steps, with the numbers of the steps. Announcing a
run, reporting its progress and closing it add none. What every step and every end of a budget
preserves, and further lines that tell of no event, every history of steps and runs preserves,
whatever they answer.
-/

namespace QuasiNewton

open QuasiNewton.Action

variable {A : Arithmetic} {P : Type} {α β : Type}

/-! ## Events and lines -/

section

variable {ρ : Type}

/-- The number that a reset carries, and the budget it is told with. -/
def Event.reset? : Event ρ → Option (Int × Quantity ρ)
  | .reset count budget => some (count, budget)
  | .restored .. | .exhausted _ | .guarded => none

/-- Does the event tell of a replaced denominator? -/
def Event.isGuarded : Event ρ → Bool
  | .guarded => true
  | .restored .. | .exhausted _ | .reset .. => false

/-- Does the event tell that the budget of resets is used up? -/
def Event.isExhausted : Event ρ → Bool
  | .exhausted _ => true
  | .restored .. | .reset .. | .guarded => false

/-- Does the event tell of a return to the best iterate? -/
def Event.isRestored : Event ρ → Bool
  | .restored .. => true
  | .exhausted _ | .reset .. | .guarded => false

/-- The event that a line tells of, with the number of its step. -/
def Line.event? : Line ρ → Option (Int × Event ρ)
  | .event step what => some (step, what)
  | .opening .. | .progress .. | .verdict _ | .residualNorm _ | .counts .. => none

/-- The line that tells of an event. -/
def Line.ofEvent (e : Int × Event ρ) : Line ρ := .event e.1 e.2

/-- The events that lines tell of. -/
def events (l : List (Line ρ)) : List (Int × Event ρ) := l.filterMap Line.event?

@[simp] theorem events_nil : events ([] : List (Line ρ)) = [] := rfl

@[simp] theorem events_append (l m : List (Line ρ)) : events (l ++ m) = events l ++ events m :=
  List.filterMap_append

/-- Lines written for events tell of these. -/
@[simp] theorem events_map_ofEvent (l : List (Int × Event ρ)) :
    events (l.map Line.ofEvent) = l := by
  rw [events, List.filterMap_map]
  exact List.filterMap_some

end

/-! ## Asides -/

namespace Action

/-- The action does nothing but report lines that tell of no event. -/
def IsAside (x : Action A P α) : Prop :=
  ∀ s, ∃ lines, events lines = [] ∧
    (x.outcome s).2 = { s with transcript := s.transcript ++ lines }

namespace IsAside

variable {x : Action A P α} {f : α → Action A P β}

/-- An answer that is known is an aside. -/
theorem of_pure (a : α) : (pure a : Action A P α).IsAside := by
  intro s
  exact ⟨[], rfl, by rw [List.append_nil]; rfl⟩

/-- An attempt is one, whether it answers or fails. -/
theorem of_attempt (y : Attempt A α) : (Session.attempt y : Action A P α).IsAside := by
  intro s
  refine ⟨[], rfl, ?_⟩
  rw [Session.outcome_attempt, List.append_nil]

/-- A report of a line that tells of no event is one. -/
theorem of_report {line : Line A.Real} (h : line.event? = none) :
    (Session.report line : Action A P Unit).IsAside := by
  intro s
  refine ⟨[line], ?_, rfl⟩
  simp [events, h]

/-- Two asides in a row are one. -/
theorem bind (hx : x.IsAside) (hf : ∀ a, (f a).IsAside) : (x >>= f).IsAside := by
  intro s
  obtain ⟨l, hl, hs⟩ := hx s
  rw [outcome_bind]
  rcases hx : x.outcome s with ⟨e | a, s₁⟩
  · rw [hx] at hs
    exact ⟨l, hl, hs⟩
  · rw [hx] at hs
    obtain rfl : s₁ = _ := hs
    obtain ⟨m, hm, hs₂⟩ := hf a { s with transcript := s.transcript ++ l }
    refine ⟨l ++ m, by rw [events_append, hl, hm]; rfl, ?_⟩
    rw [← List.append_assoc]
    exact hs₂

/-- What depends on the session is an aside if it is one in every session. -/
theorem get_bind {f : Session A P → Action A P β} (hf : ∀ s, (f s).IsAside) :
    (get >>= f).IsAside := fun s => hf s s

end IsAside

end Action

namespace Session

variable (setup : Setup A P)

/-- To ask whether lines are wanted is an aside. -/
theorem isAside_speaks (level : Int) : (speaks setup level).IsAside :=
  .bind (.of_attempt _) fun _ => .of_pure _

/-- The lines about the start of a run tell of no event. -/
theorem isAside_announce : (announce setup).IsAside := by
  refine .bind (isAside_speaks setup 1) fun b => ?_
  split
  · exact .get_bind fun _ => .bind (.of_attempt _) fun _ => .bind (.of_attempt _) fun _ =>
      .of_report rfl
  · exact .of_pure ()

/-- Nor do the lines about its progress. -/
theorem isAside_progress : (progress setup).IsAside := by
  refine .bind (isAside_speaks setup 1) fun b => ?_
  split
  · refine .get_bind fun s => ?_
    split
    · exact .bind (.of_attempt _) fun _ => .of_report rfl
    · exact .of_pure ()
  · exact .of_pure ()

/-- Nor do the lines about its end. -/
theorem isAside_close : (close setup).IsAside := by
  refine .get_bind fun s => .bind (.of_attempt _) fun norm =>
    .bind (isAside_speaks setup 0) fun b => ?_
  split
  · exact .bind (.of_report rfl) fun _ => .bind (.of_report rfl) fun _ =>
      .bind (.of_report rfl) fun _ => .of_pure _
  · exact .of_pure _

/-! ## Histories -/

/-- A property of sessions that steps and ends of budgets preserve, whatever they answer, and lines
that tell of no event. -/
structure Persists (setup : Setup A P) (I : Session A P → Prop) : Prop where
  step : ∀ {s}, I s → I ((Session.step setup).outcome s).2
  exhaust : ∀ {s}, I s → s.stopped = false →
    I { s with status := .iterationsExhausted, stopped := true }
  aside : ∀ {s lines}, I s → events lines = [] →
    I { s with transcript := s.transcript ++ lines }

namespace Persists

variable {setup : Setup A P} {I : Session A P → Prop} {s : Session A P} (hI : Persists setup I)

include hI

/-- A step upholds what persists, whether it answers or fails. -/
theorem upholds_step (hs : I s) : Upholds (fun _ => I) I (Session.step setup) s :=
  .of_outcome_snd (hI.step hs)

/-- So does an aside. -/
theorem upholds_aside {x : Action A P α} (hx : x.IsAside) (hs : I s) :
    Upholds (fun _ => I) I x s := by
  obtain ⟨lines, hlines, h⟩ := hx s
  refine .of_outcome_snd ?_
  rw [h]
  exact hI.aside hs hlines

/-- So does any number of steps. -/
theorem steps (n : Nat) (hs : I s) : Upholds (fun _ => I) I (Session.steps setup n) s := by
  induction n generalizing s with
  | zero => exact .of_pure hs
  | succ n ih => exact .seq (hI.upholds_step hs) fun _ _ h => ih h

/-- So does the loop of a run. -/
theorem iterate (fuel : Nat) (hs : I s) :
    Upholds (fun _ => I) I (Session.iterate setup fuel) s := by
  induction fuel generalizing s with
  | zero => exact .of_pure hs
  | succ fuel ih =>
    refine .get_seq ?_
    by_cases hcontinue : s.mayContinue = true
    · rw [if_pos hcontinue]
      refine .seq (hI.upholds_step hs) fun _ s₁ h₁ => ?_
      exact .seq (hI.upholds_aside (isAside_progress setup) h₁) fun _ s₂ h₂ => ih h₂
    · rw [if_neg hcontinue]
      exact .of_pure hs

/-- So does a run, whatever it reports. -/
theorem run (hs : I s) : Upholds (fun _ => I) I (Session.run setup) s := by
  refine .seq (hI.upholds_aside (isAside_announce setup) hs) fun _ s₁ h₁ => .get_seq ?_
  refine .seq (hI.iterate _ h₁) fun _ s₂ h₂ => ?_
  refine .modify_seq (hI.upholds_aside (isAside_close setup) ?_)
  by_cases hstopped : s₂.stopped = true
  · rw [if_pos hstopped]
    exact h₂
  · rw [if_neg hstopped]
    exact hI.exhaust h₂ (Bool.eq_false_iff.mpr hstopped)

/-- Over a history of steps and runs such a property stays. -/
theorem after {ops : List (Operation A P)} (hops : ∀ op ∈ ops, op.TakesSteps) (hs : I s) :
    I (Session.after setup s ops) := by
  induction ops generalizing s with
  | nil => exact hs
  | cons op ops ih =>
    have hnext : Upholds (fun _ => I) I (perform setup op) s := by
      have hop := hops op List.mem_cons_self
      cases op with
      | steps n => exact .seq (hI.steps n hs) fun _ _ h => .of_pure h
      | run => exact .seq (hI.run hs) fun _ _ h => .of_pure h
      | _ => exact hop.elim
    exact ih (fun op' hop' => hops op' (List.mem_cons_of_mem _ hop'))
      (hnext.outcome_snd (fun _ _ h => h) fun _ h => h)

end Persists

end Session

end QuasiNewton
