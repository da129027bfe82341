import QuasiNewton.Proofs.Histories
import QuasiNewton.Proofs.Keeping

/-!
# Invariants of histories

What every step and every end of a budget preserves, every run and every history preserves, if the
lines reported do not matter to it. What is left of it after a failure is said apart: nothing, or
all of it.
-/

namespace QuasiNewton

variable {A : Arithmetic} {P : Type} {α β : Type}

namespace Action

/-- From a session the action leads to what it should lead to, whether it answers or fails. -/
def Upholds (post : α → Session A P → Prop) (fail : Session A P → Prop) (x : Action A P α)
    (s : Session A P) : Prop :=
  match x.outcome s with
  | (.ok a, s') => post a s'
  | (.error _, s') => fail s'

namespace Upholds

variable {post : β → Session A P → Prop} {m : α → Session A P → Prop}
  {fail : Session A P → Prop} {x : Action A P α} {y : Action A P β} {f : α → Action A P β}
  {s s' : Session A P}

/-- What holds of every answer and after every failure is upheld. -/
theorem of_cases (hpost : ∀ b s', y.outcome s = (.ok b, s') → post b s')
    (hfail : ∀ e s', y.outcome s = (.error e, s') → fail s') : Upholds post fail y s := by
  unfold Upholds
  split
  case h_1 b s' hy => exact hpost b s' hy
  case h_2 e s' hy => exact hfail e s' hy

/-- What is upheld holds after an answer. -/
theorem of_ok {b : β} (h : Upholds post fail y s) (hy : y.outcome s = (.ok b, s')) : post b s' := by
  unfold Upholds at h
  rw [hy] at h
  exact h

/-- What is upheld holds after a failure. -/
theorem of_error {e : Fault A.Real} (h : Upholds post fail y s)
    (hy : y.outcome s = (.error e, s')) : fail s' := by
  unfold Upholds at h
  rw [hy] at h
  exact h

/-- What holds in both cases holds wherever the action ends. -/
theorem outcome_snd {I : Session A P → Prop} (h : Upholds post fail y s)
    (hpost : ∀ b s', post b s' → I s') (hfail : ∀ s', fail s' → I s') : I (y.outcome s).2 := by
  rcases hy : y.outcome s with ⟨e | b, s'⟩
  · exact hfail s' (h.of_error hy)
  · exact hpost b s' (h.of_ok hy)

/-- What is upheld may be weakened. -/
theorem mono {post' : β → Session A P → Prop} {fail' : Session A P → Prop}
    (h : Upholds post fail y s) (hpost : ∀ b s', post b s' → post' b s')
    (hfail : ∀ s', fail s' → fail' s') : Upholds post' fail' y s :=
  .of_cases (fun b s' hy => hpost b s' (h.of_ok hy)) fun _ s' hy => hfail s' (h.of_error hy)

/-- What amounts to the same is led to by the same actions. -/
theorem congr {I J : Session A P → Prop} (h : ∀ s, I s ↔ J s) :
    Upholds (fun _ => I) I y s ↔ Upholds (fun _ => J) J y s := by
  obtain rfl : I = J := funext fun s => propext (h s)
  rfl

/-- Both of what an action leads to. -/
theorem and {post' : β → Session A P → Prop} {fail' : Session A P → Prop}
    (h : Upholds post fail y s) (h' : Upholds post' fail' y s) :
    Upholds (fun b s' => post b s' ∧ post' b s') (fun s' => fail s' ∧ fail' s') y s :=
  .of_cases (fun _ _ hy => ⟨h.of_ok hy, h'.of_ok hy⟩) fun _ _ hy => ⟨h.of_error hy, h'.of_error hy⟩

/-- What holds of the session after an action holds in both cases. -/
theorem of_outcome_snd {I : Session A P → Prop} (h : I (y.outcome s).2) :
    Upholds (fun _ => I) I y s := by
  refine .of_cases (fun b s' hy => ?_) fun e s' hy => ?_
  · rwa [hy] at h
  · rwa [hy] at h

/-- What depends on a view that is kept holds after as before. -/
theorem of_keeps {V : Type} {view : Session A P → V} {I : Session A P → Prop} (hy : y.Keeps view)
    (h : ∀ s', view s' = view s → I s') : Upholds (fun _ => I) I y s :=
  .of_outcome_snd (h _ (hy s))

/-- An answer that is known upholds what holds of it. -/
theorem of_pure {b : β} (h : post b s) : Upholds post fail (pure b) s := h

/-- A change of the session upholds what holds after it. -/
theorem of_modify {post : Unit → Session A P → Prop} {g : Session A P → Session A P}
    (h : post () (g s)) : Upholds post fail (modify g) s := h

/-- To read the session upholds what the rest upholds in it. -/
theorem get_seq {f : Session A P → Action A P β} (h : Upholds post fail (f s) s) :
    Upholds post fail (get >>= f) s := h

/-- An action goes on where the one before it led. -/
theorem seq (hx : Upholds m fail x s) (hf : ∀ a s', m a s' → Upholds post fail (f a) s') :
    Upholds post fail (x >>= f) s := by
  unfold Upholds at hx ⊢
  rw [outcome_bind]
  rcases h : x.outcome s with ⟨e | a, s'⟩
  · rw [h] at hx
    exact hx
  · rw [h] at hx
    exact hf a s' hx

/-- To change the session upholds what the rest upholds after it. -/
theorem modify_seq {g : Session A P → Session A P} {y : Unit → Action A P β}
    (h : Upholds post fail (y ()) (g s)) : Upholds post fail (modify g >>= y) s := h

/-- An attempt upholds what holds when it fails and what the rest upholds when it answers. -/
theorem attempt_seq {z : Attempt A α} (hfail : ∀ e, z = .error e → fail s)
    (hf : ∀ a, z = .ok a → Upholds post fail (f a) s) :
    Upholds post fail (Session.attempt z >>= f) s := by
  cases z with
  | error e => exact hfail e rfl
  | ok a => exact hf a rfl

/-- A change of the arrays upholds what holds with the new ones, and with the old ones if it fails.
-/
theorem of_rework {post : Unit → Session A P → Prop} {g : Workspace A → Attempt A (Workspace A)}
    (hpost : ∀ w, g s.work = .ok w → post () { s with work := w })
    (hfail : ∀ e, g s.work = .error e → fail s) : Upholds post fail (Session.rework g) s :=
  .get_seq (.attempt_seq hfail fun w hw => .of_modify (hpost w hw))

end Upholds

end Action

namespace Session

open QuasiNewton.Action

variable {setup : Setup A P} {s s' : Session A P}

/-- A run answers with the report of the session it ends in. -/
theorem of_close {r : Report A} (h : (close setup).outcome s = (.ok r, s')) :
    ∃ norm, setup.norm s'.work.residual = .ok norm ∧ r = s'.summary norm := by
  have hlines : s' = { s with transcript := s'.transcript } :=
    eq_of_mute ((keeps_close setup).eq_of_outcome h)
  unfold close at h
  rw [outcome_get_bind] at h
  obtain ⟨norm, hnorm, h⟩ := outcome_attempt_bind_eq_ok.mp h
  obtain ⟨_, s₁, -, h⟩ := outcome_bind_eq_ok.mp h
  have hr : s.summary norm = r := by
    split at h
    · exact Except.ok.inj (congrArg Prod.fst h)
    · exact Except.ok.inj (congrArg Prod.fst h)
  rw [hlines]
  exact ⟨norm, hnorm, hr.symm⟩

/-- A run that answers reports the summary of the session that it leaves. -/
theorem of_run {r : Report A} (h : (run setup).outcome s = (.ok r, s')) :
    ∃ norm, setup.norm s'.work.residual = .ok norm ∧ r = s'.summary norm := by
  obtain ⟨_, s₁, -, h⟩ := outcome_bind_eq_ok.mp h
  rw [outcome_get_bind] at h
  obtain ⟨_, s₂, -, h⟩ := outcome_bind_eq_ok.mp h
  obtain ⟨_, s₃, -, h⟩ := outcome_bind_eq_ok.mp h
  exact of_close h

/-- A restart clears the verdict and the count of steps when it answers, and leaves them when it
fails. -/
theorem verdictAndSteps_restart (setup : Setup A P) (r : Restart A P) (s : Session A P) :
    Upholds (fun _ s' => s'.verdictAndSteps = ((.running, false), 0))
      (fun s' => s'.verdictAndSteps = s.verdictAndSteps) (restart setup r) s := by
  have hadopt : (adopt r : Action A P Unit).Keeps verdictAndSteps :=
    keeps_adopt (fun _ _ => rfl) (fun _ _ => rfl) r
  refine .seq (.of_keeps hadopt fun _ h => h) fun _ s₁ h₁ => .get_seq ?_
  refine .seq (.of_keeps (verdictAndSteps_relocate setup _ _) fun _ h => h.trans h₁)
    fun _ s₂ h₂ => ?_
  have hrenew : (renewMonitor setup r).Keeps verdictAndSteps :=
    keeps_renewMonitor setup (fun _ _ => rfl) (fun _ _ => rfl) r
  exact .seq (.of_keeps hrenew fun _ h => h.trans h₂) fun _ s₃ _ => .of_modify rfl

/-- A property of sessions that every part of a run preserves, and what is left of it when one
fails. -/
structure Invariant (setup : Setup A P) (I E : Session A P → Prop) : Prop where
  advance : ∀ {s}, I s → s.stopped = false → Upholds (fun _ => I) E (advance setup) s
  exhaust : ∀ {s}, I s → s.stopped = false →
    I { s with status := .iterationsExhausted, stopped := true }
  lines : ∀ {s} transcript, I s → I { s with transcript }
  weaken : ∀ {s}, I s → E s

namespace Invariant

variable {I E : Session A P → Prop} (hI : Invariant setup I E)

include hI

/-- A step upholds an invariant, whether the session goes on or has ended. -/
theorem step (hs : I s) : Upholds (fun _ => I) E (Session.step setup) s := by
  refine .get_seq ?_
  cases hstopped : s.stopped with
  | true => exact .of_pure hs
  | false => exact hI.advance hs hstopped

/-- So does any number of steps. -/
theorem steps (n : Nat) (hs : I s) : Upholds (fun _ => I) E (Session.steps setup n) s := by
  induction n generalizing s with
  | zero => exact .of_pure hs
  | succ n ih => exact .seq (hI.step hs) fun _ _ h => ih h

/-- Parts of a run that only report preserve every invariant. -/
theorem of_keeps_mute {x : Action A P α} (hx : x.Keeps mute) (hs : I s) :
    Upholds (fun _ => I) E x s := by
  refine (Upholds.of_keeps hx fun s' h => ?_).mono (fun _ _ h => h) fun _ => hI.weaken
  rw [eq_of_mute h]
  exact hI.lines _ hs

/-- So does the loop of a run. -/
theorem iterate (fuel : Nat) (hs : I s) :
    Upholds (fun _ => I) E (Session.iterate setup fuel) s := by
  induction fuel generalizing s with
  | zero => exact .of_pure hs
  | succ fuel ih =>
    refine .get_seq ?_
    split
    · refine .seq (hI.step hs) fun _ s₁ h₁ => ?_
      exact .seq (hI.of_keeps_mute (keeps_progress setup) h₁) fun _ s₂ h₂ => ih h₂
    · exact .of_pure hs

/-- A run preserves an invariant. -/
theorem run (hs : I s) : Upholds (fun _ => I) E (Session.run setup) s := by
  refine .seq (hI.of_keeps_mute (keeps_announce setup) hs) fun _ s₁ h₁ => .get_seq ?_
  refine .seq (hI.iterate _ h₁) fun _ s₂ h₂ => .seq (.of_modify ?_) fun _ s₃ h₃ =>
    hI.of_keeps_mute (keeps_close setup) h₃
  split
  · exact h₂
  · exact hI.exhaust h₂ (Bool.eq_false_iff.mpr ‹_›)

/-- An operation of solving preserves an invariant that restarts preserve. -/
theorem perform {op : Operation A P} (hop : op.IsSolving)
    (hrestart : ∀ r, op = .restart r → Upholds (fun _ => I) E (restart setup r) s) (hs : I s) :
    Upholds (fun _ => I) E (Session.perform setup op) s := by
  cases op with
  | steps n => exact .seq (hI.steps n hs) fun _ _ h => .of_pure h
  | run => exact .seq (hI.run hs) fun _ _ h => .of_pure h
  | restart r => exact .seq (hrestart r rfl) fun _ _ h => .of_pure h
  | setResidual t => exact hop.elim
  | setInverse t => exact hop.elim
  | setStopped b => exact hop.elim

/-- Over a history whose operations answer an invariant is preserved that its restarts preserve. -/
theorem after_of_mem {ops : List (Operation A P)} (hops : ∀ op ∈ ops, op.IsSolving)
    (hrestart : ∀ s r, .restart r ∈ ops → I s → Upholds (fun _ => I) E (restart setup r) s)
    (hanswer : Completes setup s ops) (hs : I s) : I (Session.after setup s ops) := by
  induction ops generalizing s with
  | nil => exact hs
  | cons op ops ih =>
    obtain ⟨a, ha⟩ := hanswer.1
    have hperform := hI.perform (hops op List.mem_cons_self)
      (fun r hr => hrestart s r (hr ▸ List.mem_cons_self) hs) hs
    exact ih (fun op' h => hops op' (List.mem_cons_of_mem _ h))
      (fun s r h => hrestart s r (List.mem_cons_of_mem _ h)) hanswer.2
      (hperform.of_ok (Prod.ext ha rfl))

/-- The same for an invariant that every restart preserves. -/
theorem after {ops : List (Operation A P)} (hops : ∀ op ∈ ops, op.IsSolving)
    (hrestart : ∀ s r, I s → Upholds (fun _ => I) E (restart setup r) s)
    (hanswer : Completes setup s ops) (hs : I s) : I (after setup s ops) :=
  hI.after_of_mem hops (fun s r _ => hrestart s r) hanswer hs

omit hI in
/-- Over a history an invariant that no failure harms is preserved whatever the operations answer.
-/
theorem after_of_robust {I : Session A P → Prop} (hI : Invariant setup I I)
    {ops : List (Operation A P)} (hops : ∀ op ∈ ops, op.IsSolving)
    (hrestart : ∀ s r, .restart r ∈ ops → I s → Upholds (fun _ => I) I (restart setup r) s)
    (hs : I s) : I (Session.after setup s ops) := by
  induction ops generalizing s with
  | nil => exact hs
  | cons op ops ih =>
    have hperform := hI.perform (hops op List.mem_cons_self)
      (fun r hr => hrestart s r (hr ▸ List.mem_cons_self) hs) hs
    exact ih (fun op' h => hops op' (List.mem_cons_of_mem _ h))
      (fun s r h => hrestart s r (List.mem_cons_of_mem _ h))
      (hperform.outcome_snd (fun _ _ h => h) fun _ h => h)

omit hI in
/-- Where such an invariant makes the best iterate belong to the arrays, it does so over steps. -/
theorem fitting {I : Session A P → Prop} (hI : Invariant setup I I) (hfits : ∀ s, I s → s.Fits)
    {ops : List (Operation A P)} (hops : ∀ op ∈ ops, op.TakesSteps) (hs : I s) :
    Fitting setup s ops := by
  induction ops generalizing s with
  | nil => trivial
  | cons op ops ih =>
    have hop := hops op List.mem_cons_self
    have hperform := hI.perform hop.isSolving (fun r hr => (hr ▸ hop).elim) hs
    exact ⟨fun _ => hfits s hs, ih (fun op' h => hops op' (List.mem_cons_of_mem _ h))
      (hperform.outcome_snd (fun _ _ h => h) fun _ h => h)⟩

end Invariant

end Session

end QuasiNewton
