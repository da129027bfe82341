import QuasiNewton.Proofs.Lines
import QuasiNewton.Proofs.Solves
import QuasiNewton.Proofs.Stepping

/-!
# Verbosity

How much is reported changes nothing but the lines. Between two verbosities everything that is done
is done alike, and a relation of transcripts that every line keeps, said or left out as each of them
would have it, holds from the start of a solve to its end. Lines about the progress ask the norm
once more than the steps do, which is seen only if it refuses: norms depend on the residual alone.
-/

namespace QuasiNewton

open QuasiNewton.Action

variable {A : Arithmetic} {P : Type} {α β : Type}

/-- The setup with another verbosity. -/
def Setup.saying (setup : Setup A P) (q : Quantity A.Real) : Setup A P :=
  { setup with verbosity := .number q }

/-- Nothing changes with the verbosity that it has. -/
theorem Setup.saying_self {setup : Setup A P} {q : Quantity A.Real}
    (h : setup.verbosity = .number q) : setup.saying q = setup := by
  rw [saying, ← h]

/-- What a transcript is after a line of a level. -/
def Quantity.utter {M : Magnitudes} (q : Quantity M.Real) (level : Int) (line : Line M.Real)
    (l : List (Line M.Real)) : List (Line M.Real) :=
  if q.reaches level then l ++ [line] else l

/-- A relation of transcripts that every line keeps, whether the verbosities say it or not. -/
def Quantity.Matched {M : Magnitudes} (q q' : Quantity M.Real)
    (r : List (Line M.Real) → List (Line M.Real) → Prop) : Prop :=
  ∀ level line l l', 0 ≤ level → r l l' → r (q.utter level line l) (q'.utter level line l')

/-- Two sessions are the same but for their lines, which are in a relation. -/
structure Session.Beside (r : List (Line A.Real) → List (Line A.Real) → Prop)
    (s t : Session A P) : Prop where
  same : t = { s with transcript := t.transcript }
  lines : r s.transcript t.transcript

/-! ## Actions that do alike -/

namespace Action

variable {r : List (Line A.Real) → List (Line A.Real) → Prop}

/-- From sessions that are the same but for lines in a relation two actions answer the same and lead
to such sessions. -/
def Echoes (r : List (Line A.Real) → List (Line A.Real) → Prop) (x y : Action A P α) : Prop :=
  ∀ s t, Session.Beside r s t → Agree (fun _ => Session.Beside r) (Session.Beside r) x y s t

namespace Echoes

variable {x y : Action A P α} {f g : α → Action A P β}

/-- Two equal answers echo each other. -/
theorem of_pure (a : α) : Echoes r (pure a : Action A P α) (pure a) :=
  fun _ _ h => .of_pure rfl h

/-- So do two attempts at the same. -/
theorem of_attempt (z : Attempt A α) :
    Echoes r (Session.attempt z : Action A P α) (Session.attempt z) :=
  fun _ _ h => .of_attempt rfl (fun _ _ => h) h

/-- So does a change of the session that neither reads nor touches its lines. -/
theorem of_modify {m : Session A P → Session A P}
    (hm : ∀ s transcript, m { s with transcript } = { m s with transcript }) :
    Echoes r (modify m) (modify m) := by
  intro s t h
  have hs : (m s).transcript = s.transcript := by
    have hsame := congrArg Session.transcript (hm s s.transcript)
    exact hsame
  have ht : m t = { m s with transcript := t.transcript } :=
    (congrArg m h.same).trans (hm s t.transcript)
  have hlines : (m t).transcript = t.transcript := by
    rw [ht]
  refine .of_modify ⟨?_, ?_⟩
  · rw [hlines]
    exact ht
  · rw [hs, hlines]
    exact h.lines

/-- Actions in a row echo each other if each of them does. -/
theorem bind (hx : Echoes r x y) (hf : ∀ a, Echoes r (f a) (g a)) :
    Echoes r (x >>= f) (y >>= g) :=
  fun s t h => (hx s t h).seq fun a s' t' h' => hf a s' t' h'

/-- What depends on the session echoes if it does in every session and does not read the lines. -/
theorem get_bind {f g : Session A P → Action A P β} (hf : ∀ s, Echoes r (f s) (g s))
    (hread : ∀ s transcript, g { s with transcript } = g s) :
    Echoes r (get >>= f) (get >>= g) := by
  intro s t h
  have ht : g t = g s := (congrArg g h.same).trans (hread s t.transcript)
  refine .get_seq ?_
  rw [ht]
  exact hf s s t h

/-- A choice between two actions echoes if both actions do. -/
theorem ite {c : Prop} [Decidable c] {x' y' : Action A P α} (h : Echoes r x y)
    (h' : Echoes r x' y') : Echoes r (if c then x else x') (if c then y else y') := by
  split
  · exact h
  · exact h'

/-- A change of the arrays echoes itself. -/
theorem of_rework (m : Workspace A → Attempt A (Workspace A)) :
    Echoes r (Session.rework m : Action A P Unit) (Session.rework m) :=
  .get_bind (fun _ => .bind (.of_attempt _) fun _ => .of_modify fun _ _ => rfl) fun _ _ => rfl

end Echoes

end Action

namespace Session

variable {setup : Setup A P} {q q' : Quantity A.Real}
  {r : List (Line A.Real) → List (Line A.Real) → Prop} {s s' t : Session A P}

/-! ## Steps -/

/-- A line of an event is said or left out. -/
theorem outcome_log_saying (q : Quantity A.Real) (what : Event A.Real) (s : Session A P) :
    (log (setup.saying q) what).outcome s = (.ok (), { s with
      transcript := Quantity.utter (M := A.toMagnitudes) q 2 (.event s.statistics.steps what)
        s.transcript }) := by
  rw [log, outcome_bind, outcome_speaks (q := q) rfl]
  unfold Quantity.utter
  dsimp only
  split <;> rfl

section

variable (hq : Quantity.Matched (M := A.toMagnitudes) q q' r)

include hq

/-- The lines for an event stay in the relation, whatever the two verbosities want. -/
theorem echoes_log (what : Event A.Real) :
    Echoes r (log (setup.saying q) what) (log (setup.saying q') what) := by
  intro s t h
  have hsteps : t.statistics.steps = s.statistics.steps :=
    congrArg (fun s => s.statistics.steps) h.same
  refine .of_outcome (outcome_log_saying q what s) (outcome_log_saying q' what t) ⟨?_, ?_⟩
  · rw [h.same]
  · rw [hsteps]
    exact hq _ _ _ _ (by decide) h.lines

omit hq in
/-- A count echoes itself. -/
theorem echoes_count (f : Statistics.Field) :
    Echoes r (count f : Action A P Unit) (count f) :=
  .of_modify fun _ _ => rfl

omit hq in
/-- The caller's array is settled alike. -/
theorem echoes_settleOrigin (setup : Setup A P) :
    Echoes r (settleOrigin setup) (settleOrigin setup) := by
  refine .of_modify fun s l => ?_
  cases setup.engine with
  | inPlace =>
    dsimp only
    split <;> rfl
  | rebuilding => rfl

omit hq in
/-- The residual is evaluated alike. -/
theorem echoes_evaluate (setup : Setup A P) (array : Tensor A) :
    Echoes r (evaluate setup array) (evaluate setup array) :=
  .get_bind (fun _ => .bind (.of_modify fun _ _ => rfl) fun _ => .of_attempt _) fun _ _ => rfl

omit hq in
/-- Sessions with different lines go to a point alike. -/
theorem echoes_moveTo (setup : Setup A P) (point : Tensor A) :
    Echoes r (moveTo setup point) (moveTo setup point) :=
  .bind (.of_rework _) fun _ => .bind (echoes_settleOrigin setup) fun _ => .get_bind (fun _ =>
    .bind (echoes_evaluate setup _) fun _ => .of_modify fun _ _ => rfl) fun _ _ => rfl

omit hq in
/-- They make the same probe. -/
theorem echoes_probe (setup : Setup A P) : Echoes r (probe setup) (probe setup) := by
  refine .bind (.of_rework _) fun _ => .bind ?_ fun _ => .bind (.of_rework _) fun _ =>
    .bind (echoes_settleOrigin setup) fun _ => ?_
  · exact .get_bind (fun _ => .bind (.of_modify fun _ _ => rfl) fun _ => .of_attempt _)
      fun _ _ => rfl
  · exact .get_bind (fun _ => .bind (echoes_evaluate setup _) fun _ =>
      .bind (.of_modify fun _ _ => rfl) fun _ => .of_modify fun _ _ => rfl) fun _ _ => rfl

omit hq in
/-- Their monitors answer the same. -/
theorem echoes_consult (setup : Setup A P) : Echoes r (consult setup) (consult setup) :=
  .get_bind (fun _ => .bind (.of_modify fun _ _ => rfl) fun _ => .of_attempt _) fun _ _ => rfl

/-- They are concluded alike, with different lines about the return to the best iterate. -/
theorem echoes_conclude : Echoes r (conclude (setup.saying q)) (conclude (setup.saying q')) := by
  refine .bind (.of_modify fun _ _ => rfl) fun _ => .bind (.of_rework _) fun _ =>
    .get_bind (fun s => ?_) fun _ _ => rfl
  split
  · exact .get_bind (fun _ => .bind (echoes_moveTo setup _) fun _ =>
      .bind (.of_modify fun _ _ => rfl) fun _ =>
        .get_bind (fun _ => echoes_log hq _) fun _ _ => rfl) fun _ _ => rfl
  · exact .of_pure ()

/-- They are reset or stopped alike, with different lines about it. -/
theorem echoes_resetOrStop :
    Echoes r (resetOrStop (setup.saying q)) (resetOrStop (setup.saying q')) := by
  refine .get_bind (fun s => .ite ?_ ?_) fun _ _ => rfl
  · exact .bind (.of_modify fun _ _ => rfl) fun _ => echoes_log hq _
  · exact .bind (.of_rework _) fun _ => .bind (.of_modify fun _ _ => rfl) fun _ =>
      .get_bind (fun _ => echoes_log hq _) fun _ _ => rfl

/-- They are corrected alike, with different lines about a denominator that was replaced. -/
theorem echoes_correct : Echoes r (correct (setup.saying q)) (correct (setup.saying q')) := by
  refine .get_bind (fun s => .bind (.of_attempt _) fun (_, guarded) =>
    .bind (.of_modify fun _ _ => rfl) fun _ => ?_) fun _ _ => rfl
  split
  · exact .bind (.of_modify fun _ _ => rfl) fun _ => echoes_log hq _
  · exact .of_pure ()

/-- The second half of a step that goes on is the same under every verbosity but for its lines. -/
theorem echoes_refine : Echoes r (refine (setup.saying q)) (refine (setup.saying q')) := by
  refine .bind (.of_rework _) fun _ => .bind (.of_rework _) fun _ => .get_bind (fun s =>
    .bind (.of_attempt _) fun small => ?_) fun _ _ => rfl
  split
  · exact echoes_resetOrStop hq
  · exact echoes_correct hq

/-- So is a whole step. -/
theorem echoes_advance : Echoes r (advance (setup.saying q)) (advance (setup.saying q')) := by
  unfold advance
  refine .bind (echoes_count _) fun _ => .bind (echoes_probe setup) fun _ =>
    .bind (echoes_consult setup) fun stop => ?_
  split
  · exact echoes_conclude hq
  · exact echoes_refine hq

/-- Steps do alike, whatever they do. -/
theorem echoes_step : Echoes r (step (setup.saying q)) (step (setup.saying q')) := by
  refine .get_bind (fun s => ?_) fun _ _ => rfl
  split
  · exact .of_pure ()
  · exact echoes_advance hq

/-- The sessions that steps lead to are the same but for their lines. -/
theorem beside_attempts (h : Beside r s t) (k : Nat) :
    Beside r (attempts (setup.saying q) s k) (attempts (setup.saying q') t k) := by
  induction k with
  | zero => exact h
  | succ k ih => exact (echoes_step hq _ _ ih).after (fun _ _ _ h => h) fun _ _ h => h

end

/-! ## Runs -/

/-- A line about the progress that is due is said or left out, if the norm answers. -/
theorem outcome_progress_of_due (q : Quantity A.Real) (hdue : s.statistics.steps % 10 = 0)
    {x : A.Real} (hx : setup.norm s.work.residual = .ok x) :
    (progress (setup.saying q)).outcome s = (.ok (), { s with
      transcript := Quantity.utter (M := A.toMagnitudes) q 1
        (.progress s.statistics.steps x s.resets) s.transcript }) := by
  rw [progress, outcome_bind, outcome_speaks (q := q) rfl]
  unfold Quantity.utter
  dsimp only
  split
  · rw [outcome_get_bind, if_pos hdue]
    exact outcome_attempt_bind_eq_ok.mpr ⟨x, hx, rfl⟩
  · rfl

/-- In between, nothing is reported about the progress, whatever the verbosity. -/
theorem outcome_progress_of_not_due (q : Quantity A.Real) (hdue : ¬s.statistics.steps % 10 = 0) :
    (progress (setup.saying q)).outcome s = (.ok (), s) := by
  rw [progress, outcome_bind, outcome_speaks (q := q) rfl]
  dsimp only
  split
  · rw [outcome_get_bind, if_neg hdue]
    rfl
  · rfl

/-- A session with tolerances that can be reported is announced, or not. -/
theorem outcome_announce_saying (q : Quantity A.Real) {a b : Quantity A.Real}
    (ha : reportable s.tolerances.absolute = .ok a)
    (hb : reportable s.tolerances.relative = .ok b) :
    (announce (setup.saying q)).outcome s = (.ok (), { s with
      transcript := Quantity.utter (M := A.toMagnitudes) q 1
        (.opening s.work.iterate.size setup.options.resetBudget s.budget a b) s.transcript }) := by
  rw [announce, outcome_bind, outcome_speaks (q := q) rfl]
  unfold Quantity.utter
  dsimp only
  split
  · rw [outcome_get_bind]
    exact outcome_attempt_bind_eq_ok.mpr ⟨a, ha, outcome_attempt_bind_eq_ok.mpr ⟨b, hb, rfl⟩⟩
  · rfl

/-- A session whose residual has a norm is closed with three lines, or without them. -/
theorem outcome_close_saying (q : Quantity A.Real) {x : A.Real}
    (hx : setup.norm s.work.residual = .ok x) :
    (close (setup.saying q)).outcome s = (.ok (s.summary x), { s with
      transcript := Quantity.utter (M := A.toMagnitudes) q 0
        (.counts s.statistics.evaluations s.statistics.steps s.resets)
        (Quantity.utter (M := A.toMagnitudes) q 0 (.residualNorm x)
          (Quantity.utter (M := A.toMagnitudes) q 0 (.verdict s.status) s.transcript)) }) := by
  rw [close, outcome_get_bind]
  refine outcome_attempt_bind_eq_ok.mpr ⟨x, hx, ?_⟩
  rw [outcome_bind, outcome_speaks (q := q) rfl]
  unfold Quantity.utter
  dsimp only
  split <;> rfl

section

variable (hq : Quantity.Matched (M := A.toMagnitudes) q q' r)

include hq

/-- A line that both verbosities want is reported alike. -/
theorem echoes_report {level : Int} (hlevel : 0 ≤ level)
    (hwanted : q.reaches (M := A.toMagnitudes) level = true)
    (hwanted' : q'.reaches (M := A.toMagnitudes) level = true) (line : Line A.Real) :
    Echoes r (report line : Action A P Unit) (report line) := by
  intro s t h
  have hlines := hq level line _ _ hlevel h.lines
  rw [Quantity.utter, Quantity.utter, if_pos hwanted, if_pos hwanted'] at hlines
  refine .of_outcome (outcome_report line s) (outcome_report line t) ⟨?_, hlines⟩
  rw [h.same]

/-- Lines about the progress are reported alike if both verbosities want them or neither does. -/
theorem echoes_progress
    (hsame : q.reaches (M := A.toMagnitudes) 1 = q'.reaches (M := A.toMagnitudes) 1) :
    Echoes r (progress (setup.saying q)) (progress (setup.saying q')) := by
  intro s t h
  have hspoken (q : Quantity A.Real) (s : Session A P) : (speaks (setup.saying q) 1).outcome s =
      (.ok (q.reaches (M := A.toMagnitudes) 1), s) := outcome_speaks rfl 1 s
  have hspeaks : Agree (fun b s' t' => b = q.reaches (M := A.toMagnitudes) 1 ∧ Beside r s' t')
      (Beside r) (speaks (setup.saying q) 1) (speaks (setup.saying q') 1) s t :=
    .of_outcome (hspoken q s) (hsame ▸ hspoken q' t) ⟨rfl, h⟩
  refine hspeaks.seq fun b s' t' ⟨hb, h'⟩ => ?_
  cases b with
  | false => exact .of_pure rfl h'
  | true =>
    have hlast : Echoes r (get >>= fun s : Session A P => if s.statistics.steps % 10 = 0 then
          attempt (setup.norm s.work.residual) >>= fun x =>
            report (.progress s.statistics.steps x s.resets)
        else pure ())
        (get >>= fun s : Session A P => if s.statistics.steps % 10 = 0 then
          attempt (setup.norm s.work.residual) >>= fun x =>
            report (.progress s.statistics.steps x s.resets)
        else pure ()) := by
      refine .get_bind (fun s => .ite (.bind (.of_attempt _) fun x => ?_) (.of_pure ()))
        fun _ _ => rfl
      exact echoes_report hq (by decide) hb.symm (hsame ▸ hb.symm) _
    exact hlast s' t' h'

/-- So are they from sessions whose residual has a norm where a line is due. -/
theorem agree_progress (h : Beside r s t)
    (hnorm : s.statistics.steps % 10 = 0 → ∃ x, setup.norm s.work.residual = .ok x) :
    Agree (fun _ => Beside r) (Beside r) (progress (setup.saying q)) (progress (setup.saying q'))
      s t := by
  have ht := h.same
  have hsteps : t.statistics.steps = s.statistics.steps :=
    congrArg (fun s => s.statistics.steps) ht
  have hresets : t.resets = s.resets := congrArg (fun s => s.resets) ht
  by_cases hdue : s.statistics.steps % 10 = 0
  · obtain ⟨x, hx⟩ := hnorm hdue
    have hx' : setup.norm t.work.residual = .ok x := by
      rw [ht]
      exact hx
    refine .of_outcome (outcome_progress_of_due q hdue hx)
      (outcome_progress_of_due q' (hsteps ▸ hdue) hx') ⟨?_, ?_⟩
    · rw [ht]
    · rw [hsteps, hresets]
      exact hq _ _ _ _ (by decide) h.lines
  · exact .of_outcome (outcome_progress_of_not_due q hdue)
      (outcome_progress_of_not_due q' (hsteps ▸ hdue)) h

/-- The loops of runs do alike. -/
theorem agree_iterate (h : Beside r s t)
    (hnorm : q.reaches (M := A.toMagnitudes) 1 = q'.reaches (M := A.toMagnitudes) 1 ∨
      Measured (setup.saying q) s) (fuel : Nat) :
    Agree (fun _ => Beside r) (Beside r) (iterate (setup.saying q) fuel)
      (iterate (setup.saying q') fuel) s t := by
  induction fuel generalizing s t with
  | zero => exact .of_pure rfl h
  | succ fuel ih =>
    have hcontinue : t.mayContinue = s.mayContinue := by
      rw [h.same]
      rfl
    refine .get_seq ?_
    rw [hcontinue]
    by_cases hgoes : s.mayContinue = true
    · rw [if_pos hgoes, if_pos hgoes]
      refine (echoes_step hq s t h).with_outcome.seq fun _ s₁ t₁ ⟨hstep, h₁⟩ => ?_
      have hprogress : Agree (fun _ => Beside r) (Beside r) (progress (setup.saying q))
          (progress (setup.saying q')) s₁ t₁ := by
        rcases hnorm with hsame | hmeasured
        · exact echoes_progress hq hsame s₁ t₁ h₁
        · exact agree_progress hq h₁ (hmeasured.first hgoes hstep)
      refine hprogress.with_outcome.seq fun _ s₂ t₂ ⟨hreported, h₂⟩ => ih h₂ ?_
      refine hnorm.imp_right fun hmeasured => ?_
      have hs₂ := eq_of_mute ((keeps_progress _).eq_of_outcome hreported)
      rw [hs₂]
      exact (hmeasured.next hgoes hstep).lines _
    · rw [if_neg hgoes, if_neg hgoes]
      exact .of_pure rfl h

/-- Sessions are closed alike, whether their residual has a norm or not. -/
theorem echoes_close : Echoes r (close (setup.saying q)) (close (setup.saying q')) := by
  intro s t h
  have ht := h.same
  have hresidual : setup.norm t.work.residual = setup.norm s.work.residual := by rw [ht]
  cases hx : setup.norm s.work.residual with
  | error e =>
    have hfails {q : Quantity A.Real} {s : Session A P}
        (hx : setup.norm s.work.residual = .error e) :
        (close (setup.saying q)).outcome s = (.error e, s) := by
      rw [close, outcome_get_bind]
      refine outcome_bind_eq_error.mpr (.inl ?_)
      rw [outcome_attempt]
      exact congrArg (Prod.mk · s) hx
    unfold Agree
    rw [hfails hx, hfails (hresidual.trans hx)]
    exact ⟨rfl, h⟩
  | ok x =>
    have hclose := outcome_close_saying q' (hresidual.trans hx)
    rw [show t.summary x = s.summary x by rw [ht]; rfl] at hclose
    refine .of_outcome (outcome_close_saying q hx) hclose ⟨?_, ?_⟩
    · rw [ht]
    · dsimp only
      rw [show t.status = s.status by rw [ht], show t.statistics = s.statistics by rw [ht],
        show t.resets = s.resets by rw [ht]]
      exact hq _ _ _ _ le_rfl (hq _ _ _ _ le_rfl (hq _ _ _ _ le_rfl h.lines))

/-- Runs do alike. -/
theorem agree_run (h : Beside r s t) {a b : Quantity A.Real}
    (ha : reportable s.tolerances.absolute = .ok a) (hb : reportable s.tolerances.relative = .ok b)
    (hnorm : q.reaches (M := A.toMagnitudes) 1 = q'.reaches (M := A.toMagnitudes) 1 ∨
      Measured (setup.saying q) s) :
    Agree (fun _ => Beside r) (Beside r) (run (setup.saying q)) (run (setup.saying q')) s t := by
  have ht := h.same
  have hannounce : Agree (fun _ u u' => ∃ l l', u = { s with transcript := l } ∧
      u' = { s with transcript := l' } ∧ r l l') (Beside r) (announce (setup.saying q))
      (announce (setup.saying q')) s t := by
    refine .of_outcome (outcome_announce_saying q ha hb)
      (outcome_announce_saying q' (by rw [ht]; exact ha) (by rw [ht]; exact hb))
      ⟨_, _, rfl, ?_, hq 1 _ _ _ (by decide) h.lines⟩
    rw [ht]
  refine hannounce.seq fun _ u u' ⟨l, l', hu, hu', hlines⟩ => .get_seq ?_
  subst hu hu'
  have hloop : Agree (fun _ => Beside r) (Beside r)
      (iterate (setup.saying q) (s.budget.ceiling (M := A.toMagnitudes)))
      (iterate (setup.saying q') (s.budget.ceiling (M := A.toMagnitudes)))
      { s with transcript := l } { s with transcript := l' } :=
    agree_iterate hq ⟨rfl, hlines⟩ (hnorm.imp_right fun h => h.lines l) _
  refine hloop.seq fun _ s₁ t₁ h₁ => ?_
  have hexhaust : Echoes r (exhaust : Action A P Unit) exhaust :=
    .of_modify fun s transcript => by
      dsimp only
      split <;> rfl
  exact (hexhaust s₁ t₁ h₁).seq fun _ s₂ t₂ h₂ => echoes_close hq s₂ t₂ h₂

end

/-! ## Solves -/

section

variable {request : Request A P} (hq : Quantity.Matched (M := A.toMagnitudes) q q' r)
  (hnil : r [] [])

include hq hnil

/-- Runs of a session that was started do alike. -/
theorem agree_run_of_start {n : Nat} (hstart : start setup request = (.ok s, n))
    (hnorm : q.reaches (M := A.toMagnitudes) 1 = q'.reaches (M := A.toMagnitudes) 1 ∨
      Measured (setup.saying q) s) :
    Agree (fun _ => Beside r) (Beside r) (run (setup.saying q)) (run (setup.saying q')) s s := by
  obtain ⟨a, b, ha, hb⟩ := reportable_of_start hstart
  have hlines : s.transcript = [] := by
    obtain ⟨_, _, _, _, _, _, _, -, -, rfl⟩ := of_start hstart
    rfl
  have hbeside : Beside r s s := by
    refine ⟨rfl, ?_⟩
    rw [hlines]
    exact hnil
  exact agree_run hq hbeside ha hb hnorm

/-- Solves from the same request do alike. -/
theorem solve_of_matched
    (hnorm : q.reaches (M := A.toMagnitudes) 1 = q'.reaches (M := A.toMagnitudes) 1 ∨
      ∀ s n, start setup request = (.ok s, n) → Measured (setup.saying q) s) :
    (solve (setup.saying q) request).1 = (solve (setup.saying q') request).1 ∧
      (solve (setup.saying q) request).2.2 = (solve (setup.saying q') request).2.2 ∧
      r (solve (setup.saying q) request).2.1 (solve (setup.saying q') request).2.1 := by
  have hstarts (q : Quantity A.Real) : start (setup.saying q) request = start setup request := rfl
  unfold solve
  rw [hstarts, hstarts]
  rcases hstart : start setup request with ⟨e | s, n⟩
  · exact ⟨rfl, rfl, hnil⟩
  · have hrun := agree_run_of_start hq hnil hstart (hnorm.imp_right fun h => h s n hstart)
    have hafter := hrun.after (fun _ _ _ h => h) fun _ _ h => h
    exact ⟨hrun.answer_eq, (congrArg evaluations hafter.same).symm, hafter.lines⟩

end

/-- Larger verbosities say at least as much. -/
theorem matched_sublist {v v' : Int} (hv : Quantity.StandsFor (M := A.toMagnitudes) q v)
    (hv' : Quantity.StandsFor (M := A.toMagnitudes) q' v') (hle : v ≤ v') :
    Quantity.Matched (M := A.toMagnitudes) q q' List.Sublist := by
  intro level line l l' _ h
  unfold Quantity.utter
  by_cases hsaid : q.reaches (M := A.toMagnitudes) level = true
  · have hsaid' : q'.reaches (M := A.toMagnitudes) level = true :=
      hv'.reaches_iff.mpr ((hv.reaches_iff.mp hsaid).trans hle)
    rw [if_pos hsaid, if_pos hsaid']
    exact h.append (.refl _)
  · rw [if_neg hsaid]
    split
    · exact h.trans (List.sublist_append_left _ _)
    · exact h

/-- Negative verbosities say nothing. -/
theorem matched_nil {v : Int} (hv : Quantity.StandsFor (M := A.toMagnitudes) q v) (hneg : v < 0) :
    Quantity.Matched (M := A.toMagnitudes) q q fun l _ => l = [] := by
  intro level line l l' hlevel h
  have hsilent : ¬q.reaches (M := A.toMagnitudes) level = true := by
    rw [hv.reaches_iff]
    omega
  rw [Quantity.utter, if_neg hsilent]
  exact h

/-- A larger verbosity changes nothing but the lines, and every line of the smaller one stays. From
a session that was started, steps lead to sessions that are the same but for their lines; a negative
verbosity says nothing. Solves answer the same after the same calls of the residual function, and
end in sessions that are the same but for their lines, unless just one of the verbosities wants the
lines about the progress: then they do if the norm answers wherever these report it. The norm is a
function of the residual, which may refuse it but does not remember it was asked. -/
theorem changes_lines_only (setup : Setup A P) (request : Request A P) {v v' : Int}
    (hv : Quantity.StandsFor (M := A.toMagnitudes) q v)
    (hv' : Quantity.StandsFor (M := A.toMagnitudes) q' v') (hle : v ≤ v') :
    start (setup.saying q) request = start (setup.saying q') request ∧
      (∀ s n, start (setup.saying q) request = (.ok s, n) → ∀ k,
        Beside List.Sublist (attempts (setup.saying q) s k) (attempts (setup.saying q') s k)) ∧
      (v < 0 → (solve (setup.saying q) request).2.1 = []) ∧
      ((v' < 1 ∨ 1 ≤ v ∨ ∀ s n, start (setup.saying q) request = (.ok s, n) →
          Measured (setup.saying q) s) →
        (solve (setup.saying q) request).1 = (solve (setup.saying q') request).1 ∧
        (solve (setup.saying q) request).2.2 = (solve (setup.saying q') request).2.2 ∧
        (solve (setup.saying q) request).2.1.Sublist (solve (setup.saying q') request).2.1 ∧
        ∀ s n, start (setup.saying q) request = (.ok s, n) → Beside List.Sublist
          ((run (setup.saying q)).outcome s).2 ((run (setup.saying q')).outcome s).2) := by
  have hmatched := matched_sublist hv hv' hle
  refine ⟨rfl, fun s n _ k => beside_attempts hmatched ⟨rfl, .refl _⟩ k, fun hneg => ?_,
    fun hnorm => ?_⟩
  · exact (solve_of_matched (matched_nil hv hneg) rfl (.inl rfl)).2.2
  · have hiff := hv.reaches_iff (n := 1)
    have hiff' := hv'.reaches_iff (n := 1)
    have hmeasured : q.reaches (M := A.toMagnitudes) 1 = q'.reaches (M := A.toMagnitudes) 1 ∨
        ∀ s n, start (setup.saying q) request = (.ok s, n) → Measured (setup.saying q) s := by
      rcases hnorm with hfew | hmany | hmeasured
      · refine .inl (Bool.eq_iff_iff.mpr ?_)
        rw [hiff, hiff']
        omega
      · refine .inl (Bool.eq_iff_iff.mpr ?_)
        rw [hiff, hiff']
        omega
      · exact .inr hmeasured
    obtain ⟨hanswer, hcalls, hlines⟩ := solve_of_matched hmatched (.refl _) hmeasured
    refine ⟨hanswer, hcalls, hlines, fun s n hstart => ?_⟩
    have hrun := agree_run_of_start hmatched (.refl _) hstart
      (hmeasured.imp_right fun h => h s n hstart)
    exact hrun.after (fun _ _ _ h => h) fun _ _ h => h

open QuasiNewton.Affine in
/-- The affine problem is solved with the same report under the verbosities zero and two, with
fewer lines under the first, and with no lines under a negative one. -/
theorem changes_lines_only_affine :
    ∃ r, (solve (problem.saying (.whole 0)) request).1 = .ok r ∧
      (solve (problem.saying (.whole 2)) request).1 = .ok r ∧ r.status = .success ∧
      (solve (problem.saying (.whole 0)) request).2.1.Sublist
        (solve (problem.saying (.whole 2)) request).2.1 ∧
      (solve (problem.saying (.whole (-1))) request).2.1 = [] := by
  obtain ⟨r, hsolve, hr⟩ := exists_solved (problem.saying (.whole 0)) request
    (fun r => r.status = .success) (by decide +kernel)
  have hnorm (t : Tensor Machine.arithmetic) : ∃ x, problem.norm t = .ok x := ⟨_, rfl⟩
  have hstands (v : Int) :
      Quantity.StandsFor (M := Machine.arithmetic.toMagnitudes) (.whole v) v :=
    Quantity.standsFor_of_integer? rfl
  obtain ⟨-, -, -, hverbose⟩ := changes_lines_only problem request (hstands 0) (hstands 2)
    (by decide)
  obtain ⟨hanswer, -, hlines, -⟩ := hverbose (.inr (.inr fun _ _ _ _ _ _ => hnorm _))
  obtain ⟨-, -, hsilent, -⟩ := changes_lines_only problem request (hstands (-1)) (hstands 0)
    (by decide)
  exact ⟨r, hsolve, hanswer.symm.trans hsolve, hr, hlines, hsilent (by decide)⟩

open QuasiNewton.Affine in
/-- The line about the progress after ten steps needs the norm of a residual that has none: with
it the solve fails, and without it the solve succeeds. -/
theorem progress_may_fail :
    Quantity.StandsFor (M := Machine.magnitudes) (.whole 0) 0 ∧
      Quantity.StandsFor (M := Machine.magnitudes) (.whole 1) 1 ∧
      (∃ r, (solve (falling.saying (.whole 0)) fallingRequest).1 = .ok r ∧ r.success = true) ∧
      (∃ e, (solve (falling.saying (.whole 1)) fallingRequest).1 = .error e) ∧
      (solve (falling.saying (.whole 0)) fallingRequest).1 ≠
        (solve (falling.saying (.whole 1)) fallingRequest).1 := by
  obtain ⟨r, hsolve, hr⟩ := exists_solved (falling.saying (.whole 0)) fallingRequest
    (fun r => r.success = true) (by decide +kernel)
  have hfails : (solve (falling.saying (.whole 1)) fallingRequest).1.toOption.isNone = true := by
    decide +kernel
  obtain ⟨e, he⟩ : ∃ e, (solve (falling.saying (.whole 1)) fallingRequest).1 = .error e := by
    rcases hsolve' : (solve (falling.saying (.whole 1)) fallingRequest).1 with e | r'
    · exact ⟨e, rfl⟩
    · rw [hsolve'] at hfails
      cases hfails
  refine ⟨Quantity.standsFor_of_integer? rfl, Quantity.standsFor_of_integer? rfl, ⟨r, hsolve, hr⟩,
    ⟨e, he⟩, ?_⟩
  rw [hsolve, he]
  intro h
  cases h

end Session

end QuasiNewton
