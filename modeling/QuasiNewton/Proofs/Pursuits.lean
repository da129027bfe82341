import QuasiNewton.Proofs.Abreast

/-!
# Runs that keep up with one another

A run pursues another one if each of its steps leaves it abreast, unless the other one ends for a
cause that is excepted. Then it gives the same report, unless that cause is the end of the other
one. Its budgets may be larger.
-/

namespace QuasiNewton

open QuasiNewton.Action

variable {A : Arithmetic} {P : Type} {setup : Setup A P} {q : Quantity A.Real}

namespace Session

variable {R : Session A P → Cut A → Prop} {E : Status → Prop} {c : Cut A} {s s' : Session A P}

/-- The cut of a session does not matter to whether its budget is used up. -/
theorem spent_under (s : Session A P) (c : Cut A) (transcript : List (Line A.Real)) :
    (s.under c transcript).spent = s.spent.under c transcript := by
  cases hstopped : s.stopped with
  | true => rw [spent_of_stopped hstopped, spent_of_stopped (by exact hstopped)]
  | false =>
    rw [spent_of_going hstopped, spent_of_going (by exact hstopped)]
    rfl

/-- From sessions in a relation to their pursuers' cuts, steps that answer keep the pursuer abreast
or end the session for an excepted cause. The pursuer may go on wherever the session may. -/
structure Pursuit (setup : Setup A P) (q : Quantity A.Real) (R : Session A P → Cut A → Prop)
    (E : Status → Prop) : Prop where
  advance : ∀ {s c s'}, R s c → s.stopped = false →
    (Session.advance setup).outcome s = (.ok (), s') →
    (s'.stopped = true ∧ E s'.status) ∨ ∃ c', R s' c' ∧ ∀ transcript, ∃ transcript',
      (Session.advance (setup.allowing q)).outcome (s.under c transcript) =
        (.ok (), s'.under c' transcript')
  lines : ∀ {s c} transcript, R s c → R { s with transcript } c
  continues : ∀ {s c}, R s c → s.mayContinue = true →
    c.budget.isAbove (M := A.toMagnitudes) s.statistics.steps = true
  ceiling : ∀ {s c}, R s c → s.budget.ceiling (M := A.toMagnitudes) ≤
    c.budget.ceiling (M := A.toMagnitudes)
  tolerances : ∀ {s c}, R s c → c.tolerances = s.tolerances

namespace Pursuit

variable (h : Pursuit setup q R E)

include h

/-- The pursuer's loop, with at least as much fuel, leads abreast of where the loop leads. If the
session has not ended there the budgets have to be the same. -/
theorem iterate {fuel fuel' : Nat} (hfuel : fuel ≤ fuel') (hR : R s c)
    (hs : (Session.iterate setup fuel).outcome s = (.ok (), s'))
    (hends : s'.stopped = true ∨ fuel' = fuel ∧ ∀ s c, R s c → c.budget = s.budget) :
    (s'.stopped = true ∧ E s'.status) ∨ ∃ c', R s' c' ∧ ∀ transcript, ∃ transcript',
      (Session.iterate (setup.allowing q) fuel').outcome (s.under c transcript) =
        (.ok (), s'.under c' transcript') := by
  induction fuel generalizing s c fuel' with
  | zero =>
    cases hs
    refine .inr ⟨c, hR, fun l => ⟨l, ?_⟩⟩
    rcases hends with hstopped | ⟨rfl, -⟩
    · exact outcome_iterate_of_stopped (setup.allowing q) (by exact hstopped) fuel'
    · rfl
  | succ fuel ih =>
    obtain ⟨fuel', rfl⟩ : ∃ n, fuel' = n + 1 := ⟨fuel' - 1, by omega⟩
    rcases of_iterate_eq_ok hs with ⟨hends', rfl⟩ | ⟨hcontinue, s₁, s₂, hstep, hprogress, hrest⟩
    · refine .inr ⟨c, hR, fun l => ⟨l, ?_⟩⟩
      rcases hends with hstopped | ⟨-, hbudget⟩
      · exact outcome_iterate_of_stopped (setup.allowing q) (by exact hstopped) (fuel' + 1)
      · refine outcome_iterate_of_not (setup.allowing q) (fun hcontinue => hends' ?_) (fuel' + 1)
        rwa [mayContinue, show (s'.under c l).budget = s'.budget from hbudget s' c hR] at hcontinue
    · have hgoing : s.stopped = false := (mayContinue_eq_true_iff.mp hcontinue).1
      have hs₂ : s₂ = { s₁ with transcript := s₂.transcript } :=
        eq_of_mute ((keeps_progress setup).eq_of_outcome hprogress)
      have hadvance := hstep
      rw [outcome_step_of_not_stopped setup hgoing] at hadvance
      rcases h.advance hR hgoing hadvance with ⟨hstopped, hexcept⟩ | ⟨c₁, hR₁, hkept⟩
      · have hstopped₂ : s₂.stopped = true := (congrArg Session.stopped hs₂).trans hstopped
        rw [outcome_iterate_of_stopped setup hstopped₂] at hrest
        cases hrest
        exact .inl ⟨hstopped₂, (congrArg Session.status hs₂).symm ▸ hexcept⟩
      · have hends' : s'.stopped = true ∨
            fuel' = fuel ∧ ∀ s c, R s c → c.budget = s.budget :=
          hends.imp_right fun hsame => ⟨Nat.succ.inj hsame.1, hsame.2⟩
        have hR₂ : R s₂ c₁ := hs₂ ▸ h.lines s₂.transcript hR₁
        refine (ih (Nat.le_of_succ_le_succ hfuel) hR₂ hrest hends').imp_right ?_
        rintro ⟨c', hR', hlast⟩
        refine ⟨c', hR', fun l => ?_⟩
        obtain ⟨l₁, h₁⟩ := hkept l
        obtain ⟨l₂, h₂⟩ := (oblivious_progress setup (q := q)).of_ok hprogress l₁
        obtain ⟨l₃, h₃⟩ := hlast l₂
        refine ⟨l₃, ?_⟩
        have hcontinue' : (s.under c l).mayContinue = true :=
          mayContinue_eq_true_iff.mpr ⟨hgoing, h.continues (s := s) hR hcontinue⟩
        rw [outcome_iterate_succ (setup.allowing q) hcontinue', outcome_bind,
          outcome_step_of_not_stopped (setup.allowing q) (by exact hgoing), h₁]
        dsimp only
        rw [outcome_bind, h₂]
        exact h₃

/-- The pursuer's run gives the same report and leads abreast, unless the run ends for an excepted
cause. If it ends with its budget of steps used up the budgets have to be the same. -/
theorem run {r : Report A} (hR : R s c) (hs : (Session.run setup).outcome s = (.ok r, s'))
    (hr : ¬E r.status)
    (hends : r.status = .iterationsExhausted → ∀ s c, R s c → c.budget = s.budget)
    (transcript : List (Line A.Real)) : ∃ c' transcript',
      (Session.run (setup.allowing q)).outcome (s.under c transcript) =
        (.ok r, s'.under c' transcript') := by
  obtain ⟨norm, -, hreport⟩ := of_run hs
  have hstatus : r.status = s'.status := congrArg Report.status hreport
  obtain ⟨_, s₁, hannounce, hs⟩ := outcome_bind_eq_ok.mp hs
  rw [outcome_get_bind] at hs
  obtain ⟨_, s₂, hiterate, hs⟩ := outcome_bind_eq_ok.mp hs
  rw [exhaust, outcome_modify_bind] at hs
  change (close setup).outcome s₂.spent = _ at hs
  have hclosed : s' = { s₂.spent with transcript := s'.transcript } :=
    eq_of_mute ((keeps_close setup).eq_of_outcome hs)
  have hs₁ : s₁ = { s with transcript := s₁.transcript } :=
    eq_of_mute ((keeps_announce setup).eq_of_outcome hannounce)
  have hR₁ : R s₁ c := hs₁ ▸ h.lines s₁.transcript hR
  have hended : s₂.stopped = true ∨
      c.budget.ceiling (M := A.toMagnitudes) = s₁.budget.ceiling (M := A.toMagnitudes) ∧
        ∀ s c, R s c → c.budget = s.budget := by
    cases hstopped : s₂.stopped with
    | true => exact .inl rfl
    | false =>
      have hspent : r.status = .iterationsExhausted := by
        rw [hstatus, congrArg Session.status hclosed, spent_of_going hstopped]
      exact .inr ⟨congrArg _ (hends hspent s₁ c hR₁), hends hspent⟩
  obtain ⟨l₁, h₁⟩ :=
    (oblivious_announce setup (q := q) (h.tolerances hR)).of_ok hannounce transcript
  rcases h.iterate (h.ceiling hR₁) hR₁ hiterate hended with ⟨hstopped, hexcept⟩ | ⟨c', -, hloop⟩
  · rw [spent_of_stopped hstopped] at hclosed
    rw [hstatus, congrArg Session.status hclosed] at hr
    exact absurd hexcept hr
  · obtain ⟨l₂, h₂⟩ := hloop l₁
    obtain ⟨l₃, h₃⟩ := (oblivious_close setup (q := q) (c := c')).of_ok hs l₂
    refine ⟨c', l₃, ?_⟩
    rw [Session.run, outcome_bind, h₁]
    dsimp only
    rw [outcome_get_bind, outcome_bind, show (s₁.under c l₁).budget = c.budget from rfl, h₂]
    dsimp only
    rw [exhaust, outcome_modify_bind]
    change (close (setup.allowing q)).outcome (s₂.under c' l₂).spent = _
    rw [spent_under]
    exact h₃

end Pursuit

end Session

end QuasiNewton
