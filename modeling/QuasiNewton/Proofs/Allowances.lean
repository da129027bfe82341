import QuasiNewton.Proofs.Pursuits
import QuasiNewton.Proofs.Solves

/-!
# Larger budgets and steps taken by hand

A solve that does not end with a budget used up reports the same within every larger budget, of
steps as of resets. A caller who takes steps by hand before a run, within the budget of steps, gets
the same report and the same session but for the lines.
-/

namespace QuasiNewton

open QuasiNewton.Action

variable {A : Arithmetic} {P : Type}

namespace Quantity

variable {M : Magnitudes}

/-- A whole number bounds the whole numbers below it. -/
theorem ceiling_of_integer? {q : Quantity M.Real} {m : Int} (h : q.integer? = some m) :
    q.ceiling = m.toNat := by
  cases q with
  | flag b =>
    obtain rfl := Option.some.inj h
    cases b <;> rfl
  | whole n =>
    obtain rfl := Option.some.inj h
    rfl
  | real x => cases h

end Quantity

namespace Session

variable {setup : Setup A P} {q b b' : Quantity A.Real} {c : Cut A} {s s' : Session A P}

/-! ## Larger budgets -/

/-- The cut of a session with another budget of steps. -/
def cutAt (s : Session A P) (budget : Quantity A.Real) : Cut A := { s.cut with budget }

/-- What does not read the cut of the session, but for its monitor, leads to the same session with
another budget of steps. -/
theorem outcome_cutAt {x y : Action A P Unit} (hself : Oblivious s.cut x x s)
    (hx : Oblivious (s.cutAt b) x y s) (h : x.outcome s = (.ok (), s'))
    (transcript : List (Line A.Real)) : ∃ transcript',
      y.outcome (s.under (s.cutAt b) transcript) = (.ok (), s'.under (s'.cutAt b) transcript') := by
  rw [show s'.cutAt b = s.cutAt b from
    congrArg (fun c : Cut A => { c with budget := b }) (hself.cut_eq h)]
  exact hx.of_ok h transcript

/-- A step that answers does so with another budget of steps, too, and leads to the same session but
for the budget. With another budget of resets it does, as long as the second half of the step makes
no exception. -/
theorem advance_cutAt {E : Session A P → Prop} (hrefine : ∀ s c, E ((refine setup).outcome s).2 ∨
      Oblivious c (refine setup) (refine (setup.allowing q)) s)
    (h : (advance setup).outcome s = (.ok (), s')) (budget : Quantity A.Real) :
    E s' ∨ ∀ transcript, ∃ transcript',
      (advance (setup.allowing q)).outcome (s.under (s.cutAt budget) transcript) =
        (.ok (), s'.under (s'.cutAt budget) transcript') := by
  obtain ⟨s₁, stop, m, hprobe, hcheck, hlast⟩ := outcome_advance_eq_ok.mp h
  have hsame : s.cutAt budget = s₁.cutAt budget :=
    congrArg (fun c : Cut A => { c with budget }) (of_probe_eq_ok hprobe).1.symm
  obtain ⟨s₂, hs₂⟩ : ∃ s₂ : Session A P, s₂ = { s₁ with monitor := m } := ⟨_, rfl⟩
  rw [← hs₂] at hlast
  have hlast' : E s' ∨ ∀ transcript, ∃ transcript',
      (if stop then conclude (setup.allowing q) else refine (setup.allowing q)).outcome
        (s₂.under (s₂.cutAt budget) transcript) =
          (.ok (), s'.under (s'.cutAt budget) transcript') := by
    cases stop with
    | true =>
      have hself : Oblivious s₂.cut (conclude setup) (conclude setup) s₂ :=
        oblivious_conclude setup rfl fun _ => rfl
      exact .inr (outcome_cutAt hself (oblivious_conclude setup rfl fun _ => rfl) hlast)
    | false =>
      have hself : Oblivious s₂.cut (refine setup) (refine setup) s₂ := oblivious_refine setup
      have hexcept := hrefine s₂ (s₂.cutAt budget)
      rw [show (refine setup).outcome s₂ = (.ok (), s') from hlast] at hexcept
      exact hexcept.imp_right fun hrest => outcome_cutAt hself hrest hlast
  refine hlast'.imp_right fun hrest l => ?_
  obtain ⟨l₁, h₁⟩ := (oblivious_probe setup (q := q) (c := s.cutAt budget)).of_ok hprobe l
  obtain ⟨l₂, h₂⟩ := hrest l₁
  refine ⟨l₂, outcome_advance_eq_ok.mpr ⟨_, stop, m, h₁, ?_, ?_⟩⟩
  · rw [hsame]
    exact hcheck
  · rw [hs₂] at h₂
    rw [hsame]
    exact h₂

/-- A session within larger budgets pursues a session, unless that one ends for an excepted cause in
the second half of a step. -/
theorem pursuit_cutAt {E : Status → Prop}
    (hrefine : ∀ s c, (((refine setup).outcome s).2.stopped = true ∧
      E ((refine setup).outcome s).2.status) ∨
        Oblivious c (refine setup) (refine (setup.allowing q)) s)
    (hcontinue : ∀ n, b.isAbove (M := A.toMagnitudes) n = true →
      b'.isAbove (M := A.toMagnitudes) n = true)
    (hceiling : b.ceiling (M := A.toMagnitudes) ≤ b'.ceiling (M := A.toMagnitudes)) :
    Pursuit setup q (fun s c => s.budget = b ∧ c = s.cutAt b') E where
  advance := by
    rintro s c s' ⟨hbudget, rfl⟩ hgoing h
    refine (advance_cutAt (E := fun s' => s'.stopped = true ∧ E s'.status) hrefine h b').imp_right
      fun hkept => ⟨s'.cutAt b', ⟨?_, rfl⟩, hkept⟩
    have hsettings := settings_advance setup s
    rw [h] at hsettings
    exact (congrArg Settings.budget hsettings).trans hbudget
  lines := fun _ h => h
  continues := by
    rintro s c ⟨hbudget, rfl⟩ h
    rw [mayContinue, Bool.and_eq_true, hbudget] at h
    exact hcontinue _ h.2
  ceiling := by
    rintro s c ⟨hbudget, rfl⟩
    rw [hbudget]
    exact hceiling
  tolerances := by
    rintro s c ⟨-, rfl⟩
    rfl

/-! ## Solves -/

/-- A start within another budget of steps gives the same session but for the budget. -/
theorem start_of_budget (request : Request A P) {n : Nat} {given : Setting A.Real}
    (h : start setup request = (.ok s, n)) (hgiven : checkBudget given = .ok b) :
    start setup { request with budget := given } = (.ok { s with budget := b }, n) := by
  obtain ⟨_, ready, monitor, check, rule, -, hready, hm, hc, hr, rfl⟩ := start_eq_ok_iff.mp h
  exact start_eq_ok_iff.mpr ⟨b, ready, monitor, check, rule, hgiven, hready, hm, hc, hr, rfl⟩

/-- The budget of a session that was started is the one that was asked for. -/
theorem budget_of_start {request : Request A P} {n : Nat}
    (h : start setup request = (.ok s, n)) : checkBudget request.budget = .ok s.budget := by
  obtain ⟨budget, _, _, _, _, hbudget, -, -, -, -, rfl⟩ := start_eq_ok_iff.mp h
  exact hbudget

/-- A budget of steps that was written as a whole number is taken as it was written. -/
theorem checkBudget_of_integer? {m : Int} (hb : b.integer? = some m) :
    checkBudget (A := A) (.number b) = if m < 1 then .error (.badIterationBudget b) else .ok b := by
  have hbelow := (Quantity.standsFor_of_integer? (M := A.toMagnitudes) hb).isBelow_iff (n := 1)
  change (if b.isBelow (M := A.toMagnitudes) 1 = true then _ else _) = _
  simp only [hbelow]
  rfl

/-- Within a larger budget of steps a solve reports the same, unless it ends with its own budget
used up. -/
theorem solve_of_larger_budget {request : Request A P} {m m' : Int} (hb : b.integer? = some m)
    (hb' : b'.integer? = some m') (hm : m ≤ m') {r : Report A}
    (h : (solve setup { request with budget := .number b }).1 = .ok r)
    (hr : r.status ≠ .iterationsExhausted) :
    (solve setup { request with budget := .number b' }).1 = .ok r := by
  obtain ⟨s, n, s', hstart, hrun⟩ := solve_eq_ok.mp h
  have hbudget := budget_of_start hstart
  rw [show ({ request with budget := .number b } : Request A P).budget = .number b from rfl,
    checkBudget_of_integer? hb] at hbudget
  have hpositive : ¬m < 1 := fun hneg => by
    rw [if_pos hneg] at hbudget
    cases hbudget
  rw [if_neg hpositive] at hbudget
  have hlarger : checkBudget (A := A) (.number b') = .ok b' := by
    rw [checkBudget_of_integer? hb', if_neg (by omega)]
  have hpursuit : Pursuit setup setup.options.resetBudget
      (fun s c => s.budget = b ∧ c = s.cutAt b') fun _ => False := by
    refine pursuit_cutAt (fun s c => .inr (oblivious_refine setup)) (fun n hn => ?_) ?_
    · rw [(Quantity.standsFor_of_integer? (M := A.toMagnitudes) hb).isAbove_iff] at hn
      rw [(Quantity.standsFor_of_integer? (M := A.toMagnitudes) hb').isAbove_iff]
      omega
    · rw [Quantity.ceiling_of_integer? (M := A.toMagnitudes) hb,
        Quantity.ceiling_of_integer? (M := A.toMagnitudes) hb']
      omega
  obtain ⟨c', l', hrun'⟩ := hpursuit.run ⟨(Except.ok.inj hbudget).symm, rfl⟩ hrun id
    (fun hspent => absurd hspent hr) s.transcript
  have hstart' := start_of_budget { request with budget := .number b } hstart hlarger
  exact solve_eq_ok.mpr ⟨_, n, _, hstart', hrun'⟩

/-- Within a larger budget of resets a solve reports the same, unless it ends with its own budget
used up. -/
theorem solve_allowing {request : Request A P} {k k' : Int}
    (hk : Quantity.StandsFor (M := A.toMagnitudes) setup.options.resetBudget k)
    (hk' : Quantity.StandsFor (M := A.toMagnitudes) q k') (hle : k ≤ k') {r : Report A}
    (h : (solve setup request).1 = .ok r) (hr : r.status ≠ .resetsExhausted) :
    (solve (setup.allowing q) request).1 = .ok r := by
  obtain ⟨s, n, s', hstart, hrun⟩ := solve_eq_ok.mp h
  have hpursuit : Pursuit setup q (fun t c => t.budget = s.budget ∧ c = t.cutAt s.budget)
      (· = .resetsExhausted) := by
    refine pursuit_cutAt (fun s c => ?_) (fun n hn => hn) (Nat.le_refl _)
    have hexcept := oblivious_refine_of_larger setup (q := q) (c := c) (s := s) fun hreached => by
      rw [hk'.isReachedBy_iff] at hreached
      exact hk.isReachedBy_iff.mpr (hle.trans hreached)
    exact hexcept.imp_left fun hverdict =>
      ⟨(Prod.mk.inj hverdict).2, (Prod.mk.inj hverdict).1⟩
  obtain ⟨c', l', hrun'⟩ := hpursuit.run ⟨rfl, rfl⟩ hrun hr
    (fun _ t c ht => (congrArg Cut.budget ht.2).trans ht.1.symm) s.transcript
  exact solve_eq_ok.mpr ⟨s, n, _, hstart, hrun'⟩

end Session

end QuasiNewton
