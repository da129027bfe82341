import QuasiNewton.Proofs.Affine
import QuasiNewton.Proofs.Invariants
import QuasiNewton.Proofs.Restarts

/-!
# The stored residual

The residual a session stores is the one at the iterate it stores: after every step, whichever way
it ends, and after every restart. So it is in every report.
-/

namespace QuasiNewton.Session

open QuasiNewton.Action

variable {A : Arithmetic} {P : Type} {F : Tensor A → P → Attempt A (Tensor A)} {setup : Setup A P}
  {f : Frame A} {s s' : Session A P}

/-- The residual stored is the one at the iterate stored. -/
def Consistent (F : Tensor A → P → Attempt A (Tensor A)) (s : Session A P) : Prop :=
  F s.work.iterate s.parameter = .ok s.work.residual

/-- A session that was concluded at a residual of its iterate stores the residual of its iterate. -/
theorem Concluded.consistent (h : Concluded setup s s') (hR : setup.residual.Computes F)
    (hF : Residual.Conforms F) (hs : s.Ordered setup)
    (htrial : F s.work.iterate s.parameter = .ok s.work.trial) : s'.Consistent F := by
  cases h with
  | stayed hback => exact htrial
  | @restored u v _ _ _ hback hu hv =>
    rw [evaluate_of_computes hR hF fun he => ?_] at hv
    · exact hv
    · obtain ⟨f, hf⟩ := hs he
      exact hf.trial.trans (hf.iterate.symm.trans (hu.frame he).symm)

/-- So does one that went on from there. -/
theorem Refined.consistent (h : Refined setup s s')
    (htrial : F s.work.iterate s.parameter = .ok s.work.trial) : s'.Consistent F := by
  cases h with
  | exhausted hy hsmall hbudget => exact htrial
  | reset hy hsmall hbudget => exact htrial
  | corrected hy hsmall hu hd => exact htrial

/-- Whatever a step does, it stores the residual that belongs to the iterate. -/
theorem Stepped.consistent (h : Stepped setup s s') (hR : setup.residual.Computes F)
    (hF : Residual.Conforms F) : s'.Consistent F := by
  cases h with
  | concluded hx hm h => exact h.consistent hR hF hx.ordered (hx.computed hR hF)
  | refined hx hm h => exact h.consistent (hx.computed hR hF)

/-- So does one that was restarted. -/
theorem Restarted.consistent {r : Restart A P} (h : Restarted F setup f r s s') :
    s'.Consistent F := by
  cases h with
  | intro hbudget hu hpoint hv hwork hregular hcheck hm =>
    change F _ _ = .ok _
    rw [hwork.iterate, hwork.residual]
    exact hv

/-- A session that has been started is consistent. -/
theorem consistent_start (hR : setup.residual.Computes F) (hF : Residual.Conforms F)
    {request : Request A P} {n : Nat} (h : start setup request = (.ok s, n)) : s.Consistent F := by
  obtain ⟨v, budget, monitor, check, rule, -, -, hv, -, -, -, rfl, -⟩ := (start_eq_ok hR hF).mp h
  exact hv

/-- Steps that answer keep the residual with its iterate, whichever arrays there are. -/
theorem invariant_consistent (hR : setup.residual.Computes F) (hF : Residual.Conforms F) :
    Invariant setup (fun s => s.Ordered setup ∧ s.Consistent F) fun _ => True where
  advance := fun hs _ => .of_cases (fun _ _ h =>
    ⟨((Workspace.stable_ordered setup).session_advance hs.1).of_ok h,
      (of_advance hs.1 h).consistent hR hF⟩) fun _ _ _ => trivial
  exhaust := fun hs _ => hs
  lines := fun _ hs => hs
  weaken := fun _ => trivial

/-- A session in order: its arrays belong together and its residual to its iterate. -/
def Sound (F : Tensor A → P → Attempt A (Tensor A)) (setup : Setup A P) (s : Session A P) : Prop :=
  (∃ f, s.Regular setup f) ∧ s.Consistent F

/-- A session that was started is sound. -/
theorem sound_start (hR : setup.residual.Computes F) (hF : Residual.Conforms F)
    {request : Request A P} {n : Nat} (h : start setup request = (.ok s, n)) : s.Sound F setup :=
  ⟨⟨_, regular_start hR hF h⟩, consistent_start hR hF h⟩

/-- A restart that answers leaves a session in order. -/
theorem Sound.restart (hR : setup.residual.Computes F) (hF : Residual.Conforms F)
    (hs : s.Sound F setup) (r : Restart A P) :
    Upholds (fun _ => Sound F setup) (fun _ => True) (Session.restart setup r) s := by
  obtain ⟨⟨f, hregular⟩, -⟩ := hs
  refine .of_cases (fun _ s' h => ?_) fun _ _ _ => trivial
  exact ⟨⟨_, hregular.toComposed.restart hR hF h⟩,
    (of_restart hR hF hregular.toComposed h).consistent⟩

/-- Steps that answer and ends of budgets leave a session in order. -/
theorem invariant_sound (hR : setup.residual.Computes F) (hF : Residual.Conforms F) :
    Invariant setup (Sound F setup) fun _ => True where
  advance := by
    rintro s ⟨⟨f, hregular⟩, -⟩ -
    refine .of_cases (fun _ s' h => ?_) fun _ _ _ => trivial
    exact ⟨⟨f, hregular.advance hR hF h⟩,
      (of_advance (fun _ => ⟨f, hregular.work⟩) h).consistent hR hF⟩
  exhaust := by
    rintro s ⟨⟨f, hregular⟩, hconsistent⟩ -
    exact ⟨⟨f, { hregular with }⟩, hconsistent⟩
  lines := by
    rintro s transcript ⟨⟨f, hregular⟩, hconsistent⟩
    exact ⟨⟨f, { hregular with }⟩, hconsistent⟩
  weaken := fun _ => trivial

/-- After every history of steps, runs and restarts that answer, the residual stored is the one at
the iterate stored, and a run that then answers reports the residual at the iterate it reports. -/
theorem residual_consistent (hR : setup.residual.Computes F) (hF : Residual.Conforms F)
    {request : Request A P} {n : Nat} (hstart : start setup request = (.ok s, n))
    {ops : List (Operation A P)} (hops : ∀ op ∈ ops, op.IsSolving)
    (hanswer : Completes setup s ops) :
    F (after setup s ops).work.iterate (after setup s ops).parameter =
        .ok (after setup s ops).work.residual ∧
      ∀ r s', (run setup).outcome (after setup s ops) = (.ok r, s') →
        F r.iterate s'.parameter = .ok r.residual := by
  have hI : Invariant setup (Sound F setup) fun _ => True := invariant_sound hR hF
  have hafter := hI.after hops (fun _ r hs => hs.restart hR hF r) hanswer
    (sound_start hR hF hstart)
  refine ⟨hafter.2, fun r s' hrun => ?_⟩
  obtain ⟨-, hconsistent⟩ := (hI.run hafter).of_ok hrun
  obtain ⟨norm, -, rfl⟩ := of_run hrun
  exact hconsistent

section

open QuasiNewton.Affine

/-- Over the restart at two elements and a step from there, the affine problem stores the residual
of its iterate. -/
theorem residual_consistent_affine :
    ∃ s n, start problem request = (.ok s, n) ∧ Completes problem s (detour ++ [.steps 1]) ∧
      residual 2 (after problem s (detour ++ [.steps 1])).work.iterate
          (after problem s (detour ++ [.steps 1])).parameter =
        .ok (after problem s (detour ++ [.steps 1])).work.residual := by
  obtain ⟨s, n, hs, hanswer⟩ := exists_started problem request
    (fun s => Completes problem s (detour ++ [.steps 1])) (by decide +kernel)
  have hconsistent := residual_consistent (computes_residual 2) (conforms_residual 2) hs (by decide)
    hanswer
  exact ⟨s, n, hs, hanswer, hconsistent.1⟩

end

end QuasiNewton.Session
