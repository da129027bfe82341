import QuasiNewton.Proofs.Verdicts

/-!
# Sessions that have ended

Once a session has ended, nothing but a restart changes it, and a run reports the same again.
-/

namespace QuasiNewton

open QuasiNewton.Action

variable {A : Arithmetic} {P : Type} {setup : Setup A P}

namespace Session

variable {s s' : Session A P}

/-! ## Steps and runs -/

/-- Calls of a step do nothing to a session that has ended. -/
theorem outcome_steps_of_stopped (setup : Setup A P) (hstopped : s.stopped = true) (n : Nat) :
    (steps setup n).outcome s = (.ok (), s) := by
  induction n with
  | zero => rfl
  | succ n ih =>
    rw [steps, outcome_bind, outcome_step_of_stopped setup hstopped]
    exact ih

/-- A run of a session that has ended keeps everything but the lines, whether it answers or fails.
-/
theorem mute_run_of_stopped (setup : Setup A P) (hstopped : s.stopped = true) :
    ((run setup).outcome s).2.mute = s.mute := by
  have hkept {α : Type} {x : Action A P α} (hx : x.Keeps mute) {t : Session A P}
      (ht : t.mute = s.mute) :
      Upholds (fun _ s' => s'.mute = s.mute) (fun s' => s'.mute = s.mute) x t :=
    .of_keeps hx fun _ h => h.trans ht
  have hrun : Upholds (fun _ s' => s'.mute = s.mute) (fun s' => s'.mute = s.mute) (run setup)
      s := by
    refine .seq (hkept (keeps_announce setup) rfl) fun _ s₁ h₁ => .get_seq ?_
    have hstopped₁ : s₁.stopped = true := (congrArg Session.stopped h₁).trans hstopped
    refine .seq (m := fun _ s₂ => s₂ = s₁) (.of_cases (fun _ s₂ h₂ => ?_) fun e s₂ h₂ => ?_)
      fun _ s₂ h₂ => ?_
    · rw [outcome_iterate_of_stopped setup hstopped₁] at h₂
      exact (Prod.mk.inj h₂).2.symm
    · rw [outcome_iterate_of_stopped setup hstopped₁] at h₂
      cases h₂
    · subst h₂
      refine .modify_seq ?_
      rw [if_pos hstopped₁]
      exact hkept (keeps_close setup) h₁
  exact hrun.outcome_snd (fun _ _ h => h) fun _ h => h

/-- The loop of a run keeps the settings. -/
theorem settings_iterate (setup : Setup A P) (fuel : Nat) :
    (iterate setup fuel).Keeps (settings : Session A P → Settings A P) := by
  induction fuel with
  | zero => exact .of_pure ()
  | succ fuel ih =>
    refine .get_bind fun s => ?_
    split
    · exact .bind (settings_step setup) fun _ =>
        .bind ((keeps_progress setup).map settings) fun _ => ih
    · exact .of_pure ()

/-- What can be announced once can be announced again with the same tolerances. -/
theorem announce_again {t : Session A P} (h : (announce setup).outcome s = (.ok (), s'))
    (ht : t.tolerances = s.tolerances) : (announce setup).Answers t := by
  unfold announce at h ⊢
  obtain ⟨_, s₁, hspeaks, h⟩ := outcome_bind_eq_ok.mp h
  obtain ⟨q, hq, hreturn⟩ := outcome_attempt_bind_eq_ok.mp hspeaks
  cases hreturn
  have hspeaks' : (speaks setup 1).outcome t = (.ok (q.reaches (M := A.toMagnitudes) 1), t) :=
    outcome_attempt_bind_eq_ok.mpr ⟨q, hq, rfl⟩
  refine .bind hspeaks' ?_
  by_cases hlevel : q.reaches (M := A.toMagnitudes) 1 = true
  · rw [if_pos hlevel, outcome_get_bind] at h
    obtain ⟨absolute, habsolute, h⟩ := outcome_attempt_bind_eq_ok.mp h
    obtain ⟨relative, hrelative, -⟩ := outcome_attempt_bind_eq_ok.mp h
    rw [← ht] at habsolute hrelative
    rw [if_pos hlevel]
    exact .bind (outcome_get t) (.attempt_bind habsolute (.attempt_bind hrelative ⟨(), _, rfl⟩))
  · rw [if_neg hlevel]
    exact .of_pure () t

/-- The report of a session does not depend on the lines before it. -/
theorem ignoresLines_close (setup : Setup A P) : (close setup).IgnoresLines := by
  refine .get_bind (fun s => .bind (.of_attempt _) fun norm => .bind (.bind (.of_attempt _)
    fun _ => .of_pure _) fun speaks => ?_) fun _ _ => rfl
  split
  · exact .bind (.of_modify fun _ l => ⟨_, rfl⟩) fun _ => .bind (.of_modify fun _ l => ⟨_, rfl⟩)
      fun _ => .bind (.of_modify fun _ l => ⟨_, rfl⟩) fun _ => .of_pure _
  · exact .of_pure _

/-- After a run that answers a session has ended, and another run answers the same. -/
theorem run_again {r : Report A} (h : (run setup).outcome s = (.ok r, s')) :
    s'.stopped = true ∧ ∃ transcript, (run setup).outcome s' = (.ok r, { s' with transcript }) := by
  obtain ⟨_, s₁, hannounce, h⟩ := outcome_bind_eq_ok.mp h
  rw [outcome_get_bind] at h
  obtain ⟨_, s₂, hiterate, h⟩ := outcome_bind_eq_ok.mp h
  rw [exhaust, outcome_modify_bind] at h
  change (close setup).outcome s₂.spent = _ at h
  obtain ⟨t, ht⟩ : ∃ t, s₂.spent = t := ⟨_, rfl⟩
  rw [ht] at h
  have hstopped : t.stopped = true := by
    rw [← ht]
    cases hstopped : s₂.stopped with
    | true => rwa [spent_of_stopped hstopped]
    | false => rw [spent_of_going hstopped]
  have htolerances : t.tolerances = s.tolerances := by
    have hannounced : s₁.settings = s.settings :=
      ((keeps_announce setup).map settings).eq_of_outcome hannounce
    have hiterated : s₂.settings = s₁.settings := by
      have hkept := settings_iterate setup (s₁.budget.ceiling (M := A.toMagnitudes)) s₁
      rwa [hiterate] at hkept
    have hspent : s₂.spent.settings = s₂.settings := by
      unfold spent
      split <;> rfl
    rw [← ht]
    exact congrArg Settings.tolerances (hspent.trans (hiterated.trans hannounced))
  have hs' : s' = { t with transcript := s'.transcript } :=
    eq_of_mute ((keeps_close setup).eq_of_outcome h)
  have hstopped' : s'.stopped = true := (congrArg Session.stopped hs').trans hstopped
  refine ⟨hstopped', ?_⟩
  obtain ⟨_, l, hannounce'⟩ := exists_lines (keeps_announce setup)
    (announce_again (t := s') hannounce ((congrArg Session.tolerances hs').trans htolerances))
  obtain ⟨l', hclose⟩ := ignoresLines_close setup t l
  rw [h] at hclose
  refine ⟨l', outcome_bind_eq_ok.mpr ⟨(), _, hannounce', ?_⟩⟩
  rw [outcome_get_bind, outcome_bind, outcome_iterate_of_stopped setup (by exact hstopped')]
  dsimp only
  rw [exhaust, outcome_modify_bind, if_pos (by exact hstopped')]
  have hsame : ({ s' with transcript := l } : Session A P) = { t with transcript := l } :=
    congrArg (fun u : Session A P => { u with transcript := l }) hs'
  rw [hsame]
  exact hclose

/-- What is left of a session that has ended until it is restarted: everything. -/
structure Final (setup : Setup A P) (s : Session A P) : Prop where
  steps : ∀ n, (steps setup n).outcome s = (.ok (), s)
  run : ∃ transcript, ((run setup).outcome s).2 = { s with transcript }

/-- After every history whose restarts answer, also if steps and runs fail, whether and why a
session has ended agree with what its monitor knows and with its limits. A session that has ended is
final: steps and runs leave it as it is. After a run that answers another one answers the same, as
the norm, a function of the residual, measures the last residual as it did before. -/
theorem status_coherent (hA : A.Integral) {budget tolerance : Setting A.Real}
    {search : LineSearch.Choice A} (hoptions : Options.make budget tolerance search =
      .ok setup.options) {request : Request A P} {s₀ : Session A P} {k : Nat}
    (hstart : start setup request = (.ok s₀, k)) {ops : List (Operation A P)}
    (hops : ∀ op ∈ ops, op.IsSolving) (hrenewing : Renewing setup s₀ ops)
    (hs : s = after setup s₀ ops) :
    (∃ m, Quantity.StandsFor (M := A.toMagnitudes) setup.options.resetBudget m ∧ s.Coherent m) ∧
      (s.status ≠ .running → s.Final setup) ∧
      ∀ r s', (Session.run setup).outcome s = (.ok r, s') →
        s'.Final setup ∧
          ∃ transcript, (Session.run setup).outcome s' = (.ok r, { s' with transcript }) := by
  obtain ⟨m, hpositive, hm⟩ := Options.resetBudget_standsFor hA hoptions
  have hcoherent : s.Coherent m := by
    rw [hs]
    exact ((cleared_start hstart).1.coherent hpositive).after hm hpositive hops hrenewing
  have hfinal {t : Session A P} (hstopped : t.stopped = true) : t.Final setup :=
    ⟨outcome_steps_of_stopped setup hstopped, _, eq_of_mute (mute_run_of_stopped setup hstopped)⟩
  refine ⟨⟨m, hm, hcoherent⟩, fun hstatus => hfinal (hcoherent.stopped.mpr hstatus),
    fun r s' hrun => ?_⟩
  obtain ⟨hstopped, hagain⟩ := run_again hrun
  exact ⟨hfinal hstopped, hagain⟩

open QuasiNewton.Affine in
/-- Over the restart at two elements, a run of the affine problem ends coherently and finally. -/
theorem status_coherent_affine :
    ∃ s₀ k s, start problem request = (.ok s₀, k) ∧ s = after problem s₀ (detour ++ [.run]) ∧
      s.status = .success ∧ s.Coherent 3 ∧ s.Final problem := by
  obtain ⟨s₀, k, hstart, hrenewing, hsuccess⟩ := exists_started problem request
    (fun s => Renewing problem s (detour ++ [.run]) ∧
      (after problem s (detour ++ [.run])).status = .success) (by decide +kernel)
  have hoptions : Options.make (.number (.whole 3)) .absent (.setting .absent) =
      .ok problem.options := rfl
  obtain ⟨⟨m, hm, hcoherent⟩, hfinal, -⟩ := status_coherent Machine.magnitudes_integral hoptions
    hstart (by decide) hrenewing rfl
  obtain rfl : m = 3 := hm.unique (Quantity.standsFor_of_integer? rfl)
  refine ⟨s₀, k, _, hstart, rfl, hsuccess, hcoherent, hfinal ?_⟩
  rw [hsuccess]
  exact nofun

end Session

end QuasiNewton
