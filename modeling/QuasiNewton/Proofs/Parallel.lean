import QuasiNewton.Proofs.Agreement
import QuasiNewton.Solver.Run

/-!
# Parallel sessions

Two sessions are alike if they show the same and differ in scratch arrays, in the calls made before
and in the lines reported before only. Sessions that are alike stay so through every part of a step,
if both keep their arrays in the same way. If they do not, then still as long as the arrays are
regular, the direction takes the rows written to it, and rank-one updates add outer products.
-/

namespace QuasiNewton

variable {A : Arithmetic} {P : Type}

/-! ## Residual functions without a memory -/

namespace Residual

/-- What a residual function answers depends on the iterate and the parameter alone. -/
def Computes (R : Residual A P) (F : Tensor A → P → Attempt A (Tensor A)) : Prop :=
  match R with
  | .returning f => ∀ n u p, f n u p = F u p
  | .writing f => ∀ n out u p, f n out u p = F u p

/-- Residuals are of the kind and the shape of the iterate. -/
def Conforms (F : Tensor A → P → Attempt A (Tensor A)) : Prop :=
  ∀ u p v, F u p = .ok v → v.frame = u.frame

variable {R R' : Residual A P} {F : Tensor A → P → Attempt A (Tensor A)}

/-- Every evaluation is one call. -/
theorem evaluate_snd (R : Residual A P) (n : Nat) (a u : Tensor A) (p : P) :
    (R.evaluate n a u p).2 = n + 1 := by
  cases R <;> rfl

/-- Into an array of the frame of the iterate both forms put the residual itself. -/
theorem Computes.evaluate (h : R.Computes F) (hF : Conforms F) {a u : Tensor A}
    (ha : a.frame = u.frame) (n : Nat) (p : P) : (R.evaluate n a u p).1 = F u p := by
  cases R with
  | returning f => exact h _ u p
  | writing f =>
    have hcall : f (n + 1) a u p = F u p := h _ a u p
    rw [Residual.evaluate, hcall]
    cases hv : F u p with
    | error e => rfl
    | ok v => exact congrArg Except.ok (Tensor.overwrite_of_frame ((hF u p v hv).trans ha.symm))

/-- A function that returns is handed no array. -/
theorem Computes.evaluate_of_returns (h : R.Computes F) (hw : R.writes = false) (n : Nat)
    (a u : Tensor A) (p : P) : (R.evaluate n a u p).1 = F u p := by
  cases R with
  | returning f => exact h _ u p
  | writing f => cases hw

/-- Functions of one form put the same into arrays of one frame. -/
theorem Computes.evaluate_congr (h : R.Computes F) (h' : R'.Computes F) (hw : R.writes = R'.writes)
    {a a' : Tensor A} (ha : a.frame = a'.frame) (n n' : Nat) (u : Tensor A) (p : P) :
    (R.evaluate n a u p).1 = (R'.evaluate n' a' u p).1 := by
  cases R with
  | returning f =>
    cases R' with
    | returning f' => exact (h _ u p).trans (h' _ u p).symm
    | writing f' => cases hw
  | writing f =>
    cases R' with
    | returning f' => cases hw
    | writing f' =>
      have hcall : f (n + 1) a u p = f' (n' + 1) a' u p := (h _ a u p).trans (h' _ a' u p).symm
      have hover : a.overwrite = a'.overwrite := funext (Tensor.overwrite_congr ha)
      rw [Residual.evaluate, Residual.evaluate, hcall, hover]

/-- A function that writes puts the same into arrays of one frame; one that returns does not see the
array. -/
theorem Computes.evaluate_same (h : R.Computes F) {a a' : Tensor A}
    (ha : R.writes = true → a.frame = a'.frame) (n n' : Nat) (u : Tensor A) (p : P) :
    (R.evaluate n a u p).1 = (R.evaluate n' a' u p).1 := by
  cases hw : R.writes with
  | true => exact h.evaluate_congr h rfl (ha hw) n n' u p
  | false => rw [h.evaluate_of_returns hw, h.evaluate_of_returns hw]

end Residual

/-! ## Line searches with a memory -/

namespace LineSearch

/-- The same rule, which has been asked a number of times already. -/
def later (k : Nat) : LineSearch A → LineSearch A
  | .fullStep => .fullStep
  | .fixed length => .fixed length
  | .search f => .search fun n => f (k + n)

/-- A line search that has not been called is the line search. -/
theorem later_zero (rule : LineSearch A) : rule.later 0 = rule := by
  cases rule <;> simp [later]

/-- After some calls the rule answers as the rule that was called later would. -/
theorem length_later (rule : LineSearch A) (k n : Nat) (u d : Tensor A) :
    rule.length (k + n) u d =
      (((rule.later k).length n u d).1, k + ((rule.later k).length n u d).2) := by
  cases rule <;> rfl

end LineSearch

/-! ## Setups for the same residuals -/

/-- Two setups for the same residuals and the same options, the line search excepted. -/
structure Setup.Twins (F : Tensor A → P → Attempt A (Tensor A)) (setup setup' : Setup A P) :
    Prop where
  computes : setup.residual.Computes F
  computes' : setup'.residual.Computes F
  conforms : Residual.Conforms F
  resetBudget : setup.options.resetBudget = setup'.options.resetBudget
  resetTolerance : setup.options.resetTolerance = setup'.options.resetTolerance
  norm : setup.norm = setup'.norm
  verbosity : setup.verbosity = setup'.verbosity

/-- A setup whose residual is computed by a function is a twin of itself. -/
theorem Setup.Twins.refl {F : Tensor A → P → Attempt A (Tensor A)} {setup : Setup A P}
    (hR : setup.residual.Computes F) (hF : Residual.Conforms F) : setup.Twins F setup :=
  ⟨hR, hR, hF, rfl, rfl, rfl, rfl⟩

/-- Setups with the same engine have residual functions of the same form. -/
theorem Setup.writes_eq {setup setup' : Setup A P} (h : setup.engine = setup'.engine) :
    setup.residual.writes = setup'.residual.writes := by
  unfold Setup.engine at h
  cases hw : setup.residual.writes <;> cases hw' : setup'.residual.writes <;> simp_all

/-! ## Sessions that are alike -/

/-- How close two sessions are that are alike. -/
structure Tie (A : Arithmetic) where
  /-- The scratch arrays that are the same in both. -/
  known : List Workspace.Scratch
  /-- How many searches the first one is ahead. -/
  searches : Nat
  /-- How many calls of the residual function the first one is ahead. -/
  calls : Nat
  /-- What the first one reported before, if the reports are compared. -/
  earlier : Option (List (Line A.Real))
  /-- The frame in which the arrays are regular, if they are. -/
  frame : Option (Frame A)
  /-- The frame of the best iterate, if that belongs to the arrays. -/
  best : Option (Frame A)
  /-- Do the directions of regular arrays take the rows that are written to them? -/
  fillable : Bool

/-- How two alike sessions may be used: with one engine, or with any two if the arrays are regular,
the directions take rows and rank-one updates add outer products. -/
def Tie.Usable (τ : Tie A) (setup setup' : Setup A P) : Prop :=
  setup.engine = setup'.engine ∨ τ.fillable = true ∧ ∃ f ∈ τ.frame, A.AddsOuter f.kind

namespace Session

/-- Two sessions are alike as closely as a tie says. -/
structure Alike (setup : Setup A P) (τ : Tie A) (s t : Session A P) : Prop where
  parameter : s.parameter = t.parameter
  work : s.work.Alike τ.known t.work
  resetCheck : s.resetCheck = t.resetCheck
  monitor : s.monitor = t.monitor
  tolerances : s.tolerances = t.tolerances
  budget : s.budget = t.budget
  resets : s.resets = t.resets
  stopped : s.stopped = t.stopped
  status : s.status = t.status
  statistics : s.statistics = t.statistics
  line : t.lineSearch = s.lineSearch.later τ.searches
  searches : s.searches = τ.searches + t.searches
  evaluations : s.evaluations = τ.calls + t.evaluations
  transcript : ∀ l ∈ τ.earlier, s.transcript = l ++ t.transcript
  regular : ∀ f ∈ τ.frame, s.work.Regular f
  fillable : ∀ f ∈ τ.frame, τ.fillable = true → s.work.fillable = true
  check : ∀ f ∈ τ.frame,
    ResetCheck.forKind f.kind setup.options.resetTolerance = .ok s.resetCheck
  best : ∀ f ∈ τ.best, s.monitor.bestIterate.frame = f
  rule : LineSearch.ofChoice setup.options.lineSearch = .ok s.lineSearch
  positive : s.budget.isBelow (M := A.toMagnitudes) 1 = false

open QuasiNewton.Action

section

variable {F : Tensor A → P → Attempt A (Tensor A)} {setup setup' : Setup A P} {τ : Tie A}
  {s t : Session A P} {fail : Session A P → Session A P → Prop}

namespace Alike

/-- Sessions that are alike are so with less scratch known. -/
theorem forget (h : Alike setup τ s t) {known : List Workspace.Scratch} (hk : known ⊆ τ.known) :
    Alike setup { τ with known := known } s t :=
  { h with work := h.work.mono hk }

/-- New arrays that are alike again. -/
theorem withWork (h : Alike setup τ s t) {known : List Workspace.Scratch} {w w' : Workspace A}
    (hw : w.Alike known w')
    (hr : ∀ f ∈ τ.frame, w.Regular f ∧ w.fillable = s.work.fillable) :
    Alike setup { τ with known := known } { s with work := w } { t with work := w' } :=
  { h with
    work := hw
    regular := fun f hf => (hr f hf).1
    fillable := fun f hf hτ => (hr f hf).2.trans (h.fillable f hf hτ) }

/-- The second session's arrays are regular too. -/
theorem regular_right (h : Alike setup τ s t) : ∀ f ∈ τ.frame, t.work.Regular f :=
  fun f hf => h.work.regular (h.regular f hf)

/-- So does the second session's direction take rows. -/
theorem fillable_right (h : Alike setup τ s t) :
    ∀ f ∈ τ.frame, τ.fillable = true → t.work.fillable = true :=
  fun f hf hτ => h.work.fillable.symm.trans (h.fillable f hf hτ)

end Alike

/-! ## Reports -/

/-- A line is reported alike. -/
theorem report_agree (hs : Alike setup τ s t) (line : Line A.Real) :
    Agree (fun _ => Alike setup τ) fail (report line) (report line) s t := by
  refine .of_modify { hs with transcript := fun l hl => ?_ }
  simp only [hs.transcript l hl, List.append_assoc]

/-- Whether lines are wanted is answered alike. -/
theorem speaks_agree (hw : setup.Twins F setup') (hs : Alike setup τ s t)
    (hfail : ∀ s t, Alike setup τ s t → fail s t) (level : Int) :
    Agree (fun _ => Alike setup τ) fail (speaks setup level) (speaks setup' level) s t := by
  unfold speaks
  refine .seq (.of_attempt ?_ (fun _ _ => hs) (hfail s t hs)) fun q s' t' hs' => .of_pure rfl hs'
  rw [hw.verbosity]

/-- An event is logged alike. -/
theorem log_agree (hw : setup.Twins F setup') (hs : Alike setup τ s t)
    (hfail : ∀ s t, Alike setup τ s t → fail s t) {what what' : Event A.Real}
    (hwhat : what = what') :
    Agree (fun _ => Alike setup τ) fail (log setup what) (log setup' what') s t := by
  subst hwhat
  unfold log
  refine .seq (speaks_agree hw hs hfail 2) fun b s' t' hs' => ?_
  cases b with
  | false => exact .of_pure rfl hs'
  | true =>
    refine .get_seq ?_
    rw [hs'.statistics]
    exact report_agree hs' _

/-! ## Moves -/

/-- Corresponding moves are made in both. -/
theorem rework_agree (hs : Alike setup τ s t) (hfail : ∀ s t, Alike setup τ s t → fail s t)
    {known : List Workspace.Scratch} {f g : Workspace A → Attempt A (Workspace A)}
    (hfg : Attempt.Corresponds (Workspace.Alike known) (f s.work) (g t.work))
    (hregular : ∀ k ∈ τ.frame, ∀ w, f s.work = .ok w →
      w.Regular k ∧ w.fillable = s.work.fillable) :
    Agree (fun _ => Alike setup { τ with known := known }) fail (rework f) (rework g) s t :=
  .of_rework hfg (fun w _ hw hww => hs.withWork hww fun k hk => hregular k hk w hw) (hfail s t hs)

/-- A move that depends on no unknown scratch array corresponds to itself. -/
theorem corresponds_of_uniform (hs : Alike setup τ s t) (hu : τ.Usable setup setup')
    {move : Engine → Workspace A → Attempt A (Workspace A)} {r : Workspace A → Workspace A → Prop}
    (huniform : Workspace.Uniform move)
    (hmove : ∀ e, Attempt.Corresponds r (move e s.work) (move e t.work)) :
    Attempt.Corresponds r (move setup.engine s.work) (move setup'.engine t.work) := by
  rcases hu with he | ⟨-, f, hf, -⟩
  · rw [← he]
    exact hmove setup.engine
  · obtain ⟨w, hw, -⟩ := huniform f t.work (hs.regular_right f hf)
    rw [hw setup'.engine, ← hw setup.engine]
    exact hmove setup.engine

/-- A move that is uniform and corresponds in both forms leaves sessions alike. -/
theorem move_agree (hs : Alike setup τ s t) (hu : τ.Usable setup setup')
    (hfail : ∀ s t, Alike setup τ s t → fail s t)
    (move : Engine → Workspace A → Attempt A (Workspace A)) {known : List Workspace.Scratch}
    (huniform : Workspace.Uniform move)
    (hmove : ∀ e, Attempt.Corresponds (Workspace.Alike known) (move e s.work) (move e t.work)) :
    Agree (fun _ => Alike setup { τ with known := known }) fail (rework (move setup.engine))
      (rework (move setup'.engine)) s t := by
  exact rework_agree hs hfail (corresponds_of_uniform hs hu huniform hmove) fun f hf w hw =>
    huniform.regular (hs.regular f hf) hw

/-- The caller's array is settled alike. -/
theorem settleOrigin_agree (hs : Alike setup τ s t) :
    Agree (fun _ => Alike setup τ) fail (settleOrigin setup) (settleOrigin setup') s t := by
  obtain ⟨o, b, hx⟩ := outcome_settleOrigin setup s
  obtain ⟨o', b', hy⟩ := outcome_settleOrigin setup' t
  exact .of_outcome hx hy { hs with }

/-! ## Evaluations -/

/-- The residual function of a setup answers the residual itself, if an array that is overwritten is
of the frame of the iterate. -/
theorem evaluate_of_computes (hR : setup.residual.Computes F) (hF : Residual.Conforms F)
    {a u : Tensor A} (ha : setup.engine = .inPlace → a.frame = u.frame) (n : Nat) (p : P) :
    (setup.residual.evaluate n a u p).1 = F u p := by
  cases hw : setup.residual.writes with
  | true => exact hR.evaluate hF (ha (if_pos hw)) _ _
  | false => exact hR.evaluate_of_returns hw _ _ _ _

/-- So does an evaluation. -/
theorem outcome_evaluate_of_computes (hR : setup.residual.Computes F) (hF : Residual.Conforms F)
    {array : Tensor A} (harray : setup.engine = .inPlace → array.frame = s.work.iterate.frame) :
    (evaluate setup array).outcome s =
      (F s.work.iterate s.parameter, { s with evaluations := s.evaluations + 1 }) := by
  rw [outcome_evaluate, evaluate_of_computes hR hF harray, Residual.evaluate_snd]

/-- Both sessions get the same residual; within regular arrays it is of their frame. -/
theorem evaluate_agree (hw : setup.Twins F setup') (hs : Alike setup τ s t)
    (hu : τ.Usable setup setup') (hfail : ∀ s t, Alike setup τ s t → fail s t) {a b : Tensor A}
    (hab : a.frame = b.frame) (ha : ∀ f ∈ τ.frame, a.frame = f) :
    Agree (fun v s' t' => (∀ f ∈ τ.frame, v.frame = f) ∧ Alike setup τ s' t') fail
      (evaluate setup a) (evaluate setup' b) s t := by
  have hb : ∀ f ∈ τ.frame, b.frame = f := fun f hf => hab.symm.trans (ha f hf)
  have hvalue : (setup.residual.evaluate s.evaluations a s.work.iterate s.parameter).1 =
      (setup'.residual.evaluate t.evaluations b t.work.iterate t.parameter).1 := by
    rw [← hs.work.iterate, ← hs.parameter]
    rcases hu with he | ⟨-, f, hf, -⟩
    · exact hw.computes.evaluate_congr hw.computes' (Setup.writes_eq he) hab _ _ _ _
    · have hi := (hs.regular f hf).iterate
      rw [hw.computes.evaluate hw.conforms ((ha f hf).trans hi.symm),
        hw.computes'.evaluate hw.conforms ((hb f hf).trans hi.symm)]
  have hframe : ∀ v,
      (setup.residual.evaluate s.evaluations a s.work.iterate s.parameter).1 = .ok v →
      ∀ f ∈ τ.frame, v.frame = f := by
    intro v hv f hf
    have hi := (hs.regular f hf).iterate
    rw [hw.computes.evaluate hw.conforms ((ha f hf).trans hi.symm)] at hv
    exact (hw.conforms _ _ _ hv).trans hi
  have hcalls : s.evaluations + 1 = τ.calls + (t.evaluations + 1) := by
    rw [hs.evaluations, Nat.add_assoc]
  have hnext : Alike setup τ { s with evaluations := s.evaluations + 1 }
      { t with evaluations := t.evaluations + 1 } := { hs with evaluations := hcalls }
  unfold Agree
  rw [outcome_evaluate, outcome_evaluate, ← hvalue, Residual.evaluate_snd, Residual.evaluate_snd]
  cases hv : (setup.residual.evaluate s.evaluations a s.work.iterate s.parameter).1 with
  | error e => exact ⟨rfl, hfail _ _ hnext⟩
  | ok v => exact ⟨rfl, hframe v hv, hnext⟩

end

end Session

end QuasiNewton
