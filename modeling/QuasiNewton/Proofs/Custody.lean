import QuasiNewton.Proofs.Engines
import QuasiNewton.Proofs.Judgements

/-!
# The caller's array

The iterate lives in the caller's array only if arrays are overwritten, the caller allows it, and
the array is taken as it is and can hold the iterate. Then it shows the iterate after every
operation until a restart makes new arrays. An array that the iterate does not live in, or has left,
stays as it is.
-/

namespace QuasiNewton

open QuasiNewton.Action

variable {A : Arithmetic} {P : Type}

/-- The caller's array takes in the iterate. -/
structure Request.Lends (setup : Setup A P) (request : Request A P) : Prop where
  /-- Arrays are overwritten. -/
  writes : setup.residual.writes = true
  /-- The caller allows it. -/
  mayShare : request.origin.mayShare = true
  /-- The array is taken as it is. -/
  plain : request.origin.plain = true
  /-- It is stored row by row, without gaps. -/
  packed : request.origin.layout = .packed
  /-- It can be written to. -/
  writable : request.origin.writable = true
  /-- Its elements are stored in the byte order of the machine. -/
  native : request.origin.native = true
  /-- Its kind is one that can be iterated in. -/
  working : A.working request.origin.point.kind = request.origin.point.kind

/-- What the caller and the array have to say about it is whether the first iterate is to live
there. -/
theorem Request.lends_iff {setup : Setup A P} {request : Request A P} :
    request.Lends setup ↔ setup.residual.writes = true ∧ request.origin.shares = true := by
  constructor
  · rintro ⟨hwrites, hmay, hplain, hpacked, hwritable, hnative, hworking⟩
    refine ⟨hwrites, ?_⟩
    simp only [Origin.shares, hmay, hplain, hpacked, hwritable, hnative, hworking,
      beq_self_eq_true, Bool.and_self]
  · rintro ⟨hwrites, hshares⟩
    simp only [Origin.shares, Bool.and_eq_true, beq_iff_eq] at hshares
    obtain ⟨⟨⟨⟨⟨hmay, hplain⟩, hpacked⟩, hwritable⟩, hnative⟩, hkind⟩ := hshares
    exact ⟨hwrites, hmay, hplain, hpacked, hwritable, hnative, hkind.symm⟩

/-- What a function that writes has written needs no other kind, so the first iterate lives where it
was to live, and is the caller's array there. -/
theorem Origin.ready_of_writes {origin : Origin A} {R : Residual A P} (hR : R.writes = true)
    {p : P} {n : Nat} {ready : Ready A} (h : (origin.ready R p n).1 = .ok ready) :
    ready.shared = origin.shares ∧ (origin.shares = true → ready.iterate = origin.point) := by
  unfold Origin.ready at h
  split at h
  case isTrue => cases h
  case isFalse =>
    obtain ⟨v, hv, h⟩ := Attempt.bind_eq_ok.mp h
    have hkind : v.kind = origin.iterate.kind :=
      Tensor.kind_congr ((Residual.frame_evaluate hR hv).trans (Tensor.frame_zerosLike _))
    change Ready.join origin.iterate v origin.shares (origin.fillable R) = .ok ready at h
    simp only [Ready.join, hkind, A.join_self, Tensor.castTo_self, beq_self_eq_true,
      Bool.and_true] at h
    split at h
    case isTrue =>
      obtain rfl := Except.ok.inj h
      refine ⟨rfl, fun hshares => ?_⟩
      simp only [Origin.shares, Bool.and_eq_true, beq_iff_eq] at hshares
      exact (congrArg (Tensor.castTo · origin.point) hshares.2.symm).trans
        (Tensor.castTo_self origin.point)
    case isFalse => cases h

/-- A property of the caller's array, of whether it is shared and of the iterate, which every change
of the iterate preserves. -/
structure Custodial (e : Engine) (I : Tensor A → Bool → Tensor A → Prop) : Prop where
  shared : ∀ {origin u} v, e = .inPlace → I origin true u → I v true v
  apart : ∀ {origin u} v, e = .inPlace → I origin false u → I origin false v
  replaced : ∀ {origin b u} v, e = .rebuilding → I origin b u → I origin false v

namespace Session

variable {setup : Setup A P} {s s' : Session A P} {I : Tensor A → Bool → Tensor A → Prop}

/-- The caller's array, whether it is shared, and the iterate. -/
def originAndIterate (s : Session A P) : Tensor A × Bool × Tensor A :=
  (s.origin, s.shared, s.work.iterate)

/-- The three have a property. -/
def Holds (I : Tensor A → Bool → Tensor A → Prop) (s : Session A P) : Prop :=
  I s.origin s.shared s.work.iterate

/-- A property of the three is a matter of the three. -/
theorem Holds.of_originAndIterate (hs : s.Holds I) (h : s'.originAndIterate = s.originAndIterate) :
    s'.Holds I := by
  simp only [originAndIterate, Prod.mk.injEq] at h
  obtain ⟨horigin, hshared, hiterate⟩ := h
  unfold Holds
  rw [horigin, hshared, hiterate]
  exact hs

/-- What keeps the three keeps every property of them. -/
theorem Holds.kept {α : Type} {x : Action A P α} (hs : s.Holds I) (hx : x.Keeps originAndIterate) :
    Upholds (fun _ => Holds I) (Holds I) x s :=
  .of_keeps hx fun _ h => hs.of_originAndIterate h

/-! ## What leaves the three alone -/

/-- To log an event leaves the three alone. -/
theorem originAndIterate_log (setup : Setup A P) (what : Event A.Real) :
    (log setup what).Keeps originAndIterate :=
  (keeps_log setup what).map originAndIterate

/-- So does an evaluation. -/
theorem originAndIterate_evaluate (setup : Setup A P) (array : Tensor A) :
    (evaluate setup array).Keeps originAndIterate :=
  keeps_evaluate setup (fun _ _ => rfl) array

/-- A change of the arrays that stays where it is leaves the three alone. -/
theorem originAndIterate_rework {g : Workspace A → Attempt A (Workspace A)}
    (hg : ∀ {w w'}, g w = .ok w' → w'.reached = w.reached) :
    (rework g : Action A P Unit).Keeps originAndIterate := by
  refine .of_rework fun s w h => ?_
  have hiterate : w.iterate = s.work.iterate := congrArg Prod.fst (hg h)
  simp only [originAndIterate, hiterate]

/-- So does the second half of a step that goes on. -/
theorem originAndIterate_refine (setup : Setup A P) : (refine setup).Keeps originAndIterate :=
  (reachedAndOrigin_refine setup).map fun v => (v.2.1, v.2.2, v.1.1.1)

/-- So does taking over the parameter and the budget of a restart. -/
theorem originAndIterate_adopt (r : Restart A P) : (adopt r).Keeps originAndIterate :=
  keeps_adopt (fun _ _ => rfl) (fun _ _ => rfl) r

/-- So does starting the monitor over. -/
theorem originAndIterate_renewMonitor (setup : Setup A P) (r : Restart A P) :
    (renewMonitor setup r).Keeps originAndIterate :=
  keeps_renewMonitor setup (fun _ _ => rfl) (fun _ _ => rfl) r

/-! ## New arrays -/

/-- The operation makes new arrays: a restart that has its budget accepted, at a point of another
shape that can be made ready. -/
def Reallocates (setup : Setup A P) (s : Session A P) : Operation A P → Prop
  | .restart r =>
    (∃ budget, r.budgetAfter s.budget = .ok budget) ∧
      ∃ point ∈ r.point, point.shape ≠ s.work.iterate.shape ∧
        ∃ ready, (Origin.ready { point, layout := r.layout } setup.residual
          (r.parameter.getD s.parameter) s.evaluations).1 = .ok ready
  | _ => False

/-- No operation of a history makes new arrays. -/
def KeepsArrays (setup : Setup A P) : Session A P → List (Operation A P) → Prop
  | _, [] => True
  | s, op :: ops => ¬ Reallocates setup s op ∧ KeepsArrays setup (next setup s op) ops

instance (s : Session A P) (op : Operation A P) : Decidable (Reallocates setup s op) :=
  match op with
  | .restart _ => inferInstanceAs (Decidable (_ ∧ _))
  | .steps _ | .run | .setResidual _ | .setInverse _ | .setStopped _ => .isFalse id

instance KeepsArrays.decidable : ∀ s ops, Decidable (KeepsArrays setup s ops)
  | _, [] => .isTrue trivial
  | s, op :: ops =>
    have := KeepsArrays.decidable (next setup s op) ops
    inferInstanceAs (Decidable (_ ∧ _))

/-- The caller's array is as it was, and nothing lives in it. -/
def Left (t origin : Tensor A) (shared : Bool) (_ : Tensor A) : Prop := origin = t ∧ shared = false

/-- Where new arrays are made the caller's array is left, whether the restart answers or fails. -/
theorem left_restart {r : Restart A P} (h : Reallocates setup s (.restart r)) :
    Upholds (fun _ => Holds (Left s.origin)) (Holds (Left s.origin)) (restart setup r) s := by
  obtain ⟨⟨budget, hbudget⟩, point, hpoint, hshape, ready, hready⟩ := h
  have hadopt := outcome_adopt hbudget
  refine .seq (m := fun _ s₁ => s₁ = s.adopted r budget) (.of_cases (fun _ s₁ h => ?_)
    fun _ s₁ h => ?_) fun _ s₁ h₁ => .get_seq ?_
  · exact (congrArg Prod.snd (hadopt.symm.trans h)).symm
  · cases hadopt.symm.trans h
  subst h₁
  rw [Option.mem_def.mp hpoint, Option.getD_some]
  refine .seq (m := fun _ => Holds (Left s.origin)) (.get_seq ?_) fun _ s₂ h₂ =>
    .seq (h₂.kept (originAndIterate_renewMonitor setup r)) fun _ s₃ h₃ => .of_modify h₃
  rw [if_neg (show point.shape ≠ (s.adopted r budget).work.iterate.shape from hshape)]
  refine .get_seq (.modify_seq ?_)
  refine .attempt_seq (fun e he => ?_) fun ready _ => .modify_seq (.get_seq ?_)
  · cases hready.symm.trans he
  · exact .attempt_seq (fun _ _ => ⟨rfl, rfl⟩) fun _ _ => .of_modify ⟨rfl, rfl⟩

end Session

/-! ## What every change of the iterate preserves -/

namespace Custodial

open Session

variable {setup : Setup A P} {s : Session A P} {I : Tensor A → Bool → Tensor A → Prop} {β : Type}
  (hI : Custodial setup.engine I)

include hI

/-- The caller's array is settled after the iterate has become another one. -/
theorem settle {u : Tensor A} (hs : I s.origin s.shared u) :
    ((settleOrigin setup).outcome s).2.Holds I := by
  unfold settleOrigin Holds
  rw [outcome_modify]
  cases he : setup.engine with
  | inPlace =>
    cases hshared : s.shared with
    | true =>
      rw [hshared] at hs
      simpa [hshared] using hI.shared s.work.iterate he hs
    | false =>
      rw [hshared] at hs
      simpa [hshared] using hI.apart s.work.iterate he hs
  | rebuilding => exact hI.replaced s.work.iterate he hs

/-- Between the change of the arrays and the settlement the property is that of the iterate before.
-/
theorem rework_settle {g : Workspace A → Attempt A (Workspace A)} {f : Unit → Action A P β}
    (hs : s.Holds I) (hf : ∀ s', s'.Holds I → Upholds (fun _ => Holds I) (Holds I) (f ()) s') :
    Upholds (fun _ => Holds I) (Holds I) (rework g >>= fun _ => settleOrigin setup >>= f) s := by
  refine .seq (m := fun _ s₁ => I s₁.origin s₁.shared s.work.iterate)
    (.of_rework (fun _ _ => hs) fun _ _ => hs) fun _ s₁ h₁ => ?_
  exact .seq (.of_outcome_snd (hI.settle h₁)) fun _ s₂ h₂ => hf s₂ h₂

/-- A move to a point preserves the property, whether it answers or fails. -/
theorem moveTo (hs : s.Holds I) (point : Tensor A) :
    Upholds (fun _ => Holds I) (Holds I) (Session.moveTo setup point) s := by
  refine hI.rework_settle hs fun s₁ h₁ => h₁.kept ?_
  exact .get_bind fun _ => .bind (originAndIterate_evaluate setup _) fun _ =>
    .of_modify fun _ => rfl

/-- So does the first half of a step. -/
theorem probe (hs : s.Holds I) :
    Upholds (fun _ => Holds I) (Holds I) (Session.probe setup) s := by
  have hlength : (stepLength : Action A P A.Real).Keeps originAndIterate :=
    keeps_stepLength fun _ _ => rfl
  refine .seq (hs.kept (originAndIterate_rework Workspace.reached_aim)) fun _ s₁ h₁ => ?_
  refine .seq (h₁.kept hlength) fun length s₂ h₂ => hI.rework_settle h₂ fun s₃ h₃ => h₃.kept ?_
  exact .get_bind fun _ => .bind (originAndIterate_evaluate setup _) fun _ =>
    .bind (.of_modify fun _ => rfl) fun _ => .of_modify fun _ => rfl

/-- So does the end of a session, with or without a return to the best iterate. -/
theorem conclude (hs : s.Holds I) :
    Upholds (fun _ => Holds I) (Holds I) (Session.conclude setup) s := by
  have hended : ({ s with status := s.monitor.status, stopped := true } : Session A P).Holds I := hs
  have hcommit : (rework (Workspace.commit setup.engine) : Action A P Unit).Keeps
      originAndIterate :=
    originAndIterate_rework Workspace.reached_commit
  refine .modify_seq (.seq (hended.kept hcommit) fun _ s₁ h₁ => .get_seq ?_)
  split
  · refine .get_seq (.seq (hI.moveTo h₁ _) fun _ s₂ h₂ => h₂.kept ?_)
    exact .bind (.of_modify fun _ => rfl) fun _ => .get_bind fun _ => originAndIterate_log setup _
  · exact .of_pure h₁

/-- So does a whole step. -/
theorem advance (hs : s.Holds I) :
    Upholds (fun _ => Holds I) (Holds I) (Session.advance setup) s := by
  have hconsult : (consult setup).Keeps originAndIterate := keeps_consult setup fun _ _ => rfl
  refine .modify_seq (.seq (hI.probe hs) fun _ s₁ h₁ => ?_)
  refine .seq (h₁.kept hconsult) fun stop s₂ h₂ => ?_
  split
  · exact hI.conclude h₂
  · exact h₂.kept (originAndIterate_refine setup)

/-- So the property is an invariant of steps and runs. -/
theorem invariant : Invariant setup (Holds I) (Holds I) where
  advance := fun hs _ => hI.advance hs
  exhaust := fun hs _ => hs
  lines := fun _ hs => hs
  weaken := fun hs => hs

/-- A restart that makes no new arrays goes to its point, if it comes that far. -/
theorem restart {r : Restart A P} (hkeeps : ¬ Reallocates setup s (.restart r)) (hs : s.Holds I) :
    Upholds (fun _ => Holds I) (Holds I) (Session.restart setup r) s := by
  refine .seq (m := fun _ s₁ => ∃ budget, r.budgetAfter s.budget = .ok budget ∧
    s₁ = s.adopted r budget) (.of_cases (fun _ s₁ h => of_adopt h) fun _ s₁ h => ?_)
    fun _ s₁ h₁ => .get_seq ?_
  · exact hs.of_originAndIterate ((originAndIterate_adopt r).eq_of_outcome h)
  obtain ⟨budget, hbudget, rfl⟩ := h₁
  have hs₁ : (s.adopted r budget).Holds I := hs
  refine .seq (m := fun _ => Holds I) (.get_seq ?_) fun _ s₂ h₂ =>
    .seq (h₂.kept (originAndIterate_renewMonitor setup r)) fun _ s₃ h₃ => .of_modify h₃
  split
  · refine .seq (hI.moveTo hs₁ _) fun _ s₂ h₂ => h₂.kept (.of_rework fun s w h => ?_)
    obtain ⟨inverse, -, h⟩ := Attempt.bind_eq_ok.mp h
    obtain rfl := Attempt.pure_eq_ok.mp h
    rfl
  · next hshape =>
    refine .get_seq (.modify_seq (.attempt_seq (fun _ _ => hs₁) fun ready hready => ?_))
    cases hpoint : r.point with
    | none =>
      rw [hpoint] at hshape
      exact absurd rfl hshape
    | some point =>
      rw [hpoint] at hshape hready
      exact absurd ⟨⟨budget, hbudget⟩, point, hpoint, hshape, ready, hready⟩ hkeeps

/-- While no operation makes new arrays the property is preserved. -/
theorem after {ops : List (Operation A P)} (hops : ∀ op ∈ ops, op.IsSolving)
    (hkeeps : KeepsArrays setup s ops) (hs : s.Holds I) : (Session.after setup s ops).Holds I := by
  induction ops generalizing s with
  | nil => exact hs
  | cons op ops ih =>
    have hperform := hI.invariant.perform (hops op List.mem_cons_self)
      (fun r hr => hI.restart (hr ▸ hkeeps.1) hs) hs
    exact ih (fun op' h => hops op' (List.mem_cons_of_mem _ h)) hkeeps.2
      (hperform.outcome_snd (fun _ _ h => h) fun _ h => h)

end Custodial

namespace Session

variable {setup : Setup A P} {s : Session A P}

/-! ## The array of the caller -/

/-- The caller's array is what it was, and no array that is overwritten. -/
def Rests (e : Engine) (t origin : Tensor A) (shared : Bool) (_ : Tensor A) : Prop :=
  origin = t ∧ (e = .inPlace → shared = false)

/-- An array that rests goes on resting, however the iterate changes. -/
theorem custodial_rests (e : Engine) (t : Tensor A) : Custodial e (Rests e t) where
  shared := fun _ he h => absurd (h.2 he) (by decide)
  apart := fun _ _ h => h
  replaced := fun _ _ h => ⟨h.1, fun _ => rfl⟩

/-- An array that is left rests. -/
theorem Holds.rests {e : Engine} {t : Tensor A} (hs : s.Holds (Left t)) : s.Holds (Rests e t) :=
  ⟨hs.1, fun _ => hs.2⟩

/-- The caller's array is the iterate. -/
def Shows (e : Engine) (origin : Tensor A) (shared : Bool) (u : Tensor A) : Prop :=
  e = .inPlace ∧ shared = true ∧ origin = u

/-- An array that shows the iterate goes on showing it, as long as both live in one place. -/
theorem custodial_shows (e : Engine) : Custodial (A := A) e (Shows e) where
  shared := fun _ he _ => ⟨he, rfl, rfl⟩
  apart := fun _ _ h => absurd h.2.1 (by decide)
  replaced := fun _ he h => absurd (h.1.symm.trans he) (by decide)

/-- An array that rests does so over every history of solving. -/
theorem rests_after {t : Tensor A} {ops : List (Operation A P)} (hops : ∀ op ∈ ops, op.IsSolving)
    (hs : s.Holds (Rests setup.engine t)) : (after setup s ops).Holds (Rests setup.engine t) := by
  have hI := custodial_rests setup.engine t
  refine hI.invariant.after_of_robust (I := Holds (Rests setup.engine t)) hops
    (fun s r _ hs => ?_) hs
  by_cases h : Reallocates setup s (.restart r)
  · exact (left_restart h).mono (fun _ _ h' => hs.1 ▸ h'.rests) fun _ h' => hs.1 ▸ h'.rests
  · exact hI.restart h hs

/-- The caller's array is overwritten only if the iterate lives in it. Whatever operations of
solving follow a start, and whether they answer or fail, an array that does not take in the iterate
stays what it was at the start; one that does shows the iterate until a restart makes new arrays;
and from that restart on it stays as it is. -/
theorem origin_shows_iterate {request : Request A P} {n : Nat}
    (hstart : start setup request = (.ok s, n)) {ops : List (Operation A P)}
    (hops : ∀ op ∈ ops, op.IsSolving) :
    (¬ request.Lends setup → (after setup s ops).origin = request.origin.point) ∧
    (request.Lends setup → KeepsArrays setup s ops →
      (after setup s ops).origin = (after setup s ops).work.iterate) ∧
    ∀ earlier op later, ops = earlier ++ op :: later →
      Reallocates setup (after setup s earlier) op →
      (after setup s ops).origin = (after setup s earlier).origin := by
  obtain ⟨budget, ready, c, tolerances, objective, check, rule, hready, -, hs⟩ := of_start hstart
  have horigin : s.origin = request.origin.point := congrArg Session.origin hs
  have hshared : s.shared = ready.shared := congrArg Session.shared hs
  have hiterate : s.work.iterate = ready.iterate := congrArg (fun s => s.work.iterate) hs
  have hready := congrArg Prod.fst hready
  refine ⟨fun hlends => ?_, fun hlends hkeeps => ?_, fun earlier op later hsplit hnew => ?_⟩
  · have hrests : s.Holds (Rests setup.engine request.origin.point) := by
      refine ⟨horigin, fun he => ?_⟩
      have hwrites := Setup.writes_of_inPlace he
      rw [hshared, (Origin.ready_of_writes hwrites hready).1, ← Bool.not_eq_true]
      exact fun hshares => hlends (Request.lends_iff.mpr ⟨hwrites, hshares⟩)
    exact (rests_after hops hrests).1
  · obtain ⟨hwrites, hshares⟩ := Request.lends_iff.mp hlends
    obtain ⟨hsame, hpoint⟩ := Origin.ready_of_writes hwrites hready
    have hshows : s.Holds (Shows setup.engine) := by
      refine ⟨if_pos hwrites, ?_, ?_⟩
      · rw [hshared, hsame, hshares]
      · rw [horigin, hiterate, hpoint hshares]
    exact ((custodial_shows setup.engine).after hops hkeeps hshows).2.2
  · subst hsplit
    have hop : op.IsSolving := hops op (List.mem_append_right _ List.mem_cons_self)
    cases op with
    | restart r =>
      have hperform : Upholds (fun _ => Holds (Left (after setup s earlier).origin))
          (Holds (Left (after setup s earlier).origin)) (perform setup (.restart r))
          (after setup s earlier) :=
        .seq (left_restart hnew) fun _ _ h => .of_pure h
      have hleft := hperform.outcome_snd (fun _ _ h => h) fun _ h => h
      have hlater (op') (h : op' ∈ later) : op'.IsSolving :=
        hops op' (List.mem_append_right _ (List.mem_cons_of_mem _ h))
      rw [after_append]
      exact (rests_after hlater hleft.rests).1
    | _ => exact hnew.elim

section

open QuasiNewton.Affine

/-- The affine problem with a residual function that writes. -/
def lent : Setup Machine.arithmetic Int := problem.writing fun _ _ => residual 2

/-- A start at zero that the iterate may live in. -/
def loan : Request Machine.arithmetic Int where
  origin := { point := vector double [0], mayShare := true }
  parameter := 3

/-- Is the first element zero? -/
def beginsAtZero (t : Tensor Machine.arithmetic) : Bool :=
  Machine.arithmetic.isZero t.kind (t.elem 0)

/-- A step, a restart at a single element, and a run. -/
def stay : List (Operation Machine.arithmetic Int) :=
  [.steps 1, .restart (restartAt double [5] 3), .run]

/-- A restart at two elements, and a step. -/
def departure : List (Operation Machine.arithmetic Int) := [.restart move, .steps 1]

/-- A solve that overwrites the array it was lent shows its iterate there over a step, a restart and
a run, and leaves it at a restart of another shape; a solve that replaces arrays does not touch it.
-/
theorem origin_shows_iterate_affine :
    (∃ s n, start lent loan = (.ok s, n) ∧
      (after lent s stay).origin = (after lent s stay).work.iterate ∧
      beginsAtZero s.origin = true ∧ beginsAtZero (after lent s stay).origin = false ∧
      (after lent s (stay ++ departure)).origin = (after lent s stay).origin ∧
      (after lent s (stay ++ departure)).work.iterate.shape = [2]) ∧
    ∃ s n, start problem loan = (.ok s, n) ∧
      (after problem s stay).origin = loan.origin.point ∧
      beginsAtZero (after problem s stay).work.iterate = false := by
  have hstay : ∀ op ∈ stay, op.IsSolving := by decide
  have hdeparture : ∀ op ∈ stay ++ departure, op.IsSolving := by decide
  constructor
  · obtain ⟨s, n, hs, hkeeps, hnew, hzero, hother, hshape⟩ := exists_started lent loan
      (fun s => KeepsArrays lent s stay ∧ Reallocates lent (after lent s stay) (.restart move) ∧
        beginsAtZero s.origin = true ∧ beginsAtZero (after lent s stay).origin = false ∧
        (after lent s (stay ++ departure)).work.iterate.shape = [2]) (by decide +kernel)
    have hlends : loan.Lends lent := ⟨rfl, rfl, rfl, rfl, rfl, rfl, by decide⟩
    have hshows := (origin_shows_iterate hs hstay).2.1 hlends hkeeps
    have hleft := (origin_shows_iterate hs hdeparture).2.2 stay (.restart move) [.steps 1] rfl hnew
    exact ⟨s, n, hs, hshows, hzero, hother, hleft, hshape⟩
  · obtain ⟨s, n, hs, hother⟩ := exists_started problem loan
      (fun s => beginsAtZero (after problem s stay).work.iterate = false) (by decide +kernel)
    have hreturns : ¬ loan.Lends problem := fun h => absurd h.writes (by decide)
    have hrests := (origin_shows_iterate hs hstay).1 hreturns
    exact ⟨s, n, hs, hrests, hother⟩

/-- A restart at two elements with a budget that is refused. -/
def refusal : Operation Machine.arithmetic Int :=
  .restart { move with budget := .number (.whole 0) }

/-- A restart at another shape that is refused leaves the iterate where it lives: the step after it
overwrites the caller's array. -/
theorem refused_restart_shares :
    ∃ s n, start lent loan = (.ok s, n) ∧ loan.Lends lent ∧
      (∀ point ∈ refusal.point, point.shape ≠ s.work.iterate.shape) ∧
      beginsAtZero (after lent s [refusal]).origin = true ∧
      beginsAtZero (after lent s [refusal, .steps 1]).origin = false := by
  obtain ⟨s, n, hs, hrest⟩ := exists_started lent loan
    (fun s => (∀ point ∈ refusal.point, point.shape ≠ s.work.iterate.shape) ∧
      beginsAtZero (after lent s [refusal]).origin = true ∧
      beginsAtZero (after lent s [refusal, .steps 1]).origin = false) (by decide +kernel)
  exact ⟨s, n, hs, ⟨rfl, rfl, rfl, rfl, rfl, rfl, by decide⟩, hrest⟩

end

end Session

end QuasiNewton
