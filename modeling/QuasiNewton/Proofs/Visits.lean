import QuasiNewton.Proofs.Attempts
import QuasiNewton.Proofs.Consistency
import QuasiNewton.Proofs.Kinds
import QuasiNewton.Proofs.Orders

/-!
# The points a solve visits

A solve visits the point it begins at and the points its steps go to, before any of them returns to
the best one. Over steps and runs that answer, a session goes along these points one by one.
-/

namespace QuasiNewton

open QuasiNewton.Action

variable {A : Arithmetic} {P : Type} {F : Tensor A → P → Attempt A (Tensor A)} {setup : Setup A P}

/-! ## The first least value of a sequence -/

/-- In a sequence of magnitudes up to an index, one is the first of the least among those that are
defined. -/
structure FirstLeast (μ : Nat → Attempt A A.Real) (k i : Nat) (x : A.Real) : Prop where
  index : i ≤ k
  value : μ i = .ok x
  defined : A.Defined x
  answers : ∀ j ≤ k, ∃ y, μ j = .ok y
  least : ∀ j ≤ k, ∀ y, μ j = .ok y → A.Defined y → A.le x y = true
  first : ∀ j < i, ∀ y, μ j = .ok y → A.Defined y → A.lt x y = true

namespace FirstLeast

variable {μ : Nat → Attempt A A.Real} {k i : Nat} {x y : A.Real}

/-- A sequence of one value. -/
theorem zero (hA : A.InOrder) (hx : μ 0 = .ok x) (hdefined : A.Defined x) :
    FirstLeast μ 0 0 x where
  index := Nat.le_refl 0
  value := hx
  defined := hdefined
  answers := fun j hj => by
    obtain rfl := Nat.le_zero.mp hj
    exact ⟨x, hx⟩
  least := fun j hj y hy _ => by
    obtain rfl := Nat.le_zero.mp hj
    obtain rfl := Except.ok.inj (hx.symm.trans hy)
    exact hA.le_refl hdefined
  first := fun j hj => absurd hj (Nat.not_lt_zero j)

/-- Another value answers. -/
private theorem answers_succ (h : FirstLeast μ k i x) (hy : μ (k + 1) = .ok y) (j : Nat)
    (hj : j ≤ k + 1) : ∃ z, μ j = .ok z := by
  rcases Nat.le_succ_iff.mp hj with hj | rfl
  · exact h.answers j hj
  · exact ⟨y, hy⟩

/-- Another value that is not below the least one. -/
theorem keep (h : FirstLeast μ k i x) (hA : A.InOrder) (hy : μ (k + 1) = .ok y)
    (hyx : A.lt y x = false) : FirstLeast μ (k + 1) i x where
  index := Nat.le_succ_of_le h.index
  value := h.value
  defined := h.defined
  answers := h.answers_succ hy
  least := fun j hj z hz hdefined => by
    rcases Nat.le_succ_iff.mp hj with hj | rfl
    · exact h.least j hj z hz hdefined
    · obtain rfl := Except.ok.inj (hy.symm.trans hz)
      exact hA.le_of_not_lt h.defined hdefined hyx
  first := h.first

/-- Another value below the least one is the least one from then on. -/
theorem replace (h : FirstLeast μ k i x) (hA : A.InOrder) (hy : μ (k + 1) = .ok y)
    (hyx : A.lt y x = true) : FirstLeast μ (k + 1) (k + 1) y where
  index := Nat.le_refl _
  value := hy
  defined := hA.defined_of_lt hyx
  answers := h.answers_succ hy
  least := fun j hj z hz hdefined => by
    rcases Nat.le_succ_iff.mp hj with hj | rfl
    · exact hA.le_of_lt (hA.lt_of_lt_of_le hyx (h.least j hj z hz hdefined))
    · obtain rfl := Except.ok.inj (hy.symm.trans hz)
      exact hA.le_refl hdefined
  first := fun j hj z hz hdefined =>
    hA.lt_of_lt_of_le hyx (h.least j (Nat.lt_succ_iff.mp hj) z hz hdefined)

end FirstLeast

namespace Session

variable {b s s' : Session A P} {k : Nat}

/-! ## Points and norms -/

/-- The points that the steps of a session visit: where it is, and where each step goes. -/
def visited (setup : Setup A P) (b : Session A P) : Nat → Tensor A
  | 0 => b.work.iterate
  | k + 1 => ((count .steps >>= fun _ => probe setup).outcome (attempts setup b k)).2.work.iterate

/-- The norm of the residual at a point. -/
def objective (F : Tensor A → P → Attempt A (Tensor A)) (setup : Setup A P) (p : P)
    (point : Tensor A) : Attempt A A.Real := do
  setup.norm (← F point p)

/-- The objective at an iterate is the norm of its residual. -/
theorem objective_of_residual {p : P} {u v : Tensor A} (h : F u p = .ok v) :
    objective F setup p u = setup.norm v := by
  rw [objective, h]
  rfl

/-- A probe goes to the point that its step visits. -/
theorem Probe.Valid.visited_eq {x : Probe A} (hx : x.Valid setup (attempts setup b k)) :
    visited setup b (k + 1) = x.iterate := by
  rw [visited, hx.made]
  rfl

/-! ## Steps that answer -/

/-- A session has come from another by a number of steps that answered. -/
structure Walked (setup : Setup A P) (b : Session A P) (k : Nat) (s : Session A P) : Prop extends
    Follows setup b k s where
  answered : ∀ j < k, ((step setup).outcome (attempts setup b j)).1 = .ok ()

/-- A session has come from another by steps that answered, or has used up its budget. -/
def Walks (setup : Setup A P) (b s : Session A P) : Prop :=
  (∃ k, Walked setup b k s) ∨ (s.stopped = true ∧ s.status = .iterationsExhausted)

/-- Steps and runs that answer keep to a walk. -/
theorem invariant_walks (hR : setup.residual.Computes F) (hF : Residual.Conforms F)
    (b : Session A P) : Invariant setup (Walks setup b) fun _ => True where
  advance := by
    rintro s (⟨k, hwalked⟩ | ⟨hstopped, -⟩) hs
    · refine .of_cases (fun _ s' h => ?_) fun _ _ _ => trivial
      have hgoing : (attempts setup b k).stopped = false := hwalked.alike.stopped.symm.trans hs
      obtain ⟨t, ht, halike⟩ := (advance_agree (.refl hR hF) hwalked.alike (.inl rfl)
        (fun _ _ h => h) rfl).of_ok h
      have hstep : (step setup).outcome (attempts setup b k) = (.ok (), t) :=
        (outcome_step_of_not_stopped setup hgoing).trans ht
      refine .inl ⟨k + 1, ⟨fun j hj => ?_, ?_⟩, fun j hj => ?_⟩
      · rcases Nat.lt_succ_iff_lt_or_eq.mp hj with hj | rfl
        · exact hwalked.going j hj
        · exact hgoing
      · rw [attempts, hstep]
        exact halike
      · rcases Nat.lt_succ_iff_lt_or_eq.mp hj with hj | rfl
        · exact hwalked.answered j hj
        · rw [hstep]
    · exact absurd (hs.symm.trans hstopped) Bool.false_ne_true
  exhaust := fun _ _ => .inr ⟨rfl, rfl⟩
  lines := by
    rintro s transcript (⟨k, hwalked⟩ | hspent)
    · exact .inl ⟨k, { hwalked with
        alike := { hwalked.alike with transcript := fun l hl => by cases hl } }⟩
    · exact .inr hspent
  weaken := fun _ => trivial

end Session

end QuasiNewton
