import QuasiNewton.Proofs.Regular
import QuasiNewton.Solver.Session

/-!
# Actions that agree

Two actions agree from a pair of sessions if they give the same answer there and leave sessions in a
given relation, which may be a weaker one when they fail. Agreement is built up along the actions:
one rule for sequences and one for each primitive. A sequence that ended with a result is taken
apart by `outcome_bind_eq_ok`.
-/

namespace QuasiNewton

variable {A : Arithmetic} {P : Type}

namespace Action

variable {α β : Type}

/-- From a pair of sessions two actions give the same answer; the sessions after them are in the
first relation if it is a result and in the second if it is a fault. -/
def Agree (post : α → Session A P → Session A P → Prop) (fail : Session A P → Session A P → Prop)
    (x y : Action A P α) (s t : Session A P) : Prop :=
  match x.outcome s, y.outcome t with
  | (.ok a, s'), (.ok b, t') => a = b ∧ post a s' t'
  | (.error e, s'), (.error e', t') => e = e' ∧ fail s' t'
  | _, _ => False

variable {post : α → Session A P → Session A P → Prop} {fail : Session A P → Session A P → Prop}
  {x y : Action A P α} {s t : Session A P}

/-- A sequence ended with a result if its first part did and the rest did from there. -/
theorem outcome_bind_eq_ok {f : α → Action A P β} {b : β} {s' : Session A P} :
    (x >>= f).outcome s = (.ok b, s') ↔
      ∃ a u, x.outcome s = (.ok a, u) ∧ (f a).outcome u = (.ok b, s') := by
  rw [outcome_bind]
  obtain ⟨_ | a, u⟩ := x.outcome s
  · simp
  · constructor
    · intro h
      exact ⟨a, u, rfl, h⟩
    · rintro ⟨a', u', h, hb⟩
      cases h
      exact hb

/-- A sequence failed if its first part did, or the rest did from there. -/
theorem outcome_bind_eq_error {f : α → Action A P β} {e : Fault A.Real} {s' : Session A P} :
    (x >>= f).outcome s = (.error e, s') ↔ x.outcome s = (.error e, s') ∨
      ∃ a u, x.outcome s = (.ok a, u) ∧ (f a).outcome u = (.error e, s') := by
  rw [outcome_bind]
  obtain ⟨_ | a, u⟩ := x.outcome s
  · simp
  · constructor
    · intro h
      exact .inr ⟨a, u, rfl, h⟩
    · rintro (h | ⟨a', u', h, he⟩)
      · cases h
      · cases h
        exact he

/-- What depends on the session has the outcome that it has for that session. -/
theorem outcome_get_bind (f : Session A P → Action A P β) (s : Session A P) :
    (get >>= f).outcome s = (f s).outcome s := rfl

/-- What follows a change of the session has the outcome that it has after it. -/
theorem outcome_modify_bind (g : Session A P → Session A P) (f : Unit → Action A P β)
    (s : Session A P) : (modify g >>= f).outcome s = (f ()).outcome (g s) := rfl

/-- What follows an attempt answers if the attempt does and the rest does with its answer. -/
theorem outcome_attempt_bind_eq_ok {x : Attempt A α} {f : α → Action A P β} {b : β}
    {s' : Session A P} : (Session.attempt x >>= f).outcome s = (.ok b, s') ↔
      ∃ a, x = .ok a ∧ (f a).outcome s = (.ok b, s') := by
  rw [outcome_bind, Session.outcome_attempt]
  cases x <;> simp

/-- What follows a change of the arrays answers if that can be made and the rest does with the new
ones. -/
theorem outcome_rework_bind_eq_ok {change : Workspace A → Attempt A (Workspace A)}
    {f : Unit → Action A P β} {b : β} {s' : Session A P} :
    (Session.rework change >>= f).outcome s = (.ok b, s') ↔
      ∃ w, change s.work = .ok w ∧ (f ()).outcome { s with work := w } = (.ok b, s') := by
  rw [outcome_bind, Session.outcome_rework]
  cases change s.work <;> simp

/-- A change of the arrays that fails leaves the session as it was. -/
theorem outcome_rework_eq_error {change : Workspace A → Attempt A (Workspace A)} {e : Fault A.Real}
    {s' : Session A P} : (Session.rework change : Action A P Unit).outcome s = (.error e, s') ↔
      change s.work = .error e ∧ s' = s := by
  rw [Session.outcome_rework]
  cases change s.work <;> simp [eq_comm]

/-- It fails if the change cannot be made, with the session as it was, or the rest fails with the
new arrays. -/
theorem outcome_rework_bind_eq_error {change : Workspace A → Attempt A (Workspace A)}
    {f : Unit → Action A P β} {e : Fault A.Real} {s' : Session A P} :
    (Session.rework change >>= f).outcome s = (.error e, s') ↔
      (change s.work = .error e ∧ s' = s) ∨
        ∃ w, change s.work = .ok w ∧ (f ()).outcome { s with work := w } = (.error e, s') := by
  rw [outcome_bind, Session.outcome_rework]
  cases change s.work <;> simp [eq_comm]

namespace Agree

/-- Agreement with weaker relations. -/
theorem mono {post' : α → Session A P → Session A P → Prop}
    {fail' : Session A P → Session A P → Prop} (h : Agree post fail x y s t)
    (hpost : ∀ a s' t', post a s' t' → post' a s' t') (hfail : ∀ s' t', fail s' t' → fail' s' t') :
    Agree post' fail' x y s t := by
  unfold Agree at h ⊢
  generalize x.outcome s = o at h ⊢
  generalize y.outcome t = o' at h ⊢
  obtain ⟨_ | a, s'⟩ := o <;> obtain ⟨_ | b, t'⟩ := o'
  · exact ⟨h.1, hfail _ _ h.2⟩
  · exact h
  · exact h
  · exact ⟨h.1, hpost _ _ _ h.2⟩

/-- The answers are the same. -/
theorem answer_eq (h : Agree post fail x y s t) : (x.outcome s).1 = (y.outcome t).1 := by
  unfold Agree at h
  generalize x.outcome s = o at h ⊢
  generalize y.outcome t = o' at h ⊢
  obtain ⟨_ | a, s'⟩ := o <;> obtain ⟨_ | b, t'⟩ := o'
  · exact congrArg Except.error h.1
  · exact h.elim
  · exact h.elim
  · exact congrArg Except.ok h.1

/-- What holds after results and after faults holds in any case. -/
theorem after {r : Session A P → Session A P → Prop} (h : Agree post fail x y s t)
    (hpost : ∀ a s' t', post a s' t' → r s' t') (hfail : ∀ s' t', fail s' t' → r s' t') :
    r (x.outcome s).2 (y.outcome t).2 := by
  unfold Agree at h
  generalize x.outcome s = o at h ⊢
  generalize y.outcome t = o' at h ⊢
  obtain ⟨_ | a, s'⟩ := o <;> obtain ⟨_ | b, t'⟩ := o'
  · exact hfail _ _ h.2
  · exact h.elim
  · exact h.elim
  · exact hpost _ _ _ h.2

/-- If one action ends with a result, so does the other. -/
theorem of_ok {a : α} {s' : Session A P} (h : Agree post fail x y s t)
    (hx : x.outcome s = (.ok a, s')) : ∃ t', y.outcome t = (.ok a, t') ∧ post a s' t' := by
  unfold Agree at h
  rw [hx] at h
  generalize y.outcome t = o' at h ⊢
  obtain ⟨_ | b, t'⟩ := o'
  · exact h.elim
  · obtain ⟨rfl, h⟩ := h
    exact ⟨t', rfl, h⟩

/-- What the first action came to is known where both went on. -/
theorem with_outcome (h : Agree post fail x y s t) :
    Agree (fun a s' t' => x.outcome s = (.ok a, s') ∧ post a s' t') fail x y s t := by
  unfold Agree at h ⊢
  generalize x.outcome s = o at h ⊢
  generalize y.outcome t = o' at h ⊢
  obtain ⟨_ | a, s'⟩ := o <;> obtain ⟨_ | b, t'⟩ := o'
  · exact h
  · exact h
  · exact h
  · exact ⟨h.1, rfl, h.2⟩

/-! ## Rules -/

/-- Actions whose outcomes are known. -/
theorem of_outcome {a : α} {s' t' : Session A P} (hx : x.outcome s = (.ok a, s'))
    (hy : y.outcome t = (.ok a, t')) (h : post a s' t') : Agree post fail x y s t := by
  unfold Agree
  rw [hx, hy]
  exact ⟨rfl, h⟩

/-- Equal answers agree. -/
theorem of_pure {a b : α} (hab : a = b) (h : post a s t) :
    Agree post fail (pure a) (pure b) s t := ⟨hab, h⟩

/-- In sequences that agree the first parts agree, and the rests agree from there. -/
theorem seq {mid : α → Session A P → Session A P → Prop}
    {post : β → Session A P → Session A P → Prop} {f g : α → Action A P β}
    (hxy : Agree mid fail x y s t)
    (hfg : ∀ a s' t', mid a s' t' → Agree post fail (f a) (g a) s' t') :
    Agree post fail (x >>= f) (y >>= g) s t := by
  unfold Agree at hxy ⊢
  rw [outcome_bind, outcome_bind]
  generalize x.outcome s = o at hxy ⊢
  generalize y.outcome t = o' at hxy ⊢
  obtain ⟨_ | a, s'⟩ := o <;> obtain ⟨_ | b, t'⟩ := o'
  · exact hxy
  · exact hxy.elim
  · exact hxy.elim
  · obtain ⟨rfl, h⟩ := hxy
    exact hfg a s' t' h

/-- Actions that begin by looking at the session. -/
theorem get_seq {f g : Session A P → Action A P α} (h : Agree post fail (f s) (g t) s t) :
    Agree post fail (get >>= f) (get >>= g) s t := h

/-- Changes of the sessions agree on what holds after them. -/
theorem of_modify {post : Unit → Session A P → Session A P → Prop} {f g : Session A P → Session A P}
    (h : post () (f s) (g t)) : Agree post fail (modify f) (modify g) s t := ⟨rfl, h⟩

/-- Actions that go on after a change of the session. -/
theorem modify_seq {f g : Session A P → Session A P} {x y : Unit → Action A P α}
    (h : Agree post fail (x ()) (y ()) (f s) (g t)) :
    Agree post fail (modify f >>= x) (modify g >>= y) s t := h

/-- Equal attempts agree. -/
theorem of_attempt {x y : Attempt A α} (hxy : x = y) (hpost : ∀ a, x = .ok a → post a s t)
    (hfail : fail s t) : Agree post fail (Session.attempt x) (Session.attempt y) s t := by
  subst hxy
  cases x with
  | error e => exact ⟨rfl, hfail⟩
  | ok a => exact ⟨rfl, hpost a rfl⟩

/-- Actions that go on with what attempts that correspond result in. -/
theorem attempt_seq {γ δ : Type} {x : Attempt A γ} {y : Attempt A δ} {r : γ → δ → Prop}
    {f : γ → Action A P α} {g : δ → Action A P α} (hxy : Attempt.Corresponds r x y)
    (hfail : fail s t)
    (hfg : ∀ c d, x = .ok c → y = .ok d → r c d → Agree post fail (f c) (g d) s t) :
    Agree post fail (Session.attempt x >>= f) (Session.attempt y >>= g) s t := by
  cases x with
  | error e =>
    cases y with
    | error e' => exact ⟨hxy, hfail⟩
    | ok d => exact hxy.elim
  | ok c =>
    cases y with
    | error e' => exact hxy.elim
    | ok d => exact hfg c d rfl rfl hxy

/-- Actions that go on with what one attempt results in. -/
theorem same_seq {γ : Type} {x : Attempt A γ} {f g : γ → Action A P α}
    (hfail : ∀ e, x = .error e → fail s t)
    (hfg : ∀ c, x = .ok c → Agree post fail (f c) (g c) s t) :
    Agree post fail (Session.attempt x >>= f) (Session.attempt x >>= g) s t := by
  cases x with
  | error e => exact ⟨rfl, hfail e rfl⟩
  | ok c => exact hfg c rfl

/-- Changes of the arrays that correspond agree on what holds with the new ones. -/
theorem of_rework {post : Unit → Session A P → Session A P → Prop}
    {f g : Workspace A → Attempt A (Workspace A)} {r : Workspace A → Workspace A → Prop}
    (h : Attempt.Corresponds r (f s.work) (g t.work))
    (hpost : ∀ w w', f s.work = .ok w → r w w' → post () { s with work := w } { t with work := w' })
    (hfail : fail s t) : Agree post fail (Session.rework f) (Session.rework g) s t :=
  .get_seq (.attempt_seq h hfail fun w w' hw _ hww => .of_modify (hpost w w' hw hww))

end Agree

end Action

end QuasiNewton
