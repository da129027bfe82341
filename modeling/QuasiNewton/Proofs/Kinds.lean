import QuasiNewton.Proofs.Stable

/-!
# Arrays of one kind

An operation on tensors says by the kinds of its operands of which kind its result is. If residuals
are of the kind of the iterate, all arrays of a session that take part in a step are of one working
kind after every history, whatever the shapes are.
-/

namespace QuasiNewton

variable {A : Arithmetic} {P : Type}

/-! ## Kinds of results -/

namespace Tensor

variable {a b c t : Tensor A}

/-- Reshaping keeps the kind. -/
theorem kind_of_reshape {shape : Shape} (h : t.reshape shape = .ok c) : c.kind = t.kind := by
  unfold reshape at h
  split at h
  · obtain rfl := Except.ok.inj h
    rfl
  · cases h

/-- The kind of an elementwise combination follows from the one that joins the two kinds. -/
theorem kind_of_combine {kind : A.Kind → A.Kind} {op : A.Kind → A.Elem → A.Elem → A.Elem}
    (h : combine kind op a b = .ok c) : c.kind = kind (A.join a.kind b.kind) := by
  unfold combine at h
  split at h
  · cases h
  · obtain rfl := Except.ok.inj h
    rfl

/-- A sum is of the kind that joins those of its terms. -/
theorem kind_of_add (h : a.add b = .ok c) : c.kind = A.join a.kind b.kind := kind_of_combine h

/-- A difference is of the kind that joins those of its terms. -/
theorem kind_of_sub (h : a.sub b = .ok c) : c.kind = A.join a.kind b.kind := by
  unfold sub at h
  split at h
  · exact kind_of_combine h
  · cases h

/-- A quotient is of the kind of quotients of the joined kind. -/
theorem kind_of_div (h : a.div b = .ok c) : c.kind = A.quotient (A.join a.kind b.kind) :=
  kind_of_combine h

/-- A negative is of the kind of the array. -/
theorem kind_of_neg (h : t.neg = .ok c) : c.kind = t.kind := by
  unfold neg at h
  split at h
  · obtain rfl := Except.ok.inj h
    rfl
  · cases h

/-- An inner product is of the kind that joins those of its factors. -/
theorem kind_of_inner (h : a.inner b = .ok c) : c.kind = A.join a.kind b.kind := by
  unfold inner at h
  split at h
  · obtain rfl := Except.ok.inj h
    rfl
  · cases h

/-- A matrix product is of the kind that joins those of its factors, whichever extents it keeps. -/
theorem kind_of_matMulKeeping {kept : Kept} (h : matMulKeeping kept a b = .ok c) :
    c.kind = A.join a.kind b.kind := by
  unfold matMulKeeping at h
  split at h
  · split at h
    · split at h
      · obtain rfl := Except.ok.inj h
        rfl
      · cases h
    · cases h
  · cases h

/-- The same holds of the product that keeps the outer extents. -/
theorem kind_of_matMul (h : a.matMul b = .ok c) : c.kind = A.join a.kind b.kind :=
  kind_of_matMulKeeping h

end Tensor

/-- An update in a working kind stays in it. -/
theorem Secant.kind_of_update {m d y : Tensor A} {u : Update A} (h : update m d y = .ok u)
    {k : A.Kind} (hk : A.IsWorking k) (hm : m.kind = k) (hd : d.kind = k) (hy : y.kind = k) :
    u.inverse.kind = k ∧ u.column.kind = k := by
  obtain ⟨step, hstep, h⟩ := Attempt.bind_eq_ok.mp h
  obtain ⟨product, hproduct, h⟩ := Attempt.bind_eq_ok.mp h
  obtain ⟨row, hrow, h⟩ := Attempt.bind_eq_ok.mp h
  obtain ⟨⟨denom, guarded⟩, hdenom, h⟩ := Attempt.bind_eq_ok.mp h
  obtain ⟨gap, hgap, h⟩ := Attempt.bind_eq_ok.mp h
  obtain ⟨column, hcolumn, h⟩ := Attempt.bind_eq_ok.mp h
  obtain ⟨inverse, hinverse, h⟩ := Attempt.bind_eq_ok.mp h
  obtain rfl := Attempt.pure_eq_ok.mp h
  have hstepk : step.kind = k := (Tensor.kind_of_neg hstep).trans hd
  have hproductk : product.kind = k := by
    rw [Tensor.kind_of_matMul hproduct, hm, hy, A.join_self]
  have hrowk : row.kind = k := by
    rw [Tensor.kind_of_matMul hrow, show step.conj.kind = step.kind from rfl, hstepk, hm,
      A.join_self]
  have hdenomk : denom.kind = k := by
    obtain ⟨raw, hraw, hdenom⟩ := Attempt.bind_eq_ok.mp hdenom
    split at hdenom
    · cases hdenom
      exact hm
    · cases hdenom
      rw [Tensor.kind_of_inner hraw, hstepk, hproductk, A.join_self]
  have hcolumnk : column.kind = k := by
    rw [Tensor.kind_of_div hcolumn, Tensor.kind_of_sub hgap, hstepk, hproductk, hdenomk,
      A.join_self, A.join_self, hk.quotient]
  refine ⟨?_, hcolumnk⟩
  have houter : (column.outer row).kind = A.join column.kind row.kind := rfl
  rw [Tensor.kind_of_add hinverse, houter, hm, hcolumnk, hrowk, A.join_self, A.join_self]

/-- A residual of the kind of the iterate is so wherever it is stored. -/
theorem Residual.kind_of_evaluate {R : Residual A P} {F : Tensor A → P → Attempt A (Tensor A)}
    (hR : R.Computes F) (hF : Conforms F) {n : Nat} {a u v : Tensor A} {p : P}
    (ha : a.kind = u.kind) (h : (R.evaluate n a u p).1 = .ok v) : v.kind = u.kind := by
  cases hw : R.writes with
  | true => exact (Tensor.kind_congr (frame_evaluate hw h)).trans ha
  | false =>
    rw [hR.evaluate_of_returns hw] at h
    exact Tensor.kind_congr (hF _ _ _ h)

/-! ## Workspaces -/

namespace Workspace

/-- All arrays that take part in a step are of one working kind. -/
structure OfKind (k : A.Kind) (w : Workspace A) : Prop where
  working : A.IsWorking k
  iterate : w.iterate.kind = k
  direction : w.direction.kind = k
  residual : w.residual.kind = k
  trial : w.trial.kind = k
  change : w.change.kind = k
  inverse : w.inverse.kind = k

/-- A step stays in the kind of the arrays. -/
theorem OfKind.advance {k : A.Kind} {w : Workspace A} (h : w.OfKind k) {u : Tensor A}
    {length : A.Real} (hu : w.iterate.sub (w.direction.scale length) = .ok u) : u.kind = k := by
  have hscale : (w.direction.scale length).kind = A.withReal w.direction.kind := rfl
  rw [Tensor.kind_of_sub hu, hscale, h.iterate, h.direction, h.working.withReal, A.join_self]

/-- A search direction is of the kind of the arrays it is computed from. -/
theorem OfKind.aim {k : A.Kind} {w : Workspace A} (h : w.OfKind k) {v d : Tensor A} {shape : Shape}
    (hv : w.inverse.matMul w.residual.flatten = .ok v) (hd : v.reshape shape = .ok d) :
    d.kind = k := by
  rw [Tensor.kind_of_reshape hd, Tensor.kind_of_matMul hv, Tensor.kind_flatten, h.inverse,
    h.residual, A.join_self]

variable {F : Tensor A → P → Attempt A (Tensor A)} {setup : Setup A P}

/-- New arrays are of one kind. -/
theorem ofKind_allocate (hR : setup.residual.Computes F) (hF : Residual.Conforms F)
    {origin : Origin A} {p : P} {n : Nat} {ready : Ready A}
    (h : (origin.ready setup.residual p n).1 = .ok ready) :
    ∃ k, (allocate ready.fillable ready.iterate ready.residual).OfKind k := by
  obtain ⟨u, v, -, hu, hv, -, rfl⟩ := Origin.ready_eq_ok h
  have hkind : v.kind = u.kind := Residual.kind_of_evaluate (a := u.zerosLike) hR hF rfl hv
  have hjoin : A.join u.kind v.kind = u.kind := by rw [hkind, A.join_self]
  rw [hjoin]
  have hi : (u.castTo u.kind).kind = u.kind := Tensor.kind_castTo _ _
  have hr : (v.castTo u.kind).kind = u.kind := Tensor.kind_castTo _ _
  have hinverse : (Secant.initial (u.castTo u.kind) (v.castTo u.kind)).kind = u.kind := by
    change A.join (u.castTo u.kind).kind (v.castTo u.kind).kind = u.kind
    rw [hi, hr, A.join_self]
  have hworking : A.IsWorking u.kind := by
    rw [hu, Tensor.kind_castTo]
    exact .working _
  exact ⟨u.kind, ⟨hworking, hi, hi, hr, hr, hr, hinverse⟩⟩

/-- With residuals of the kind of the iterate the arrays stay of one kind. -/
theorem preserved_ofKind (hR : setup.residual.Computes F) (hF : Residual.Conforms F) :
    Preserved setup fun w => ∃ k, w.OfKind k where
  allocate := ofKind_allocate hR hF
  aim := by
    rintro w v d ⟨k, h⟩ hv hd
    exact ⟨k, { h with direction := h.aim hv hd }⟩
  advance := by
    rintro w u length ⟨k, h⟩ hu
    exact ⟨k, { h with iterate := h.advance hu }⟩
  trial := by
    rintro w v n p ⟨k, h⟩ hv
    have hkind := Residual.kind_of_evaluate hR hF (h.trial.trans h.iterate.symm) hv
    exact ⟨k, { h with trial := hkind.trans h.iterate }⟩
  compare := by
    rintro w y ⟨k, h⟩ hy
    have hkind : y.kind = k := by rw [Tensor.kind_of_sub hy, h.trial, h.residual, A.join_self]
    exact ⟨k, { h with change := hkind }⟩
  commit := by
    rintro w ⟨k, h⟩
    exact ⟨k, { h with residual := h.trial }⟩
  reset := by
    rintro w ⟨k, h⟩
    have hkind : (Secant.initial w.iterate w.residual).kind = k := by
      change A.join w.iterate.kind w.residual.kind = k
      rw [h.iterate, h.residual, A.join_self]
    exact ⟨k, { h with inverse := hkind }⟩
  correct := by
    rintro w u inverse d ⟨k, h⟩ hu hleft hd
    obtain ⟨hinverse, hcolumn⟩ :=
      Secant.kind_of_update hu h.working h.inverse h.direction h.change
    have hdirection : d.kind = k := by
      rcases hd with hd | rfl
      · exact (Tensor.kind_of_reshape hd).trans hcolumn
      · exact h.direction
    exact ⟨k, { h with
      inverse := (Tensor.kind_congr hleft.frame).trans hinverse
      direction := hdirection }⟩
  moveTo := by
    rintro w u ⟨k, h⟩ hu
    exact ⟨k, { h with iterate := hu.trans h.iterate }⟩
  residual := by
    rintro w v n p ⟨k, h⟩ hv
    have hkind := Residual.kind_of_evaluate hR hF (h.residual.trans h.iterate.symm) hv
    exact ⟨k, { h with residual := hkind.trans h.iterate }⟩
  identity := by
    rintro w m ⟨k, h⟩ hm
    have hkind : m.kind = w.inverse.kind :=
      Tensor.kind_congr (Tensor.frame_of_resetToIdentity hm)
    exact ⟨k, { h with inverse := hkind.trans h.inverse }⟩

end Workspace

end QuasiNewton
