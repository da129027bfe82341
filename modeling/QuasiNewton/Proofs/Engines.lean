import QuasiNewton.Proofs.Affine

/-!
# Arrays that are overwritten and arrays that are replaced

A residual function that writes is solved in arrays that are overwritten, one that returns in arrays
that are replaced. If both give the same residuals, the sessions are the same after every history,
but for the caller's starting array. Two things may set them apart: a direction that is not stored
row by row keeps its elements when it is overwritten, and a rank-one update may round otherwise than
the sum with an outer product.
-/

namespace QuasiNewton

variable {A : Arithmetic} {P : Type}

namespace Setup

/-- The same setup with a residual function that writes. -/
def writing (setup : Setup A P) (f : Nat → Tensor A → Tensor A → P → Attempt A (Tensor A)) :
    Setup A P :=
  { setup with residual := .writing f }

/-- The same setup with a residual function that returns. -/
def returning (setup : Setup A P) (g : Nat → Tensor A → P → Attempt A (Tensor A)) : Setup A P :=
  { setup with residual := .returning g }

end Setup

/-- Machine arithmetic adds outer products in the kinds that rank-one updates work in themselves:
single and double precision, real or complex. -/
theorem Machine.addsOuter_iff {k : Machine.arithmetic.Kind} :
    Machine.arithmetic.AddsOuter k ↔ Machine.arithmetic.update k = k :=
  ⟨fun h => h.update, fun h => ⟨h, fun _ _ _ _ _ _ _ => rfl⟩⟩

namespace Session

variable {F : Tensor A → P → Attempt A (Tensor A)} {setup setup' : Setup A P}

/-- Setups for the same residuals with one line search start alike. -/
theorem start_eq_start (hw : setup.Twins F setup')
    (hline : setup.options.lineSearch = setup'.options.lineSearch) {request : Request A P}
    (hrow : request.origin.isRowwise = true) : start setup request = start setup' request := by
  have hassemble (q : Quantity A.Real) (ready : Ready A) (n : Nat) :
      assemble setup request q ready n = assemble setup' request q ready n := by
    simp only [assemble, hw.norm, hw.resetTolerance, hline]
  unfold start
  simp only [Origin.ready_of_computes hw.computes hw.conforms,
    Origin.ready_of_computes hw.computes' hw.conforms, hassemble,
    Origin.fillable_of_isRowwise hrow]

/-- Sessions that are tied as closely as possible differ in the caller's array only. -/
theorem Alike.eq_of_rowwise {s t : Session A P} {f : Frame A}
    (h : Alike setup (Tie.rowwise f) s t) :
    s = { t with origin := s.origin, shared := s.shared } := by
  have hwork : s.work = t.work := h.work.eq_of_all
  have hline : t.lineSearch = s.lineSearch := h.line.trans s.lineSearch.later_zero
  have hsearches : s.searches = t.searches := h.searches.trans (Nat.zero_add _)
  have hevaluations : s.evaluations = t.evaluations := h.evaluations.trans (Nat.zero_add _)
  have htranscript : s.transcript = t.transcript := h.transcript [] rfl
  obtain ⟨hparameter, -, hcheck, hmonitor, htolerances, hbudget, hresets, hstopped, hstatus,
    hstatistics, -, -, -, -, -, -, -, -, -, -⟩ := h
  cases s
  cases t
  simp_all

/-- Whether arrays are overwritten or replaced, every history of steps, runs and restarts is
answered alike, and every field but the caller's array is the same after it, if steps are taken only
while the best iterate belongs to the arrays. The first iterate has to be stored row by row, and
rank-one updates in its kind have to add outer products. -/
theorem engines_agree (setup : Setup A P)
    {f : Nat → Tensor A → Tensor A → P → Attempt A (Tensor A)}
    {g : Nat → Tensor A → P → Attempt A (Tensor A)} (hf : ∀ n out u p, f n out u p = F u p)
    (hg : ∀ n u p, g n u p = F u p) (hF : Residual.Conforms F) (request : Request A P)
    (hrow : request.origin.isRowwise = true)
    (hA : A.AddsOuter (A.working request.origin.point.kind)) :
    start (setup.writing f) request = start (setup.returning g) request ∧
      ∀ s n, start (setup.writing f) request = (.ok s, n) →
        ∀ ops : List (Operation A P), (∀ op ∈ ops, op.IsSolving) →
          (∀ op ∈ ops, ∀ point ∈ op.point, point.kind = A.working request.origin.point.kind) →
          Fitting (setup.writing f) s ops →
          answers (setup.writing f) s ops = answers (setup.returning g) s ops ∧
            after (setup.writing f) s ops =
              { after (setup.returning g) s ops with
                origin := (after (setup.writing f) s ops).origin
                shared := (after (setup.writing f) s ops).shared } := by
  have hw : Setup.Twins F (setup.writing f) (setup.returning g) :=
    ⟨hf, hg, hF, rfl, rfl, rfl, rfl⟩
  refine ⟨start_eq_start hw rfl hrow, fun s n hs ops hops hpoint hfit => ?_⟩
  have hregular := regular_start hw.computes hF hs
  have hself := hregular.alike_rowwise (fillable_start hw.computes hF hs hrow)
  obtain ⟨hanswers, k, hk⟩ := after_agree (τ := Tie.rowwise request.origin.frame) hw hself
    (.inr ⟨rfl, hA⟩) hops hfit (.inr hpoint)
  exact ⟨hanswers, hk.eq_of_rowwise⟩

section

open QuasiNewton.Affine

/-- The affine problem answers the same in both forms, over a step, a restart, a run and a stumble.
-/
theorem engines_agree_affine :
    ∃ s n, start (problem.writing fun _ _ => residual 2) request = (.ok s, n) ∧
      Fitting (problem.writing fun _ _ => residual 2) s (detour ++ .run :: stumble) ∧
      answers (problem.writing fun _ _ => residual 2) s (detour ++ .run :: stumble) =
        answers (problem.returning fun _ => residual 2) s (detour ++ .run :: stumble) := by
  obtain ⟨s, n, hs, hfit⟩ := exists_started (problem.writing fun _ _ => residual 2) request
    (fun s => Fitting (problem.writing fun _ _ => residual 2) s (detour ++ .run :: stumble))
    (by decide +kernel)
  have hagree := engines_agree (F := residual 2) problem (fun _ _ _ _ => rfl) (fun _ _ _ => rfl)
    (conforms_residual 2) request (by decide) (Machine.addsOuter_iff.mpr rfl)
  exact ⟨s, n, hs, hfit, (hagree.2 s n hs _ (by decide) (by decide +kernel) hfit).1⟩

end

end Session

end QuasiNewton
