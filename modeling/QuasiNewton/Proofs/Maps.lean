import QuasiNewton.Proofs.Parallel
import QuasiNewton.Proofs.Readings
import QuasiNewton.Proofs.Workable

/-!
# Residual functions of vectors

A map of vectors is a residual function over exact scalars: it takes the elements of an array of any
shape in their order and answers with an array of that shape.
-/

namespace QuasiNewton

variable {𝕜 ρ : Type} [Field 𝕜] [StarRing 𝕜] [DecidableEq 𝕜] [Field ρ] [LinearOrder ρ]
  [FloorRing ρ] {S : Scalars 𝕜 ρ} {P : Type} {n : ℕ}

/-- There is one kind only, and it has negatives. -/
theorem Scalars.joinsSigned (S : Scalars 𝕜 ρ) : S.arithmetic.JoinsSigned := fun _ _ _ => rfl

/-- Every number is in range. -/
theorem Quantity.inRange_scalars (q : Quantity ρ) : q.InRange S.arithmetic where
  magnitude := by
    cases q with
    | real x => exact ⟨x, rfl⟩
    | whole n => exact ⟨(n : ρ), rfl⟩
    | flag b => exact ⟨_, rfl⟩
  whole := fun _ _ _ => ⟨rfl, rfl⟩

namespace Residual

/-- The residual function of a map of vectors. -/
def ofMap (f : (Fin n → 𝕜) → Fin n → 𝕜) (u : Tensor S.arithmetic) (_ : P) :
    Attempt S.arithmetic (Tensor S.arithmetic) :=
  .ok (.ofFn u.kind u.shape fun i => if h : i < n then f (u.vector n) ⟨i, h⟩ else (0 : 𝕜))

variable {f : (Fin n → 𝕜) → Fin n → 𝕜} {u v : Tensor S.arithmetic} {p : P}

/-- The residual function of a map answers in the frame of its argument. -/
theorem conforms_ofMap : Conforms (ofMap (S := S) (P := P) f) := by
  intro u p v h
  cases h
  exact Tensor.frame_ofFn _ _ _

/-- The residual at a vector is the value of the map there. -/
theorem vector_of_ofMap (h : ofMap f u p = .ok v) (hu : u.size = n) :
    v.vector n = f (u.vector n) := by
  obtain rfl := Except.ok.inj h
  exact funext fun i => (Tensor.elem_ofFn _ _ _ (i.isLt.trans_eq hu.symm)).trans (dif_pos i.isLt)

/-- What computes the residuals of a map answers. -/
theorem Computes.answers_ofMap {R : Residual S.arithmetic P} (h : R.Computes (ofMap f)) :
    R.Answers := by
  cases R with
  | returning g => exact fun n u p => ⟨_, h n u p, rfl, fun _ => rfl⟩
  | writing g => exact fun n a u p => ⟨_, h n a u p⟩

end Residual

end QuasiNewton
