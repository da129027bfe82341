import QuasiNewton.Proofs.Frames
import QuasiNewton.Termination.Monitor

/-!
# Convergence criteria

What a mode asks of a residual and its iterate, written out for tolerances that are numbers. The
check computes it.
-/

namespace QuasiNewton

variable {A : Arithmetic}

/-- The kind in which arrays of a kind meet a number as it was written. -/
def Arithmetic.meeting (A : Arithmetic) (k : A.Kind) : Quantity A.Real → A.Kind
  | .real _ => A.withReal k
  | .flag _ => k
  | .whole _ => A.withWhole k

namespace Tensor

/-- The magnitudes of all elements are at most a number. A whole number has to be in range. -/
def Within (q : Quantity A.Real) (v : Tensor A) : Prop :=
  let k := A.meeting (A.absolute v.kind) q
  (∀ n, q = .whole n → A.comparable (A.absolute v.kind) n = true) ∧
    ∀ i < v.size, A.elemLe k ((v.abs.castTo k).elem i) (A.ofQuantity k q) = true

/-- The elements of a tensor are at most those of another one of the same shape. -/
def AtMost (v w : Tensor A) : Prop :=
  let k := A.join v.kind w.kind
  ∀ i < v.size, A.elemLe k ((v.castTo k).elem i) ((w.castTo k).elem i) = true

/-- The comparison with a number answers that all elements are within it if they are. -/
theorem allWithin_eq_true_iff (q : Quantity A.Real) (v : Tensor A) :
    v.allWithin q = .ok true ↔ v.Within q := by
  have hall (k : A.Kind) :
      (v.abs.castTo k).all (fun y => A.elemLe k y (A.ofQuantity k q)) = true ↔
        ∀ i < v.size, A.elemLe k ((v.abs.castTo k).elem i) (A.ofQuantity k q) = true := by
    have hsize : (v.abs.castTo k).size = v.size := congrArg Shape.size (shape_castTo _ _)
    simp only [all, hsize, List.all_eq_true, List.mem_range]
  cases q with
  | real x => simpa [allWithin, Within, Arithmetic.meeting] using hall _
  | flag b => simpa [allWithin, Within, Arithmetic.meeting] using hall _
  | whole n =>
    by_cases hn : A.comparable (A.absolute v.kind) n = true
    · simpa [allWithin, Within, Arithmetic.meeting, hn] using hall _
    · simp [allWithin, Within, hn]

/-- Tensors of one shape are compared element by element. -/
theorem allLe_eq_true_iff {v w : Tensor A} (h : w.shape = v.shape) :
    v.allLe w = .ok true ↔ v.AtMost w := by
  simp only [allLe, h, Shape.broadcast?_self, Shape.source_self, AtMost, Except.ok.injEq,
    List.all_eq_true, List.mem_range]
  exact Iff.rfl

/-- A multiple has the shape of the tensor and the kind in which the tensor meets the number. -/
theorem frame_of_scaleBy {q : Quantity A.Real} {v w : Tensor A} (h : v.scaleBy q = .ok w) :
    w.frame = ⟨A.meeting v.kind q, v.shape⟩ := by
  cases q with
  | real x =>
    cases h
    rfl
  | flag b =>
    cases h
    rfl
  | whole n =>
    unfold scaleBy at h
    dsimp only at h
    split at h
    · cases h
      rfl
    · cases h

end Tensor

namespace Mode

/-- The criterion of a mode, with an absolute and a relative tolerance, of a residual and its
iterate. -/
def Criterion (mode : Mode) (norm : Norm A) (absolute relative : Quantity A.Real)
    (residual iterate : Tensor A) : Prop :=
  match mode with
  | .absolute => residual.Within absolute
  | .relative => ∃ sum bound, residual.add iterate = .ok sum ∧
    sum.abs.scaleBy relative = .ok bound ∧ residual.abs.AtMost bound
  | .absoluteNorm | .absoluteBest => ∃ x, norm residual = .ok x ∧
    absolute.admits (M := A.toMagnitudes) x = true
  | .relativeNorm | .relativeBest => ∃ sum x y factor, residual.add iterate = .ok sum ∧
    norm residual = .ok x ∧ norm sum = .ok y ∧
    relative.magnitude (M := A.toMagnitudes) = .ok factor ∧ A.le x (A.mul factor y) = true

/-- The check answers that a mode holds exactly if its criterion does. The mode that compares all
magnitudes with those of the sum takes tensors of one shape. -/
theorem holds_eq_true_iff_of_shape (mode : Mode) {norm : Norm A}
    {absolute relative : Quantity A.Real} {residual iterate : Tensor A}
    (h : mode = .relative → residual.shape = iterate.shape) :
    mode.holds norm ⟨.number absolute, .number relative⟩ residual iterate = .ok true ↔
      mode.Criterion norm absolute relative residual iterate := by
  have habsolute : (norm residual >>= fun x =>
      pure (absolute.admits (M := A.toMagnitudes) x)) = .ok true ↔
      ∃ x, norm residual = .ok x ∧ absolute.admits (M := A.toMagnitudes) x = true := by
    simp only [Attempt.bind_eq_ok, Attempt.pure_eq_ok]
  have hrelative : (norm residual >>= fun x => residual.add iterate >>= fun sum =>
      norm sum >>= fun y => relative.magnitude (M := A.toMagnitudes) >>= fun factor =>
        pure (A.le x (A.mul factor y))) = .ok true ↔
      ∃ sum x y factor, residual.add iterate = .ok sum ∧ norm residual = .ok x ∧
        norm sum = .ok y ∧ relative.magnitude (M := A.toMagnitudes) = .ok factor ∧
        A.le x (A.mul factor y) = true := by
    simp only [Attempt.bind_eq_ok, Attempt.pure_eq_ok]
    constructor
    · rintro ⟨x, hx, sum, hs, y, hy, factor, hfactor, hle⟩
      exact ⟨sum, x, y, factor, hs, hx, hy, hfactor, hle⟩
    · rintro ⟨sum, x, y, factor, hs, hx, hy, hfactor, hle⟩
      exact ⟨x, hx, sum, hs, y, hy, factor, hfactor, hle⟩
  cases mode with
  | absolute => exact Tensor.allWithin_eq_true_iff absolute residual
  | relative =>
    change (residual.add iterate >>= fun sum => sum.abs.scaleBy relative >>= fun bound =>
      residual.abs.allLe bound) = .ok true ↔ _
    simp only [Attempt.bind_eq_ok]
    obtain ⟨sum, hsum, hsame⟩ := Tensor.exists_add (h rfl)
    have hshape {bound : Tensor A} (hbound : sum.abs.scaleBy relative = .ok bound) :
        bound.shape = residual.abs.shape :=
      (Tensor.shape_of_frame (Tensor.frame_of_scaleBy hbound)).trans hsame
    constructor
    · rintro ⟨_, hs, bound, hbound, hle⟩
      obtain rfl := Except.ok.inj (hsum.symm.trans hs)
      exact ⟨sum, bound, hs, hbound, (Tensor.allLe_eq_true_iff (hshape hbound)).mp hle⟩
    · rintro ⟨_, bound, hs, hbound, hle⟩
      obtain rfl := Except.ok.inj (hsum.symm.trans hs)
      exact ⟨sum, hs, bound, hbound, (Tensor.allLe_eq_true_iff (hshape hbound)).mpr hle⟩
  | absoluteNorm => exact habsolute
  | relativeNorm => exact hrelative
  | absoluteBest => exact habsolute
  | relativeBest => exact hrelative

/-- A criterion that is checked holds if it holds of residual and iterate. -/
theorem holds_eq_true_iff (mode : Mode) {norm : Norm A} {absolute relative : Quantity A.Real}
    {residual iterate : Tensor A} (h : residual.frame = iterate.frame) :
    mode.holds norm ⟨.number absolute, .number relative⟩ residual iterate = .ok true ↔
      mode.Criterion norm absolute relative residual iterate :=
  mode.holds_eq_true_iff_of_shape fun _ => Tensor.shape_congr h

end Mode

end QuasiNewton
