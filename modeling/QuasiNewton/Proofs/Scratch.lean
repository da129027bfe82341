import QuasiNewton.Proofs.Frames
import QuasiNewton.Solver.Workspace

/-!
# Scratch arrays

A step writes five of its arrays before it reads them. Workspaces that differ in those only, and not
in their frames, are alike, and every move from workspaces that are alike leads to workspaces that
are alike again: what the arrays held before never shows. The direction counts among the five if a
row that is written to it reaches it.
-/

namespace QuasiNewton

variable {A : Arithmetic}

/-! ## Attempts that correspond -/

namespace Attempt

variable {α β : Type}

/-- Two attempts fail for the same cause, or succeed with results in a relation. -/
def Corresponds (r : α → β → Prop) : Attempt A α → Attempt A β → Prop
  | .ok a, .ok b => r a b
  | .error e, .error e' => e = e'
  | _, _ => False

/-- What follows equal attempts corresponds if it does for each result. -/
theorem Corresponds.bind {γ : Type} {r : α → β → Prop} {x y : Attempt A γ} {f : γ → Attempt A α}
    {g : γ → Attempt A β} (hxy : x = y) (h : ∀ c, x = .ok c → Corresponds r (f c) (g c)) :
    Corresponds r (x >>= f) (y >>= g) := by
  subst hxy
  cases x with
  | error e => exact rfl
  | ok c => exact h c rfl

end Attempt

/-- The buffers of an update matter through their frames alone. -/
theorem Secant.updateInPlace_congr {m d y p p' r r' : Tensor A} (hp : p.frame = p'.frame)
    (hr : r.frame = r'.frame) :
    updateInPlace m d y (some p) (some r) = updateInPlace m d y (some p') (some r') := by
  simp only [updateInPlace, Tensor.receive_congr hp, Tensor.receive_congr hr]

namespace Workspace

/-! ## Scratch arrays -/

/-- The arrays that a step writes before it reads them. -/
inductive Scratch where
  /-- The search direction. -/
  | direction
  /-- The residual at the point just reached. -/
  | trial
  /-- The change of the residual. -/
  | change
  /-- The row of a correction. -/
  | row
  /-- The product of a correction. -/
  | product
  deriving DecidableEq

/-- All scratch arrays. -/
def Scratch.all : List Scratch := [.direction, .trial, .change, .row, .product]

/-- The list of scratch arrays is complete. -/
theorem Scratch.mem_all (a : Scratch) : a ∈ all := by cases a <;> decide

/-- A scratch array of a workspace. -/
def scratch (w : Workspace A) : Scratch → Tensor A
  | .direction => w.direction
  | .trial => w.trial
  | .change => w.change
  | .row => w.row
  | .product => w.product

/-- Write a scratch array. -/
def setScratch (w : Workspace A) (a : Scratch) (t : Tensor A) : Workspace A :=
  match a with
  | .direction => { w with direction := t }
  | .trial => { w with trial := t }
  | .change => { w with change := t }
  | .row => { w with row := t }
  | .product => { w with product := t }

/-- Writing one scratch array leaves the others as they are. -/
theorem scratch_setScratch (w : Workspace A) (a b : Scratch) (t : Tensor A) :
    (w.setScratch a t).scratch b = if b = a then t else w.scratch b := by
  cases a <;> cases b <;> rfl

/-- Two workspaces are alike if they differ in scratch arrays only, which are still of the same
frames; those of a list do not differ either, nor do directions that take no row. -/
structure Alike (known : List Scratch) (w w' : Workspace A) : Prop where
  iterate : w.iterate = w'.iterate
  previous : w.previous = w'.previous
  residual : w.residual = w'.residual
  inverse : w.inverse = w'.inverse
  fillable : w.fillable = w'.fillable
  direction : w.fillable = false → w.direction = w'.direction
  frames : ∀ a, (w.scratch a).frame = (w'.scratch a).frame
  scratch : ∀ a ∈ known, w.scratch a = w'.scratch a

namespace Alike

variable {known known' : List Scratch} {w w' : Workspace A}

/-- A workspace is like itself, whichever scratch arrays are known. -/
theorem refl (known : List Scratch) (w : Workspace A) : Alike known w w :=
  ⟨rfl, rfl, rfl, rfl, rfl, fun _ => rfl, fun _ => rfl, fun _ _ => rfl⟩

/-- Workspaces that are alike in some scratch arrays are alike in fewer of them. -/
theorem mono (h : Alike known w w') (hk : known' ⊆ known) : Alike known' w w' :=
  { h with scratch := fun a ha => h.scratch a (hk ha) }

/-- Workspaces without a difference in any scratch array are equal. -/
theorem eq_of_all (h : Alike Scratch.all w w') : w = w' := by
  obtain ⟨hi, hp, hr, hj, hf, -, -, hs⟩ := h
  have hdirection : w.direction = w'.direction := hs .direction (Scratch.mem_all _)
  have htrial : w.trial = w'.trial := hs .trial (Scratch.mem_all _)
  have hchange : w.change = w'.change := hs .change (Scratch.mem_all _)
  have hrow : w.row = w'.row := hs .row (Scratch.mem_all _)
  have hproduct : w.product = w'.product := hs .product (Scratch.mem_all _)
  cases w
  cases w'
  simp_all

/-- A scratch array that is written alike is known from then on. -/
theorem setScratch (h : Alike known w w') (a : Scratch) (t : Tensor A) :
    Alike (a :: known) (w.setScratch a t) (w'.setScratch a t) := by
  have hframes (b : Scratch) :
      ((w.setScratch a t).scratch b).frame = ((w'.setScratch a t).scratch b).frame := by
    rw [scratch_setScratch, scratch_setScratch]
    split
    · rfl
    · exact h.frames b
  have hscratch : ∀ b ∈ a :: known,
      (w.setScratch a t).scratch b = (w'.setScratch a t).scratch b := by
    intro b hb
    rw [scratch_setScratch, scratch_setScratch]
    split
    case isTrue => rfl
    case isFalse hne => exact h.scratch b ((List.mem_cons.mp hb).resolve_left hne)
  cases a with
  | direction =>
    exact ⟨h.iterate, h.previous, h.residual, h.inverse, h.fillable, fun _ => rfl, hframes,
      hscratch⟩
  | _ =>
    exact ⟨h.iterate, h.previous, h.residual, h.inverse, h.fillable, h.direction, hframes,
      hscratch⟩

/-! ## Moves from workspaces that are alike -/

/-- They stay alike if both go to the same point. -/
theorem setPoint (h : Alike known w w') {i i' p p' : Tensor A} (hi : i = i') (hp : p = p') :
    Alike known { w with iterate := i, previous := p } { w' with iterate := i', previous := p' } :=
  ⟨hi, hp, h.residual, h.inverse, h.fillable, h.direction, h.frames, h.scratch⟩

/-- They stay alike if both take the same residual. -/
theorem withResidual (h : Alike known w w') {t t' : Tensor A} (ht : t = t') :
    Alike known { w with residual := t } { w' with residual := t' } :=
  ⟨h.iterate, h.previous, ht, h.inverse, h.fillable, h.direction, h.frames, h.scratch⟩

/-- They stay alike if both take the same inverse Jacobian. -/
theorem withInverse (h : Alike known w w') {t t' : Tensor A} (ht : t = t') :
    Alike known { w with inverse := t } { w' with inverse := t' } :=
  ⟨h.iterate, h.previous, h.residual, ht, h.fillable, h.direction, h.frames, h.scratch⟩

variable (e : Engine)

/-- A row that is written to both directions makes them the same. -/
theorem filled (h : Alike known w w') (row : Tensor A) : w.filled e row = w'.filled e row := by
  unfold Workspace.filled
  cases e with
  | inPlace =>
    have hshape : w.direction.shape = w'.direction.shape :=
      Tensor.shape_congr (h.frames .direction)
    cases hf : w.fillable with
    | true => simp only [← h.fillable, hf, if_true, hshape]
    | false => simp only [← h.fillable, hf, h.direction hf]
  | rebuilding => simp only [h.iterate]

/-- A search direction is computed alike, from arrays that are no scratch arrays; after that the
direction is known. -/
theorem aim (h : Alike known w w') :
    Attempt.Corresponds (Alike (.direction :: known)) (w.aim e) (w'.aim e) := by
  have hwrite (row : Tensor A) : Attempt.Corresponds (Alike (.direction :: known))
      (do return { w with direction := ← w.filled e row })
      (do return { w' with direction := ← w'.filled e row }) :=
    .bind (h.filled e row) fun d _ => h.setScratch .direction d
  cases e with
  | inPlace =>
    have hflat : w.direction.flatten.frame = w'.direction.flatten.frame := by
      rw [Tensor.frame_flatten, Tensor.frame_flatten]
      exact congrArg Frame.vector (h.frames .direction)
    refine .bind ?_ fun row _ => hwrite row
    rw [h.inverse, h.residual, Tensor.receive_congr hflat]
  | rebuilding =>
    refine .bind ?_ fun row _ => hwrite row
    rw [h.inverse, h.residual]

/-- If the direction is known, both go to the same point. -/
theorem advance (h : Alike known w w') (hd : .direction ∈ known) (length : A.Real) :
    Attempt.Corresponds (Alike known) (w.advance e length) (w'.advance e length) := by
  have hdirection : w.direction = w'.direction := h.scratch _ hd
  have hmoved : w.iterate.sub (w.direction.scale length) =
      w'.iterate.sub (w'.direction.scale length) := by
    rw [h.iterate, hdirection]
  cases e with
  | inPlace =>
    refine .bind hmoved fun moved _ => .bind ?_ fun previous _ => .bind ?_ fun iterate _ =>
      h.setPoint rfl rfl
    · rw [h.previous, h.iterate]
    · rw [h.iterate]
  | rebuilding =>
    exact .bind hmoved fun moved _ => h.setPoint rfl h.iterate

/-- If the trial residual is known, both find the same change, which is known after that. -/
theorem compare (h : Alike known w w') (ht : .trial ∈ known) :
    Attempt.Corresponds (Alike (.change :: known)) (w.compare e) (w'.compare e) := by
  have htrial : w.trial = w'.trial := h.scratch _ ht
  have hdifference : w.trial.sub w.residual = w'.trial.sub w'.residual := by
    rw [htrial, h.residual]
  cases e with
  | inPlace =>
    exact .bind hdifference fun difference _ =>
      .bind (Tensor.copyInto_congr (h.frames .change) difference) fun change _ =>
        h.setScratch .change change
  | rebuilding =>
    exact .bind hdifference fun difference _ => h.setScratch .change difference

/-- If the trial residual is known, both take it for the residual. -/
theorem commit (h : Alike known w w') (ht : .trial ∈ known) :
    Attempt.Corresponds (Alike known) (w.commit e) (w'.commit e) := by
  have htrial : w.trial = w'.trial := h.scratch _ ht
  cases e with
  | inPlace =>
    refine .bind ?_ fun residual _ => h.withResidual rfl
    rw [h.residual, htrial]
  | rebuilding => exact h.withResidual htrial

/-- A reset to the identity in place is computed alike. -/
theorem resetToIdentity (h : Alike known w w') :
    Attempt.Corresponds (Alike known)
      (do return { w with inverse := ← w.inverse.resetToIdentity })
      (do return { w' with inverse := ← w'.inverse.resetToIdentity }) :=
  .bind (by rw [h.inverse]) fun inverse _ => h.withInverse rfl

/-- So is a reset in either form. -/
theorem reset (h : Alike known w w') :
    Attempt.Corresponds (Alike known) (w.reset e) (w'.reset e) := by
  cases e with
  | inPlace => exact h.resetToIdentity
  | rebuilding =>
    have hinitial :
        Secant.initial w.iterate w.residual = Secant.initial w'.iterate w'.residual := by
      rw [h.iterate, h.residual]
    exact h.withInverse hinitial

/-- The update by the last step is the same if the direction and the change are. -/
theorem secant (h : Alike known w w') (hd : .direction ∈ known) (hc : .change ∈ known) :
    w.secant e = w'.secant e := by
  have hdirection : w.direction = w'.direction := h.scratch _ hd
  have hchange : w.change = w'.change := h.scratch _ hc
  unfold Workspace.secant
  rw [h.inverse, hdirection, hchange]
  cases e with
  | inPlace => exact Secant.updateInPlace_congr (h.frames .product) (h.frames .row)
  | rebuilding => rfl

/-- A correction makes all scratch arrays known but the trial residual. -/
theorem correct (h : Alike known w w') (hd : .direction ∈ known) (hc : .change ∈ known) :
    Attempt.Corresponds
      (fun x y => Alike (.product :: .row :: .direction :: known) x.1 y.1 ∧ x.2 = y.2)
      (w.correct e) (w'.correct e) := by
  refine .bind (h.secant e hd hc) fun u _ => .bind (h.filled e u.column) fun d _ => ⟨?_, rfl⟩
  exact (((h.withInverse rfl).setScratch .direction d).setScratch .row u.row).setScratch
    .product u.product

/-- Both are moved to a point alike. -/
theorem moveTo (h : Alike known w w') (point : Tensor A) :
    Attempt.Corresponds (Alike known) (w.moveTo e point) (w'.moveTo e point) := by
  cases e with
  | inPlace =>
    refine .bind ?_ fun iterate _ => .bind ?_ fun previous _ => h.setPoint rfl rfl
    · rw [h.iterate]
    · rw [h.previous]
  | rebuilding =>
    have hpoint : point.castTo w.iterate.kind = point.castTo w'.iterate.kind := by rw [h.iterate]
    exact h.setPoint hpoint hpoint

/-- Both take a residual of the caller alike. -/
theorem setResidual (h : Alike known w w') (t : Tensor A) :
    Attempt.Corresponds (Alike known) (w.setResidual e t) (w'.setResidual e t) := by
  cases e with
  | inPlace => exact .bind (by rw [h.residual]) fun residual _ => h.withResidual rfl
  | rebuilding => exact h.withResidual rfl

/-- Both take an inverse Jacobian of the caller alike. -/
theorem setInverse (h : Alike known w w') (t : Tensor A) :
    Attempt.Corresponds (Alike known) (w.setInverse t) (w'.setInverse t) :=
  .bind (by rw [h.inverse]) fun inverse _ => h.withInverse rfl

end Alike

end Workspace

end QuasiNewton
