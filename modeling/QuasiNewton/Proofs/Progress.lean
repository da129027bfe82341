import QuasiNewton.Proofs.Workable

/-!
# Sessions that answer

A session is workable if its arrays are and the best iterate belongs to them. Its steps answer and
leave it workable, and so do restarts that answer.
-/

namespace QuasiNewton

open QuasiNewton.Action

variable {A : Arithmetic} {P : Type} {α β : Type}

namespace Action

/-- From a session the action answers. -/
def Answers (x : Action A P α) (s : Session A P) : Prop := ∃ a s', x.outcome s = (.ok a, s')

namespace Answers

variable {s s' : Session A P} {x : Action A P α} {f : α → Action A P β}

/-- An answer that is known is given. -/
theorem of_pure (a : α) (s : Session A P) : (pure a : Action A P α).Answers s := ⟨a, s, rfl⟩

/-- Two actions in a row answer if the first does and the second does after it. -/
theorem bind {a : α} (hx : x.outcome s = (.ok a, s')) (hf : (f a).Answers s') :
    (x >>= f).Answers s := by
  obtain ⟨b, s'', h⟩ := hf
  exact ⟨b, s'', outcome_bind_eq_ok.mpr ⟨a, s', hx, h⟩⟩

/-- What follows an attempt that answers has to answer. -/
theorem attempt_bind {y : Attempt A α} {a : α} (hy : y = .ok a) (hf : (f a).Answers s) :
    (Session.attempt y >>= f).Answers s := by
  subst hy
  exact hf

/-- What follows a change of the arrays that can be made has to answer, with the new arrays. -/
theorem rework_bind {g : Workspace A → Attempt A (Workspace A)} {w : Workspace A}
    {f : Unit → Action A P β} (hw : g s.work = .ok w) (hf : (f ()).Answers { s with work := w }) :
    (Session.rework g >>= f).Answers s := by
  obtain ⟨b, s'', h⟩ := hf
  exact ⟨b, s'', outcome_rework_bind_eq_ok.mpr ⟨w, hw, h⟩⟩

end Answers

end Action

/-- What the caller supplies answers: the residual function, the norm of tensors that are not empty,
and the verbosity is a number. -/
structure Setup.Answers (setup : Setup A P) : Prop where
  residual : setup.residual.Answers
  norm : ∀ t, t.size ≠ 0 → ∃ x, setup.norm t = .ok x
  verbosity : ∃ q, setup.verbosity = .number q

namespace Affine

/-- The affine residual function answers everywhere, in the shape of the iterate. -/
theorem answers_residual (slope : Int) :
    Residual.Answers (.returning fun _ => residual (A := A) slope) :=
  fun _ _ _ => ⟨_, rfl, rfl, fun h => h⟩

/-- So does all that the affine setup supplies. -/
theorem answers_setup (slope : Int) : (setup A slope).Answers where
  residual := answers_residual slope
  norm := fun _ _ => ⟨_, rfl⟩
  verbosity := ⟨_, rfl⟩

end Affine

namespace Session

/-- The line search answers, and the numbers that a session works with are in range. -/
structure Settings.InRange (c : Settings A P) : Prop where
  lineSearch : ∀ n u d, ∃ x, (c.lineSearch.length n u d).1 = .ok x
  resetCheck : Quantity.InRange A c.resetCheck.tolerance
  threshold : Setting.InRange A c.condition.threshold
  monitored : c.monitored.InRange
  tolerances : c.tolerances.InRange

/-- Does a session go full steps, and are its other numbers reals? -/
def Settings.isPlain (c : Settings A P) : Bool :=
  match c.lineSearch, c.resetCheck.tolerance, c.condition.threshold, c.monitored, c.tolerances with
  | .fullStep, .real _, .number (.real _), ⟨.number (.real _), .number (.real _)⟩,
    ⟨.number (.real _), .number (.real _)⟩ => true
  | _, _, _, _, _ => false

/-- Reals are in range. -/
theorem Settings.inRange_of_isPlain {c : Settings A P} (h : c.isPlain = true) : c.InRange := by
  have hreal (x : A.Real) : Quantity.InRange A (.real x) := ⟨⟨x, rfl⟩, nofun⟩
  have hnumber (x : A.Real) : Setting.InRange A (.number (.real x)) := ⟨_, rfl, hreal x⟩
  unfold isPlain at h
  split at h
  case h_1 hline htolerance hthreshold hmonitored htolerances =>
    exact
      { lineSearch := fun n u d => ⟨_, congrArg (fun r => (r.length n u d).1) hline⟩
        resetCheck := htolerance ▸ hreal _
        threshold := hthreshold ▸ hnumber _
        monitored := hmonitored ▸ ⟨hnumber _, hnumber _⟩
        tolerances := htolerances ▸ ⟨hnumber _, hnumber _⟩ }
  case h_2 => cases h

/-- The arrays are workable, and a session that has ended says why. -/
structure Equipped (setup : Setup A P) (s : Session A P) : Prop where
  arrays : s.work.Workable setup.engine
  steps : 0 ≤ s.statistics.steps
  verdict : s.stopped = true → s.status ≠ .running

/-- The best iterate of the monitor can take the place of the iterate. -/
structure Restorable (setup : Setup A P) (s : Session A P) : Prop where
  best : s.monitor.bestIterate.shape = s.work.iterate.shape
  best_frame : setup.engine = .inPlace → s.monitor.bestIterate.frame = s.work.iterate.frame

/-- Both hold together wherever every operation has answered. -/
structure Workable (setup : Setup A P) (s : Session A P) : Prop extends
  Equipped setup s, Restorable setup s

variable {setup : Setup A P} {s s' : Session A P}

/-! ## Reports -/

/-- Whether lines are wanted is answered if the verbosity is a number. -/
theorem outcome_speaks {q : Quantity A.Real} (h : setup.verbosity = .number q) (level : Int)
    (s : Session A P) :
    (speaks setup level).outcome s = (.ok (q.reaches (M := A.toMagnitudes) level), s) := by
  rw [speaks, h]
  rfl

/-- Events are logged if the verbosity is a number. -/
theorem answers_log (hverbosity : ∃ q, setup.verbosity = .number q) (what : Event A.Real)
    (s : Session A P) : (log setup what).Answers s := by
  obtain ⟨q, hq⟩ := hverbosity
  refine .bind (outcome_speaks hq 2 s) ?_
  split
  · exact ⟨_, _, rfl⟩
  · exact .of_pure () s

/-- A session with tolerances that can be reported is announced. -/
theorem answers_announce_of_reportable {q a b : Quantity A.Real}
    (hverbosity : setup.verbosity = .number q) (ha : reportable s.tolerances.absolute = .ok a)
    (hb : reportable s.tolerances.relative = .ok b) : (announce setup).Answers s := by
  refine .bind (outcome_speaks hverbosity 1 s) ?_
  split
  · exact .bind (outcome_get s) (.attempt_bind ha (.attempt_bind hb ⟨(), _, rfl⟩))
  · exact .of_pure () s

/-- The progress is reported if the residual has a norm where the line about it is due. -/
theorem answers_progress_of_norm {q : Quantity A.Real} (hverbosity : setup.verbosity = .number q)
    (hnorm : q.reaches (M := A.toMagnitudes) 1 = true → s.statistics.steps % 10 = 0 →
      ∃ x, setup.norm s.work.residual = .ok x) : (progress setup).Answers s := by
  refine .bind (outcome_speaks hverbosity 1 s) ?_
  split
  case isTrue hwanted =>
    change Action.Answers (if _ then _ else _) s
    split
    case isTrue hdue =>
      obtain ⟨x, hx⟩ := hnorm hwanted hdue
      exact .attempt_bind hx ⟨(), _, rfl⟩
    case isFalse => exact .of_pure () s
  case isFalse => exact .of_pure () s

/-- The end is reported if the residual has a norm. -/
theorem answers_close_of_norm {q : Quantity A.Real} (hverbosity : setup.verbosity = .number q)
    (hnorm : ∃ x, setup.norm s.work.residual = .ok x) : (close setup).Answers s := by
  obtain ⟨x, hx⟩ := hnorm
  refine .bind (outcome_get s) (.attempt_bind hx (.bind (outcome_speaks hverbosity 0 s) ?_))
  split
  · exact ⟨_, _, rfl⟩
  · exact ⟨_, _, rfl⟩

/-! ## The first half of a step -/

/-- What follows an evaluation that answers has to answer, with one call more. -/
theorem answers_evaluate_bind {array v : Tensor A}
    (hv : (setup.residual.evaluate s.evaluations array s.work.iterate s.parameter).1 = .ok v)
    {f : Tensor A → Action A P β} (hf : (f v).Answers { s with evaluations := s.evaluations + 1 }) :
    (evaluate setup array >>= f).Answers s := by
  refine .bind ?_ hf
  rw [outcome_evaluate, hv, Residual.evaluate_snd]

/-- What follows the settlement of the caller's array has to answer, whatever becomes of that. -/
theorem answers_settleOrigin_bind {f : Unit → Action A P β}
    (hf : ∀ origin shared, (f ()).Answers { s with origin, shared }) :
    (settleOrigin setup >>= f).Answers s := by
  obtain ⟨origin, shared, h⟩ := outcome_settleOrigin setup s
  exact .bind h (hf origin shared)

/-- A probe of workable arrays answers. -/
theorem answers_probe (hA : A.JoinsSigned) (hR : setup.residual.AnswersLike s.work.iterate)
    (hs : s.work.Workable setup.engine)
    (hline : ∀ n u d, ∃ x, (s.lineSearch.length n u d).1 = .ok x) : (probe setup).Answers s := by
  obtain ⟨d, hw, hworkable, hdirection⟩ := hs.exists_aim hA
  refine .rework_bind hw ?_
  obtain ⟨length, hlength⟩ := hline s.searches s.work.iterate d
  have hsearch : (stepLength : Action A P A.Real).outcome
        { s with work := { s.work with direction := d } } =
      (.ok length, { s with
        work := { s.work with direction := d }
        searches := (s.lineSearch.length s.searches s.work.iterate d).2 }) := by
    rw [outcome_stepLength]
    exact congrArg (fun x => (x, _)) hlength
  refine .bind hsearch ?_
  obtain ⟨u, hw', hshape⟩ := hworkable.exists_advance hA hdirection length
  have hordered := hworkable.ordered.move (Workspace.uniform_advance length) hw'
  have hframes (hwrites : setup.residual.writes = true) :
      s.work.trial.frame = u.frame ∧ u.frame = s.work.iterate.frame := by
    obtain ⟨f, hf⟩ := hordered (Setup.inPlace_of_writes hwrites)
    exact ⟨hf.trial.trans hf.iterate.symm, hf.iterate.trans hf.previous.symm⟩
  obtain ⟨v, hv⟩ := (hR.congr hshape fun hwrites => (hframes hwrites).2).exists_evaluate
    (fun hwrites => (hframes hwrites).1) s.evaluations s.parameter
  refine .rework_bind hw' (answers_settleOrigin_bind fun origin shared => ?_)
  exact answers_evaluate_bind hv ⟨(), _, rfl⟩

/-- Arrays that are overwritten stay in the frame of the iterate. -/
theorem Probe.Valid.frame_eq {x : Probe A} (hx : x.Valid setup s) (he : setup.engine = .inPlace) :
    x.iterate.frame = s.work.iterate.frame := by
  obtain ⟨f, hf⟩ := hx.ordered he
  exact hf.iterate.trans hf.previous.symm

/-- A probe of workable arrays goes to a point that fits them. -/
theorem Probe.Valid.underway {x : Probe A} (hx : x.Valid setup s) (hA : A.JoinsSigned)
    (hR : setup.residual.AnswersLike s.work.iterate) (hs : s.work.Workable setup.engine) :
    (s.probed x).work.Underway setup.engine ∧ x.iterate.shape = s.work.iterate.shape := by
  obtain ⟨v, d, hv, hd, hdirection⟩ := hx.aim
  obtain ⟨v', d', hv', hd', hdshape', hdsigned'⟩ := hs.exists_direction hA
  obtain rfl := Except.ok.inj (hv'.symm.trans hv)
  obtain rfl := Except.ok.inj (hd'.symm.trans hd)
  obtain ⟨hdshape, hdsigned⟩ := hs.turned hdshape' hdsigned'
  rw [← hdirection] at hdshape hdsigned
  obtain ⟨u, hu, hushape, husigned⟩ := hs.exists_point hA hdshape x.length
  obtain rfl := Except.ok.inj (hu.symm.trans hx.advance)
  have hframe (hw : setup.residual.writes = true) : x.iterate.frame = s.work.iterate.frame :=
    hx.frame_eq (Setup.inPlace_of_writes hw)
  obtain ⟨hshape, hsigned⟩ := (hR.congr hushape hframe).of_evaluate husigned (fun hw => by
    obtain ⟨f, hf⟩ := hs.ordered (Setup.inPlace_of_writes hw)
    exact (hf.trial.trans hf.iterate.symm).trans (hframe hw).symm) hx.residual
  have hsize : x.iterate.size = s.work.iterate.size := congrArg Shape.size hushape
  exact ⟨
    { ordered := hx.ordered
      nonempty := fun h => hs.nonempty (hsize.symm.trans h)
      residual := hs.residual.trans hushape.symm
      inverse := hs.inverse.trans (congrArg (fun n => [n, n]) hsize.symm)
      signed := husigned
      signed_inverse := hs.signed_inverse
      direction := hdshape.trans hushape.symm
      signed_direction := hdsigned
      trial := hshape
      signed_trial := hsigned }, hushape⟩

/-! ## The second half of a step -/

/-- A session moves to a point that fits its arrays where the residual function answers in their
shape. -/
theorem answers_moveTo (hR : setup.residual.AnswersLike s.work.iterate) (hs : s.Ordered setup)
    {point : Tensor A} (hpoint : point.shape = s.work.iterate.shape) {w : Workspace A}
    (hw : s.work.moveTo setup.engine point = .ok w) : (moveTo setup point).Answers s := by
  obtain ⟨u, hu, rfl⟩ := Workspace.Ordered.of_moveTo hs hw
  have hframe := hu.frame_eq hpoint
  obtain ⟨v, hv⟩ := (hR.congr (Tensor.shape_congr hframe) fun _ => hframe).exists_evaluate
    (a := s.work.residual) (fun hwrites => by
      obtain ⟨f, hf⟩ := hs (Setup.inPlace_of_writes hwrites)
      exact (hf.residual.trans hf.iterate.symm).trans hframe.symm) s.evaluations s.parameter
  refine .rework_bind hw (answers_settleOrigin_bind fun origin shared => ?_)
  exact answers_evaluate_bind hv ⟨(), _, rfl⟩

/-- So it can be concluded, with a return to a best iterate that fits its arrays. -/
theorem answers_conclude (hR : setup.residual.AnswersLike s.work.iterate)
    (hverbosity : ∃ q, setup.verbosity = .number q) (hs : s.Ordered setup)
    (hshape : s.monitor.bestIterate.shape = s.work.iterate.shape)
    (hbest : setup.engine = .inPlace → s.monitor.bestIterate.frame = s.work.iterate.frame) :
    (conclude setup).Answers s := by
  have hcommit := Workspace.Ordered.commit hs
  have hordered := (Workspace.stable_ordered setup).commit hs hcommit
  refine .bind (outcome_modify _ s) (.rework_bind hcommit ?_)
  change Action.Answers (if s.monitor.status.fallsBack then restoreBest setup else pure ()) _
  split
  · obtain ⟨w, hw⟩ := hordered.exists_moveTo hbest
    obtain ⟨_, s', hmove⟩ := answers_moveTo (s := { s with
      status := s.monitor.status
      stopped := true
      work := { s.work with residual := s.work.trial } }) hR hordered hshape hw
    exact .bind (outcome_get _) (.bind hmove (.bind (outcome_count _ s')
      (.bind (outcome_get _) (answers_log hverbosity _ _))))
  · exact .of_pure () _

/-- A session in order can be reset, or stopped instead. -/
theorem answers_resetOrStop (hverbosity : ∃ q, setup.verbosity = .number q)
    (hs : s.Ordered setup) : (resetOrStop setup).Answers s := by
  change Action.Answers (if _ then _ else _) s
  split
  · exact .bind (outcome_modify _ s) (answers_log hverbosity _ _)
  · exact .rework_bind (Workspace.Ordered.reset hs)
      (.bind (outcome_modify _ _) (.bind (outcome_get _) (answers_log hverbosity _ _)))

/-- Arrays that have been changed within their shape can be corrected. -/
theorem answers_correct (hA : A.JoinsSigned) (hverbosity : ∃ q, setup.verbosity = .number q)
    (hs : s.work.Underway setup.engine) (hchange : s.work.change.shape = s.work.iterate.shape) :
    (correct setup).Answers s := by
  obtain ⟨⟨w, guarded⟩, hcorrect⟩ := hs.exists_correct hA hchange
  change Action.Answers (attempt (s.work.correct setup.engine) >>= _) s
  refine .attempt_bind hcorrect (.bind (outcome_modify _ s) ?_)
  split
  · exact .bind (outcome_count _ _) (answers_log hverbosity _ _)
  · exact .of_pure () _

/-- So the second half of a step that goes on answers. -/
theorem answers_refine (hA : A.JoinsSigned) (hverbosity : ∃ q, setup.verbosity = .number q)
    (hs : s.work.Underway setup.engine) (hcheck : Quantity.InRange A s.resetCheck.tolerance) :
    (refine setup).Answers s := by
  obtain ⟨w, hw, hunderway, hchange⟩ := hs.exists_compare hA
  refine .rework_bind hw (.rework_bind hunderway.ordered.commit ?_)
  obtain ⟨small, hsmall⟩ :
      ∃ small, s.resetCheck.anyNegligible w.direction w.change = .ok small := by
    obtain ⟨b, hb⟩ := Tensor.exists_allWithin (t := w.direction) (hcheck.inRangeAt _)
    rw [ResetCheck.anyNegligible, ResetCheck.negligible, hb]
    cases b with
    | true => exact ⟨true, rfl⟩
    | false => exact Tensor.exists_allWithin (t := w.change) (hcheck.inRangeAt _)
  change Action.Answers (attempt (s.resetCheck.anyNegligible w.direction w.change) >>= _) _
  refine .attempt_bind hsmall ?_
  split
  · exact answers_resetOrStop hverbosity hunderway.commit.ordered
  · exact answers_correct hA hverbosity hunderway.commit hchange

/-! ## Whole steps -/

/-- After a check the best iterate still belongs to the iterate. -/
theorem Workable.best_check (hs : s.Workable setup) {x : Probe A} (hx : x.Valid setup s)
    (hshape : x.iterate.shape = s.work.iterate.shape) :
    (s.monitor.check setup.norm x.residual x.iterate).2.bestIterate.shape = x.iterate.shape ∧
      (setup.engine = .inPlace →
        (s.monitor.check setup.norm x.residual x.iterate).2.bestIterate.frame =
          x.iterate.frame) := by
  rcases s.monitor.bestIterate_check setup.norm x.residual x.iterate with hbest | hbest
  · rw [hbest]
    exact ⟨hs.best.trans hshape.symm, fun he => (hs.best_frame he).trans (hx.frame_eq he).symm⟩
  · rw [hbest]
    exact ⟨rfl, fun _ => rfl⟩

/-- A step of a workable session answers if the residual function does at iterates that can take
the place of the current one, and the line search and the monitor do. -/
theorem answers_advance_of_check (hA : A.JoinsSigned)
    (hR : setup.residual.AnswersLike s.work.iterate)
    (hverbosity : ∃ q, setup.verbosity = .number q) (hs : s.Workable setup)
    (hline : ∀ n u d, ∃ x, (s.lineSearch.length n u d).1 = .ok x)
    (hreset : Quantity.InRange A s.resetCheck.tolerance)
    (hcheck : ∀ x : Probe A, x.Valid setup s → x.residual.shape = x.iterate.shape →
      x.iterate.size ≠ 0 → ∃ stop, (s.monitor.check setup.norm x.residual x.iterate).1 = .ok stop) :
    (advance setup).Answers s := by
  obtain ⟨_, s₁, hprobe⟩ := answers_probe (s := { s with
    statistics := s.statistics.bump .steps 1 }) hA hR hs.arrays hline
  obtain ⟨x, hx, rfl⟩ := of_probe hs.arrays.ordered hprobe
  obtain ⟨hunderway, hshape⟩ := hx.underway hA hR hs.arrays
  obtain ⟨hbest, hbestframe⟩ := hs.best_check hx hshape
  obtain ⟨stop, hstop⟩ := hcheck x hx hunderway.trial hunderway.nonempty
  have hconsult : (consult setup).outcome (s.probed x) = (.ok stop, { s.probed x with
      monitor := (s.monitor.check setup.norm x.residual x.iterate).2 }) :=
    (outcome_consult setup _).trans (Prod.ext hstop rfl)
  unfold advance
  rw [← bind_assoc]
  refine .bind hx.made (.bind hconsult ?_)
  split
  · exact answers_conclude (hR.congr hshape fun hw => hx.frame_eq (Setup.inPlace_of_writes hw))
      hverbosity hunderway.ordered hbest hbestframe
  · exact answers_refine hA hverbosity hunderway hreset

/-- A step of a workable session with numbers in range answers. -/
theorem answers_advance (hA : A.JoinsSigned) (hsetup : setup.Answers) (hs : s.Workable setup)
    (hc : s.settings.InRange) : (advance setup).Answers s :=
  answers_advance_of_check hA (hsetup.residual.like _) hsetup.verbosity hs hc.lineSearch
    hc.resetCheck fun _ _ hshape hsize =>
      Monitor.exists_check (m := s.monitor) hsetup.norm hc.monitored hc.threshold hshape hsize

/-- What ends a session leaves it workable. -/
theorem Workable.of_concluded (hs : s.Workable setup) (hA : A.JoinsSigned)
    (hR : setup.residual.AnswersLike s.work.iterate) {x : Probe A} (hx : x.Valid setup s)
    {stop : Bool} {m : Monitor A}
    (hm : s.monitor.check setup.norm x.residual x.iterate = (.ok stop, m))
    (hstatus : m.status ≠ .running) (hend : Concluded setup { s.probed x with monitor := m } s') :
    s'.Workable setup := by
  obtain ⟨hunderway, hshape⟩ := hx.underway hA hR hs.arrays
  obtain ⟨hbest, hbestframe⟩ := hs.best_check hx hshape
  rw [hm] at hbest hbestframe
  have hsteps : 0 ≤ s.statistics.steps + 1 := Int.le_add_one hs.steps
  cases hend with
  | stayed =>
    exact
      { arrays := hunderway.commit.toWorkable
        best := hbest
        best_frame := hbestframe
        steps := hsteps
        verdict := fun _ => hstatus }
  | @restored u v _ _ _ _ hu hv =>
    have hframe : u.frame = x.iterate.frame := hu.frame_eq hbest
    exact
      { arrays := hunderway.commit.toWorkable.land (hR.congr hshape fun hw =>
          hx.frame_eq (Setup.inPlace_of_writes hw)) hframe hv
        best := hbest.trans (Tensor.shape_congr hframe).symm
        best_frame := fun he => (hbestframe he).trans hframe.symm
        steps := hsteps
        verdict := fun _ => hstatus }

/-- So does what resets or corrects the inverse Jacobian, or gives up. -/
theorem Workable.of_refined (hs : s.Workable setup) (hA : A.JoinsSigned)
    (hR : setup.residual.AnswersLike s.work.iterate) {x : Probe A} (hx : x.Valid setup s)
    {stop : Bool} {m : Monitor A}
    (hm : s.monitor.check setup.norm x.residual x.iterate = (.ok stop, m))
    (hordered : s'.work.Ordered setup.engine)
    (hrest : Refined setup { s.probed x with monitor := m } s') : s'.Workable setup := by
  obtain ⟨hunderway, hshape⟩ := hx.underway hA hR hs.arrays
  obtain ⟨hbest, hbestframe⟩ := hs.best_check hx hshape
  rw [hm] at hbest hbestframe
  have hworkable := hunderway.commit.toWorkable
  have hsteps : 0 ≤ s.statistics.steps + 1 := Int.le_add_one hs.steps
  cases hrest with
  | exhausted =>
    exact
      { arrays := { hworkable with ordered := hordered }
        best := hbest
        best_frame := hbestframe
        steps := hsteps
        verdict := nofun }
  | reset =>
    exact
      { arrays :=
          { hworkable with
            ordered := hordered
            inverse := rfl
            signed_inverse := hA _ _ hunderway.signed }
        best := hbest
        best_frame := hbestframe
        steps := hsteps
        verdict := hs.verdict }
  | @corrected y d inverse u _ hy hsmall hu hleft hd =>
    obtain ⟨y', hy', hyshape⟩ := hunderway.exists_change hA
    obtain rfl := Except.ok.inj (hy'.symm.trans hy)
    obtain ⟨u', -, hu', -, hinverse, hsigned⟩ := hunderway.exists_update hA hyshape
    obtain rfl := Except.ok.inj (hu'.symm.trans hu)
    have hleftshape : inverse.shape = u'.inverse.shape := Tensor.shape_congr hleft.frame
    have hcount : (if u'.guarded = true then (s.probed x).statistics.bump .guards 1
        else (s.probed x).statistics).steps = s.statistics.steps + 1 := by
      split <;> rfl
    exact
      { arrays :=
          { hworkable with
            ordered := hordered
            inverse := hleftshape.trans (hinverse.trans hunderway.inverse)
            signed_inverse := (Tensor.kind_congr hleft.frame).symm ▸ hsigned }
        best := hbest
        best_frame := hbestframe
        steps := Int.le_trans hsteps (Int.le_of_eq hcount.symm)
        verdict := hs.verdict }

/-- A step that answers leaves a session workable. -/
theorem Workable.of_advance (hs : s.Workable setup) (hA : A.JoinsSigned)
    (hR : setup.residual.AnswersLike s.work.iterate)
    (h : (advance setup).outcome s = (.ok (), s')) : s'.Workable setup := by
  have hordered : s'.work.Ordered setup.engine :=
    ((Workspace.stable_ordered setup).session_advance hs.arrays.ordered).of_ok h
  cases Session.of_advance hs.arrays.ordered h with
  | concluded hx hm hend =>
    exact hs.of_concluded hA hR hx hm (Monitor.status_ne_of_check hm nofun rfl) hend
  | refined hx hm hrest => exact hs.of_refined hA hR hx hm hordered hrest

/-! ## Starts and restarts -/

/-- New arrays are workable. -/
theorem workable_allocate (hA : A.JoinsSigned) {origin : Origin A} {p : P} {n : Nat}
    {ready : Ready A} (h : (origin.ready setup.residual p n).1 = .ok ready) :
    (Workspace.allocate ready.fillable ready.iterate ready.residual).Workable setup.engine := by
  have hordered := Workspace.ordered_allocate h
  obtain ⟨u, v, hsize, hu, -, hshape, hjoined⟩ := Origin.ready_eq_ok h
  have hiterate := congrArg Ready.iterate hjoined
  have hresidual := congrArg Ready.residual hjoined
  have hkind : A.signed ready.iterate.kind = true := by
    rw [hiterate, Tensor.kind_castTo, hu, Tensor.kind_castTo]
    exact hA _ _ (A.signed_working _)
  have hishape : ready.iterate.shape = origin.point.shape := by
    rw [hiterate, Tensor.shape_castTo, hu, Tensor.shape_castTo]
  have hrshape : ready.residual.shape = origin.point.shape := by
    rw [hresidual, Tensor.shape_castTo, hshape, hu, Tensor.shape_castTo]
  exact
    { ordered := hordered
      nonempty := fun h => hsize ((congrArg Shape.size hishape).symm.trans h)
      residual := hrshape.trans hishape.symm
      inverse := rfl
      signed := hkind
      signed_inverse := hA _ _ hkind }

/-- A session that has been started is workable. -/
theorem workable_start (hA : A.JoinsSigned) {request : Request A P} {n : Nat}
    (h : start setup request = (.ok s, n)) : s.Workable setup := by
  obtain ⟨budget, ready, c, tolerances, objective, check, rule, hready, -, rfl⟩ := of_start h
  exact
    { arrays := workable_allocate hA (congrArg Prod.fst hready)
      best := rfl
      best_frame := fun _ => rfl
      steps := Int.le_refl 0
      verdict := nofun }

/-- A move that answers to a point of the shape of the iterate leaves the arrays workable. -/
theorem workable_moveTo (hR : setup.residual.Answers) (hs : s.work.Workable setup.engine)
    {point : Tensor A} (hpoint : point.shape = s.work.iterate.shape)
    (h : (moveTo setup point).outcome s = (.ok (), s')) : s'.work.Workable setup.engine := by
  obtain ⟨u, v, origin, shared, hu, hv, rfl⟩ := Session.of_moveTo hs.ordered h
  exact hs.land (hR.like _) (hu.frame_eq hpoint) hv

/-- So does one that fails, which it does before anything is moved. -/
theorem leaves_moveTo (hR : setup.residual.Answers) (hs : s.work.Workable setup.engine)
    {point : Tensor A} (hpoint : point.shape = s.work.iterate.shape) :
    Leaves (Workspace.Workable setup.engine) (moveTo setup point) s := by
  refine .of_cases (fun _ s' h => workable_moveTo hR hs hpoint h) fun e s' h => ?_
  cases hw : s.work.moveTo setup.engine point with
  | error e' =>
    rw [moveTo, outcome_bind, outcome_rework, hw] at h
    cases h
    exact hs
  | ok w =>
    obtain ⟨_, _, hanswer⟩ := answers_moveTo (hR.like _) hs.ordered hpoint hw
    cases hanswer.symm.trans h

/-- The new arrays of a restart are workable, and what a failed one leaves of the old ones. -/
theorem leaves_relocate (hA : A.JoinsSigned) (hR : setup.residual.Answers)
    (hs : s.work.Workable setup.engine) (point : Tensor A) (layout : Layout) :
    Leaves (Workspace.Workable setup.engine) (relocate setup point layout) s := by
  refine .get_seq ?_
  split
  case isTrue hpoint =>
    refine .seq (leaves_moveTo hR hs hpoint) fun _ s₁ h₁ => leaves_rework h₁ fun w hw => ?_
    obtain ⟨inverse, hinverse, hw⟩ := Attempt.bind_eq_ok.mp hw
    obtain rfl := Attempt.pure_eq_ok.mp hw
    have hreset := Tensor.frame_of_resetToIdentity hinverse
    exact
      { h₁ with
        ordered := h₁.ordered.identity hinverse
        inverse := (Tensor.shape_congr hreset).trans h₁.inverse
        signed_inverse := (Tensor.kind_congr hreset).symm ▸ h₁.signed_inverse }
  case isFalse =>
    refine .get_seq (.modify_seq (.attempt_seq (fun _ _ => hs) fun ready hready => ?_))
    have hnew := workable_allocate hA hready
    exact .modify_seq (.get_seq (.attempt_seq (fun _ _ => hnew) fun check _ => .of_modify hnew))

/-- A restart leaves a session equipped, whether it answers or fails, and workable if it answers. -/
theorem Equipped.restart (hA : A.JoinsSigned) (hR : setup.residual.Answers) (hs : s.Equipped setup)
    (r : Restart A P) : Upholds (fun _ => Workable setup) (Equipped setup) (restart setup r) s := by
  have harrays := leaves_restart (fun _ hs => leaves_relocate hA hR hs) hs.arrays r
  have hrecord := verdictAndSteps_restart setup r s
  refine .of_cases (fun _ s' h => ?_) fun _ s' h => ?_
  · obtain ⟨budget, s₁, -, hrenewed⟩ := exists_renewed h
    have hcleared := hrecord.of_ok h
    exact
      { arrays := harrays.of_ok h
        best := congrArg Tensor.shape hrenewed.point
        best_frame := fun _ => congrArg Tensor.frame hrenewed.point
        steps := Int.le_of_eq (congrArg Prod.snd hcleared).symm
        verdict := fun hstopped => nomatch (congrArg (·.1.2) hcleared).symm.trans hstopped }
  · have hkept := hrecord.of_error h
    have hstopped : s'.stopped = s.stopped := congrArg (·.1.2) hkept
    have hstatus : s'.status = s.status := congrArg (·.1.1) hkept
    exact
      { arrays := harrays.of_error h
        steps := Int.le_trans hs.steps (Int.le_of_eq (congrArg Prod.snd hkept).symm)
        verdict := by
          rw [hstopped, hstatus]
          exact hs.verdict }

/-- Steps that answer and ends of budgets leave a session workable. -/
theorem invariant_workable (hA : A.JoinsSigned) (hR : setup.residual.Answers) :
    Invariant setup (Workable setup) fun _ => True where
  advance := fun hs _ =>
    .of_cases (fun _ _ h => hs.of_advance hA (hR.like _) h) fun _ _ _ => trivial
  exhaust := fun hs _ =>
    { arrays := hs.arrays
      best := hs.best
      best_frame := hs.best_frame
      steps := hs.steps
      verdict := fun _ => nofun }
  lines := fun _ hs =>
    { arrays := hs.arrays
      best := hs.best
      best_frame := hs.best_frame
      steps := hs.steps
      verdict := hs.verdict }
  weaken := fun _ => trivial

end Session

end QuasiNewton
