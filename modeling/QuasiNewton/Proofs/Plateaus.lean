import Mathlib.Data.ENat.Lattice
import QuasiNewton.Proofs.Counters
import QuasiNewton.Proofs.Stepping

/-!
# Plateaus

Where the residual is the same everywhere it never changes along a step, so that every step resets
the inverse Jacobian. Three budgets race: the checks without a better norm, the resets, and the
steps. The least of them ends the solve, and where they are level the one named first.
-/

namespace QuasiNewton

open QuasiNewton.Action

/-! ## Monitors that see one norm -/

section

variable {M : Magnitudes}

/-- How many checks of residuals with one norm a condition bears. Without a watch they never end;
with one they are the stall budget, if the norm is a number and not above its own multiple by the
threshold. -/
inductive Condition.Bears (κ : Condition M) (x : M.Real) : ℕ∞ → Prop
  | always (hunwatched : κ.mode.watchesBest = false) : Bears κ x ⊤
  | times {n : ℕ} {q : Quantity M.Real} {factor : M.Real} (hwatched : κ.mode.watchesBest = true)
    (hbudget : κ.stallBudget.StandsFor n) (hfinite : M.isFinite x = true)
    (hsteady : M.lt x x = false) (hthreshold : κ.threshold = .number q)
    (hfactor : q.magnitude = .ok factor) (hcalm : M.lt (M.mul factor x) x = false) : Bears κ x n

end

variable {A : Arithmetic} {P : Type}

/-- A monitor that has seen one norm only, first at a point and a number of times since. -/
structure Monitor.HasSeenOnly (m : Monitor A) (x : A.Real) (point : Tensor A) (i : ℕ) : Prop where
  initial : m.initial = x
  best : m.best = x
  point : m.bestIterate = point
  stalled : m.stalled = i

/-- A monitor that sees the norm once more stops when the condition bears it no longer. -/
theorem Monitor.check_of_hasSeenOnly {m : Monitor A} {norm : Norm A} {v u point : Tensor A}
    {x : A.Real} {S : ℕ∞} {i : ℕ} (hbears : m.condition.Bears x S)
    (hholds : m.condition.mode.holds norm m.tolerances v u = .ok false) (hnorm : norm v = .ok x)
    (hseen : m.condition.mode.watchesBest = true → m.HasSeenOnly x point i) :
    ∃ stop m', m.check norm v u = (.ok stop, m') ∧
      ((stop = true ∧ S ≤ (i + 1 : ℕ) ∧ m'.status = .stalled ∧ m'.bestIterate = point) ∨
        (stop = false ∧ ((i + 1 : ℕ) : ℕ∞) < S ∧
          (m.condition.mode.watchesBest = true → m'.HasSeenOnly x point (i + 1)))) := by
  cases hbears with
  | always hunwatched =>
    refine ⟨false, m, ?_, .inr ⟨rfl, ENat.natCast_lt_top _, fun hwatched => ?_⟩⟩
    case refine_2 => cases hunwatched.symm.trans hwatched
    unfold check
    rw [hholds, hunwatched]
    rfl
  | @times n q factor hwatched hbudget hfinite hsteady hthreshold hfactor hcalm =>
    obtain ⟨hinitial, hbest, hpoint, hstalled⟩ := hseen hwatched
    have hobserve : m.observe x u = { m with stalled := m.stalled + 1 } := by
      unfold observe
      rw [hbest, hsteady]
      rfl
    have hquantity : Setting.quantity (.number q) = .ok q := rfl
    have hdiverges : ({ m with stalled := m.stalled + 1 } : Monitor A).diverges x = .ok false := by
      unfold diverges
      simp only [hfinite, hthreshold, hquantity, hfactor, hinitial, hcalm, bind, Except.bind, pure,
        Except.pure, if_pos]
    have hcheck : m.check norm v u = m.watch x u := by
      unfold check
      rw [hholds, hwatched, hnorm]
      rfl
    have hcount : ((i + 1 : ℕ) : ℤ) = m.stalled + 1 := by rw [hstalled, Nat.cast_succ]
    have hnext : ({ m with stalled := m.stalled + 1 } : Monitor A).HasSeenOnly x point (i + 1) :=
      ⟨hinitial, hbest, hpoint, hcount.symm⟩
    have hreached : ({ m with stalled := m.stalled + 1 } : Monitor A).isStalled = true ↔
        (n : ℤ) ≤ m.stalled + 1 := hbudget.isReachedBy_iff
    rw [hcheck, watch, hobserve]
    dsimp only
    rw [verdict, hdiverges]
    by_cases hn : n ≤ i + 1
    · have hstops : ({ m with stalled := m.stalled + 1 } : Monitor A).isStalled = true :=
        hreached.mpr (hcount ▸ Int.ofNat_le.mpr hn)
      refine ⟨true, { m with stalled := m.stalled + 1, status := .stalled }, ?_,
        .inl ⟨rfl, Nat.cast_le.mpr hn, rfl, hpoint⟩⟩
      simp only [hstops, bind, Except.bind, pure, Except.pure, if_pos]
      rfl
    · have hgoes : ({ m with stalled := m.stalled + 1 } : Monitor A).isStalled = false :=
        Bool.eq_false_iff.mpr fun h => hn (Int.ofNat_le.mp (hcount ▸ hreached.mp h))
      refine ⟨false, { m with stalled := m.stalled + 1 }, ?_,
        .inr ⟨rfl, Nat.cast_lt.mpr (Nat.not_le.mp hn), fun _ => hnext⟩⟩
      simp only [hgoes, bind, Except.bind, pure, Except.pure]
      rfl

/-! ## Residual functions -/

namespace Residual

/-- The function always answers one tensor: a function that returns, at iterates of its shape, and a
function that writes, in arrays and at iterates of its frame. -/
def IsConstant (c : Tensor A) : Residual A P → Prop
  | .returning f => ∀ n u p, u.shape = c.shape → f n u p = .ok c
  | .writing f => ∀ n a u p, a.frame = c.frame → u.frame = c.frame →
    ∃ v, f n a u p = .ok v ∧ a.overwrite v = c

variable {R : Residual A P} {a c u : Tensor A}

/-- An iterate that can take the place of a tensor, and arrays that belong to it. -/
def Hosts (R : Residual A P) (c u : Tensor A) : Prop :=
  u.shape = c.shape ∧ (R.writes = true → u.frame = c.frame)

/-- Whether an iterate hosts the constant is a matter of its frame. -/
theorem Hosts.congr (h : R.Hosts c u) {t : Tensor A} (ht : t.frame = u.frame) : R.Hosts c t :=
  ⟨(Tensor.shape_congr ht).trans h.1, fun hw => ht.trans (h.2 hw)⟩

namespace IsConstant

/-- A constant residual is answered wherever it is evaluated, in an array of its frame. -/
theorem evaluate (h : R.IsConstant c) (hu : R.Hosts c u) (ha : R.writes = true → a.frame = c.frame)
    (n : Nat) (p : P) : (R.evaluate n a u p).1 = .ok c := by
  cases R with
  | returning f => exact h (n + 1) u p hu.1
  | writing f =>
    obtain ⟨v, hv, hc⟩ := h (n + 1) a u p (ha rfl) (hu.2 rfl)
    change (f (n + 1) a u p).map a.overwrite = .ok c
    rw [hv]
    exact congrArg Except.ok hc

/-- So it is answered at all points like an iterate that hosts it. -/
theorem answersLike (h : R.IsConstant c) (hsigned : A.signed c.kind = true) (hu : R.Hosts c u) :
    R.AnswersLike u := by
  cases R with
  | returning f =>
    intro n t p ht
    exact ⟨c, h n t p (ht.trans hu.1), (ht.trans hu.1).symm, fun _ => hsigned⟩
  | writing f =>
    intro n a t p ha ht
    obtain ⟨v, hv, -⟩ := h n a t p (ha.trans (hu.2 rfl)) (ht.trans (hu.2 rfl))
    exact ⟨v, hv⟩

end IsConstant

end Residual

namespace Session

variable {setup : Setup A P} {c point : Tensor A} {K : A.Kind} {x : A.Real} {S : ℕ∞} {r i : ℕ}
  {e : Settings A P} {s s' : Session A P}

/-! ## Steps -/

/-- What keeps a session where its settings are `e` going nowhere: the residual is always `c`, which
is stored in the kind `K`, is nowhere accepted, and differs from itself by a negligible amount. -/
structure Deadlock (setup : Setup A P) (c : Tensor A) (K : A.Kind) (x : A.Real) (S : ℕ∞) (r : ℕ)
    (e : Settings A P) : Prop where
  residual : setup.residual.IsConstant c
  signed : A.signed c.kind = true
  join : A.join K c.kind = K
  withReal : A.withReal K = K
  norm : setup.norm c = .ok x
  stored : ∃ y, setup.norm (c.castTo K) = .ok y
  verbosity : ∃ q, setup.verbosity = .number q
  line : ∀ n u d, ∃ α, (e.lineSearch.length n u d).1 = .ok α
  tolerance : Quantity.InRange A e.resetCheck.tolerance
  cancels : ∀ t y, t = c ∨ t = c.castTo K → c.sub t = .ok y →
    e.resetCheck.negligible y = .ok true
  refused : ∀ u, e.condition.mode.holds setup.norm e.monitored c u = .ok false
  resets : Quantity.StandsFor (M := A.toMagnitudes) setup.options.resetBudget r
  bears : e.condition.Bears x S

/-- A session after so many steps that were all resets. -/
structure Plateau (setup : Setup A P) (c : Tensor A) (K : A.Kind) (x : A.Real) (e : Settings A P)
    (point : Tensor A) (i : ℕ) (s : Session A P) : Prop where
  workable : s.Workable setup
  settings : s.settings = e
  going : s.stopped = false
  hosts : setup.residual.Hosts c s.work.iterate
  iterate : s.work.iterate.kind = K
  inverse : s.work.inverse.kind = K
  residual : s.work.residual = c ∨ s.work.residual = c.castTo K
  origin : point.frame = s.work.iterate.frame
  watched : e.condition.mode.watchesBest = true → s.monitor.HasSeenOnly x point i
  steps : s.statistics.steps = i
  resets : s.resets = i
  evaluations : s.statistics.evaluations = (i : ℤ) + 1

/-- A session that has ended after so many steps, resets and evaluations, with the constant for a
residual. -/
structure EndedWith (c : Tensor A) (status : Status) (steps resets evaluations : ℕ)
    (s : Session A P) : Prop where
  stopped : s.stopped = true
  status : s.status = status
  residual : s.work.residual = c
  steps : s.statistics.steps = steps
  resets : s.resets = resets
  evaluations : s.statistics.evaluations = evaluations

/-- What the next step does: it ends the session where it started if the condition bears no more, or
else where it went if the resets are used up, or else is a reset. -/
inductive PlateauStep (setup : Setup A P) (c : Tensor A) (K : A.Kind) (x : A.Real) (S : ℕ∞) (r : ℕ)
    (e : Settings A P) (point : Tensor A) (i : ℕ) (s s' : Session A P) : Prop
  | stalled (hpatience : S ≤ (i + 1 : ℕ)) (hended : EndedWith c .stalled (i + 1) i (i + 3) s')
    (hpoint : s'.work.iterate = point)
  | exhausted (hpatience : ((i + 1 : ℕ) : ℕ∞) < S) (hbudget : r ≤ i)
    (hended : EndedWith c .resetsExhausted (i + 1) i (i + 2) s')
  | reset (hpatience : ((i + 1 : ℕ) : ℕ∞) < S) (hbudget : i < r)
    (hplateau : Plateau setup c K x e point (i + 1) s')

namespace Plateau

/-- Where the residual function writes, residual and trial residual are of the frame of the
constant. -/
theorem frame_of_writes (h : Plateau setup c K x e point i s)
    (hwrites : setup.residual.writes = true) :
    s.work.residual.frame = c.frame ∧ s.work.trial.frame = c.frame := by
  obtain ⟨f, hf⟩ := h.workable.arrays.ordered (Setup.inPlace_of_writes hwrites)
  have hframe := hf.iterate.symm.trans (h.hosts.2 hwrites)
  exact ⟨hf.residual.trans hframe, hf.trial.trans hframe⟩

/-- Its probe goes to a point of the same frame and finds the constant there. -/
theorem of_probe (h : Plateau setup c K x e point i s) (hd : Deadlock setup c K x S r e)
    {y : Probe A} (hy : y.Valid setup s) (hshape : y.iterate.shape = s.work.iterate.shape) :
    y.iterate.frame = s.work.iterate.frame ∧ y.residual = c := by
  have hkind : s.work.residual.kind = c.kind ∨ s.work.residual.kind = K :=
    h.residual.imp (congrArg Tensor.kind) fun h => (congrArg Tensor.kind h).trans (c.kind_castTo K)
  have hdirection : y.direction.kind = K := by
    obtain ⟨v, d, hv, hreshape, hturned⟩ := hy.aim
    have hcomputed : d.kind = K := by
      rw [Tensor.kind_of_reshape hreshape, Tensor.kind_of_matMul hv, Tensor.kind_flatten, h.inverse]
      rcases hkind with hkind | hkind
      · rw [hkind, hd.join]
      · rw [hkind, A.join_self]
    rcases h.workable.arrays.ordered.turned_eq_or d with heq | ⟨f, hf, heq⟩
    · rw [hturned, heq, hcomputed]
    · rw [hturned, heq, Tensor.kind_of_frame hf.direction, ← Tensor.kind_of_frame hf.iterate,
        h.iterate]
  have hframe : y.iterate.frame = s.work.iterate.frame := by
    refine Tensor.frame_eq ?_ hshape
    change y.iterate.kind = s.work.iterate.kind
    have hscale : (y.direction.scale y.length).kind = A.withReal y.direction.kind := rfl
    rw [Tensor.kind_of_sub hy.advance, hscale, hdirection, hd.withReal, h.iterate, A.join_self]
  refine ⟨hframe, Except.ok.inj (hy.residual.symm.trans ?_)⟩
  exact hd.residual.evaluate (h.hosts.congr hframe) (fun hw => (h.frame_of_writes hw).2) _ _

/-- The monitor is asked about the constant and answers. -/
theorem check (h : Plateau setup c K x e point i s) (hd : Deadlock setup c K x S r e)
    (u : Tensor A) : ∃ stop m, s.monitor.check setup.norm c u = (.ok stop, m) ∧
      ((stop = true ∧ S ≤ (i + 1 : ℕ) ∧ m.status = .stalled ∧ m.bestIterate = point) ∨
        (stop = false ∧ ((i + 1 : ℕ) : ℕ∞) < S ∧
          (e.condition.mode.watchesBest = true → m.HasSeenOnly x point (i + 1)))) := by
  have hsettings := h.settings
  subst hsettings
  exact Monitor.check_of_hasSeenOnly hd.bears (hd.refused u) hd.norm h.watched

/-- At the points a step goes to the constant is answered. -/
theorem answersLike (h : Plateau setup c K x e point i s) (hd : Deadlock setup c K x S r e) :
    setup.residual.AnswersLike s.work.iterate :=
  hd.residual.answersLike hd.signed h.hosts

/-- Its steps answer. -/
theorem exists_step (h : Plateau setup c K x e point i s) (hA : A.JoinsSigned)
    (hd : Deadlock setup c K x S r e) :
    ∃ s', (advance setup).outcome s = (.ok (), s') := by
  have hline := hd.line
  have htolerance := hd.tolerance
  rw [← h.settings] at hline htolerance
  obtain ⟨_, s', hs'⟩ := answers_advance_of_check hA (h.answersLike hd) hd.verbosity h.workable
    hline htolerance fun y hy _ _ => by
      obtain ⟨-, hshape⟩ := hy.underway hA (h.answersLike hd) h.workable.arrays
      obtain ⟨-, hresidual⟩ := h.of_probe hd hy hshape
      obtain ⟨stop, m, hcheck, -⟩ := h.check hd y.iterate
      exact ⟨stop, by rw [hresidual, hcheck]⟩
  exact ⟨s', hs'⟩

/-- A step that goes on has found a change that is negligible. -/
theorem not_correction (h : Plateau setup c K x e point i s) (hd : Deadlock setup c K x S r e)
    {y d : Tensor A} (hy : c.sub s.work.residual = .ok y) :
    s.resetCheck.anyNegligible d y ≠ .ok false := by
  intro hlarge
  have hsmall := hd.cancels _ y h.residual hy
  rw [← h.settings] at hsmall
  obtain ⟨b, hb, hrest⟩ := Attempt.bind_eq_ok.mp hlarge
  cases b with
  | true => cases hrest
  | false => cases hsmall.symm.trans hrest

/-- What its probe finds, and what the monitor says to that. -/
theorem of_check (h : Plateau setup c K x e point i s) (hA : A.JoinsSigned)
    (hd : Deadlock setup c K x S r e) {y : Probe A} {stop : Bool} {m : Monitor A}
    (hy : y.Valid setup s)
    (hm : s.monitor.check setup.norm y.residual y.iterate = (.ok stop, m)) :
    y.iterate.frame = s.work.iterate.frame ∧ y.residual = c ∧
      ((stop = true ∧ S ≤ (i + 1 : ℕ) ∧ m.status = .stalled ∧ m.bestIterate = point) ∨
        (stop = false ∧ ((i + 1 : ℕ) : ℕ∞) < S ∧
          (e.condition.mode.watchesBest = true → m.HasSeenOnly x point (i + 1)))) := by
  obtain ⟨-, hshape⟩ := hy.underway hA (h.answersLike hd) h.workable.arrays
  obtain ⟨hframe, hresidual⟩ := h.of_probe hd hy hshape
  obtain ⟨stop', m', hcheck, hcases⟩ := h.check hd y.iterate
  obtain ⟨hstop, rfl⟩ := Prod.mk.inj ((hresidual ▸ hcheck).symm.trans hm)
  obtain rfl := Except.ok.inj hstop
  exact ⟨hframe, hresidual, hcases⟩

/-- A step that ends the session for the cause that the monitor gives goes back to the point. -/
theorem of_concluded (h : Plateau setup c K x e point i s) (hd : Deadlock setup c K x S r e)
    {y : Probe A} {m : Monitor A} (hframe : y.iterate.frame = s.work.iterate.frame)
    (hresidual : y.residual = c) (hstatus : m.status = .stalled) (hpoint : m.bestIterate = point)
    (hend : Concluded setup { s.probed y with monitor := m } s') :
    EndedWith c .stalled (i + 1) i (i + 3) s' ∧ s'.work.iterate = point := by
  have hsteps := h.steps
  have hevaluations := h.evaluations
  cases hend with
  | stayed hback =>
    change m.status.fallsBack = false at hback
    rw [hstatus] at hback
    cases hback
  | @restored u v _ _ _ hback hu hv =>
    have hplace : point.frame = y.iterate.frame := h.origin.trans hframe.symm
    have hlanding : u = point := by
      rw [← hpoint]
      exact hu.exact (by rw [hpoint]; exact Tensor.kind_congr hplace)
        fun _ => by rw [hpoint]; exact Tensor.shape_congr hplace
    have hconstant : v = c := by
      refine Except.ok.inj (hv.symm.trans (hd.residual.evaluate ?_ ?_ _ _))
      · rw [hlanding]
        exact h.hosts.congr h.origin
      · intro hw
        change y.residual.frame = c.frame
        rw [hresidual]
    refine ⟨⟨rfl, hstatus, hconstant, ?_, h.resets, ?_⟩, hlanding⟩
    · exact congrArg (· + 1) hsteps
    · change s.statistics.evaluations + 1 + 1 = ((i + 3 : ℕ) : ℤ)
      omega

/-- Every step is of one of the three sorts. -/
theorem plateauStep (h : Plateau setup c K x e point i s) (hA : A.JoinsSigned)
    (hd : Deadlock setup c K x S r e) (hadvance : (advance setup).outcome s = (.ok (), s')) :
    PlateauStep setup c K x S r e point i s s' := by
  have hworkable := h.workable.of_advance hA (h.answersLike hd) hadvance
  have hsettings : s'.settings = e := by
    have hkept := settings_advance setup s
    rw [hadvance] at hkept
    exact hkept.trans h.settings
  have hsteps := h.steps
  have hresets := h.resets
  have hevaluations := h.evaluations
  cases of_advance h.workable.arrays.ordered hadvance with
  | @concluded y m _ hy hm hend =>
    obtain ⟨hframe, hresidual, hcases⟩ := h.of_check hA hd hy hm
    obtain ⟨-, hpatience, hstatus, hpoint⟩ := hcases.resolve_right fun h => nomatch h.1
    obtain ⟨hended, hlanding⟩ := h.of_concluded hd hframe hresidual hstatus hpoint hend
    exact .stalled hpatience hended hlanding
  | @refined y m _ hy hm hrest =>
    obtain ⟨hframe, hresidual, hcases⟩ := h.of_check hA hd hy hm
    obtain ⟨-, hpatience, hseen⟩ := hcases.resolve_left fun h => nomatch h.1
    have hsteps' : s.statistics.steps + 1 = ((i + 1 : ℕ) : ℤ) := congrArg (· + 1) hsteps
    have hevaluations' : s.statistics.evaluations + 1 = ((i + 2 : ℕ) : ℤ) := by omega
    cases hrest with
    | exhausted _ _ hbudget =>
      have hr : (r : ℤ) ≤ i := by
        rw [← hresets]
        exact hd.resets.isReachedBy_iff.mp hbudget
      exact .exhausted hpatience (Int.ofNat_le.mp hr)
        ⟨rfl, rfl, hresidual, hsteps', hresets, hevaluations'⟩
    | reset _ _ hbudget =>
      have hr : (i : ℤ) < r := by
        rw [← hresets]
        refine Int.not_le.mp fun hle => ?_
        cases hbudget.symm.trans (hd.resets.isReachedBy_iff.mpr hle)
      have hkind : y.iterate.kind = K := (Tensor.kind_congr hframe).trans h.iterate
      refine .reset hpatience (Int.ofNat_lt.mp hr)
        { workable := hworkable
          settings := hsettings
          going := h.going
          hosts := h.hosts.congr hframe
          iterate := hkind
          inverse := ?_
          residual := .inl hresidual
          origin := h.origin.trans hframe.symm
          watched := hseen
          steps := hsteps'
          resets := congrArg (· + 1) hresets
          evaluations := by
            change s.statistics.evaluations + 1 = ((i + 1 : ℕ) : ℤ) + 1
            omega }
      change A.join y.iterate.kind y.residual.kind = K
      rw [hkind, hresidual, hd.join]
    | @corrected z _ _ _ _ hz hlarge =>
      change y.residual.sub s.work.residual = .ok z at hz
      rw [hresidual] at hz
      exact absurd hlarge (h.not_correction hd hz)

/-- It corrects nothing. -/
theorem not_corrects (h : Plateau setup c K x e point i s) (hA : A.JoinsSigned)
    (hd : Deadlock setup c K x S r e) : ¬Corrects setup s := by
  rintro ⟨y, z, u, hcontinues, hlarge, -, -⟩
  obtain ⟨-, hshape⟩ := hcontinues.probe.underway hA (h.answersLike hd) h.workable.arrays
  obtain ⟨-, hresidual⟩ := h.of_probe hd hcontinues.probe hshape
  exact h.not_correction hd (hresidual ▸ hcontinues.change) hlarge

/-- A step to another such session is a reset. -/
theorem resets_of_next (h : Plateau setup c K x e point i s) (hA : A.JoinsSigned)
    (hd : Deadlock setup c K x S r e) (hadvance : (advance setup).outcome s = (.ok (), s'))
    (h' : Plateau setup c K x e point (i + 1) s') : Resets setup s := by
  cases sorted_advance h.workable.arrays.ordered h.going hadvance with
  | ended hstopped => cases hstopped.symm.trans h'.going
  | reset _ hresets => exact hresets
  | corrected _ hcorrects => exact absurd hcorrects (h.not_corrects hA hd)
  | guarded _ hguards => exact absurd hguards.1 (h.not_corrects hA hd)

/-- The residual that is stored has a norm. -/
theorem exists_norm (h : Plateau setup c K x e point i s) (hd : Deadlock setup c K x S r e) :
    ∃ y, setup.norm s.work.residual = .ok y := by
  rcases h.residual with hresidual | hresidual
  · exact ⟨x, hresidual ▸ hd.norm⟩
  · exact hresidual ▸ hd.stored

/-! ## Runs -/

/-- The next attempt is what a step leads to. -/
theorem plateauStep_attempts (h : Plateau setup c K x e point i (attempts setup s i))
    (hA : A.JoinsSigned) (hd : Deadlock setup c K x S r e) :
    (advance setup).outcome (attempts setup s i) = (.ok (), attempts setup s (i + 1)) ∧
      PlateauStep setup c K x S r e point i (attempts setup s i) (attempts setup s (i + 1)) := by
  obtain ⟨s', hadvance⟩ := h.exists_step hA hd
  have hnext : attempts setup s (i + 1) = s' := by
    rw [attempts_succ h.going, hadvance]
  rw [hnext]
  exact ⟨hadvance, h.plateauStep hA hd hadvance⟩

/-- As long as neither budget is used up the attempts are resets. -/
theorem attempts (h : Plateau setup c K x e point 0 s) (hA : A.JoinsSigned)
    (hd : Deadlock setup c K x S r e) (hr : i ≤ r) (hS : (i : ℕ∞) < S) :
    Plateau setup c K x e point i (attempts setup s i) := by
  induction i with
  | zero => exact h
  | succ i ih =>
    have hprevious := ih (by omega) ((Nat.cast_lt.mpr (Nat.lt_succ_self i)).trans hS)
    cases (hprevious.plateauStep_attempts hA hd).2 with
    | stalled hpatience => exact absurd hS (not_lt.mpr hpatience)
    | exhausted _ hbudget => omega
    | reset _ _ hplateau => exact hplateau

/-- The first attempts below both budgets are on the plateau. -/
theorem attempts_of_lt {k : ℕ} (h : Plateau setup c K x e point 0 s) (hA : A.JoinsSigned)
    (hd : Deadlock setup c K x S r e) (hkr : k ≤ r + 1) (hkS : (k : ℕ∞) ≤ S) (i : ℕ) (hi : i < k) :
    Plateau setup c K x e point i (Session.attempts setup s i) :=
  h.attempts hA hd (by omega) ((Nat.cast_lt.mpr hi).trans_le hkS)

end Plateau

/-- How the race of the three budgets ends that started in `s₀`: after `k` steps in a report. -/
structure Raced (setup : Setup A P) (s₀ : Session A P) (S : ℕ∞) (r m k : ℕ) (report : Report A) :
    Prop where
  least : (k : ℕ∞) = min ((r : ℕ∞) + 1) (min S (m : ℕ∞))
  steps : report.steps = k
  resets : ∀ i, i + 1 < k → Resets setup (attempts setup s₀ i)
  plain : ∀ i < k, ¬Corrects setup (attempts setup s₀ i) ∧ ¬Guards setup (attempts setup s₀ i)
  stalled : S ≤ r + 1 → S ≤ m → report.status = .stalled ∧ report.iterate = s₀.work.iterate ∧
    report.resets + 1 = k ∧ report.evaluations = k + 2
  exhausted : (r + 1 : ℕ∞) < S → r + 1 ≤ m → report.status = .resetsExhausted ∧
    report.resets = r ∧ report.evaluations = r + 2
  spent : (m : ℕ∞) < S → m < r + 1 → report.status = .iterationsExhausted ∧ report.resets = m ∧
    report.evaluations = m + 1

section

variable {request : Request A P} {calls m k : ℕ}

/-- The solve reports from the session after as many steps as the least budget allows. -/
theorem Plateau.exists_report (h : Plateau setup c K x e point 0 s) (hA : A.JoinsSigned)
    (hd : Deadlock setup c K x S r e) (hstart : start setup request = (.ok s, calls))
    (hm : e.budget.integer? = some (m : ℤ)) (hkm : k ≤ m) (hkr : k ≤ r + 1) (hkS : (k : ℕ∞) ≤ S)
    (hnorm : ∃ y, setup.norm (Session.attempts setup s k).work.residual = .ok y)
    (hended : (Session.attempts setup s k).stopped = true ∨ m ≤ k) :
    ∃ norm, (solve setup request).1 = .ok ((Session.attempts setup s k).spent.summary norm) := by
  have hplateau := h.attempts_of_lt hA hd hkr hkS
  have hanswers (i : ℕ) (hi : i < k) :
      ((step setup).outcome (Session.attempts setup s i)).1 = .ok () := by
    have hgoes := hplateau i hi
    rw [outcome_step_of_not_stopped setup hgoes.going, (hgoes.plateauStep_attempts hA hd).1]
  obtain ⟨v, hverbosity⟩ := hd.verbosity
  have hbudget : s.budget.integer? = some (m : ℤ) := by
    rw [← hm, ← h.settings]
    rfl
  refine solve_of_steps hstart hbudget (Int.ofNat_le.mpr hkm) hverbosity (fun j hj => ?_)
    (outcome_steps_of_attempts hanswers) (hended.imp_right Int.ofNat_le.mpr)
  rcases Nat.lt_or_eq_of_le hj with hj | rfl
  · exact (hplateau j hj).exists_norm hd
  · exact hnorm

/-- All steps but the last are resets, and none corrects. -/
theorem Plateau.all_reset (h : Plateau setup c K x e point 0 s) (hA : A.JoinsSigned)
    (hd : Deadlock setup c K x S r e) (hkr : k ≤ r + 1) (hkS : (k : ℕ∞) ≤ S) :
    (∀ i, i + 1 < k → Resets setup (Session.attempts setup s i)) ∧
      ∀ i < k, ¬Corrects setup (Session.attempts setup s i) ∧
        ¬Guards setup (Session.attempts setup s i) := by
  have hplateau := h.attempts_of_lt hA hd hkr hkS
  constructor
  · intro i hi
    have hprevious := hplateau i (by omega)
    have hadvance := (hprevious.plateauStep_attempts hA hd).1
    exact hprevious.resets_of_next hA hd hadvance (hplateau (i + 1) hi)
  · intro i hi
    have hcorrects := (hplateau i hi).not_corrects hA hd
    exact ⟨hcorrects, fun hguards => hcorrects hguards.1⟩

/-- A condition that bears no more than the other budgets allow ends the solve where it started. -/
theorem Plateau.exists_stalled (h : Plateau setup c K x e s.work.iterate 0 s) (hA : A.JoinsSigned)
    (hd : Deadlock setup c K x S r e) (hstart : start setup request = (.ok s, calls))
    (hm : e.budget.integer? = some (m : ℤ)) (hS : S = (k + 1 : ℕ)) (hkr : k ≤ r)
    (hkm : k + 1 ≤ m) :
    ∃ report, (solve setup request).1 = .ok report ∧ Raced setup s S r m (k + 1) report := by
  have hlast := h.attempts hA hd hkr (hS ▸ Nat.cast_lt.mpr (Nat.lt_succ_self k))
  cases (hlast.plateauStep_attempts hA hd).2 with
  | exhausted hpatience => exact absurd hpatience (hS ▸ lt_irrefl _)
  | reset hpatience => exact absurd hpatience (hS ▸ lt_irrefl _)
  | stalled _ hended hpoint =>
    obtain ⟨norm, hsolve⟩ := h.exists_report hA hd hstart hm hkm (by omega) hS.ge
      ⟨x, hended.residual ▸ hd.norm⟩ (.inl hended.stopped)
    obtain ⟨hresets, hplain⟩ := h.all_reset hA hd (k := k + 1) (by omega) hS.ge
    rw [spent_of_stopped hended.stopped] at hsolve
    refine ⟨_, hsolve, ?_, hended.steps, hresets, hplain, fun _ _ => ?_, fun hlt => ?_,
      fun hlt => ?_⟩
    · rw [hS, min_eq_left (Nat.cast_le.mpr hkm), min_eq_right]
      exact_mod_cast Nat.succ_le_succ hkr
    · refine ⟨hended.status, hpoint, ?_, ?_⟩
      · exact congrArg (· + 1) hended.resets
      · exact hended.evaluations
    · rw [hS] at hlt
      have hlt : r + 1 < k + 1 := by exact_mod_cast hlt
      omega
    · rw [hS] at hlt
      have hlt : m < k + 1 := by exact_mod_cast hlt
      omega

/-- Resets that are used up before the other budgets end the solve where it went. -/
theorem Plateau.exists_exhausted (h : Plateau setup c K x e s.work.iterate 0 s)
    (hA : A.JoinsSigned) (hd : Deadlock setup c K x S r e)
    (hstart : start setup request = (.ok s, calls)) (hm : e.budget.integer? = some (m : ℤ))
    (hS : ((r + 1 : ℕ) : ℕ∞) < S) (hrm : r + 1 ≤ m) :
    ∃ report, (solve setup request).1 = .ok report ∧ Raced setup s S r m (r + 1) report := by
  have hlast := h.attempts hA hd (Nat.le_refl r)
    ((Nat.cast_lt.mpr (Nat.lt_succ_self r)).trans hS)
  cases (hlast.plateauStep_attempts hA hd).2 with
  | stalled hpatience => exact absurd hS (not_lt.mpr hpatience)
  | reset _ hbudget => exact absurd hbudget (Nat.lt_irrefl r)
  | exhausted _ _ hended =>
    obtain ⟨norm, hsolve⟩ := h.exists_report hA hd hstart hm hrm (Nat.le_refl _) hS.le
      ⟨x, hended.residual ▸ hd.norm⟩ (.inl hended.stopped)
    obtain ⟨hresets, hplain⟩ := h.all_reset hA hd (Nat.le_refl (r + 1)) hS.le
    rw [spent_of_stopped hended.stopped] at hsolve
    refine ⟨_, hsolve, ?_, hended.steps, hresets, hplain, fun hle => ?_, fun _ _ => ?_,
      fun _ hlt => absurd hlt (by omega)⟩
    · rw [min_eq_left]
      · exact Nat.cast_succ r
      · exact le_min (by exact_mod_cast hS.le) (by exact_mod_cast hrm)
    · exact absurd hS (not_lt.mpr (by exact_mod_cast hle))
    · exact ⟨hended.status, hended.resets, hended.evaluations⟩

/-- Steps that are used up before the other budgets end the solve where it went. -/
theorem Plateau.exists_spent (h : Plateau setup c K x e s.work.iterate 0 s)
    (hA : A.JoinsSigned) (hd : Deadlock setup c K x S r e)
    (hstart : start setup request = (.ok s, calls)) (hm : e.budget.integer? = some (m : ℤ))
    (hS : (m : ℕ∞) < S) (hmr : m ≤ r) :
    ∃ report, (solve setup request).1 = .ok report ∧ Raced setup s S r m m report := by
  have hlast := h.attempts hA hd hmr hS
  obtain ⟨norm, hsolve⟩ := h.exists_report hA hd hstart hm (Nat.le_refl m) (by omega) hS.le
    (hlast.exists_norm hd) (.inr (Nat.le_refl m))
  obtain ⟨hresets, hplain⟩ := h.all_reset hA hd (k := m) (by omega) hS.le
  rw [spent_of_going hlast.going] at hsolve
  refine ⟨_, hsolve, ?_, hlast.steps, hresets, hplain, fun _ hle => absurd hle (not_le.mpr hS),
    fun _ hle => absurd hle (by omega), fun _ _ => ?_⟩
  · rw [min_eq_right hS.le, min_eq_right]
    exact_mod_cast Nat.le_succ_of_le hmr
  · exact ⟨rfl, hlast.resets, hlast.evaluations⟩

/-- The least of the three budgets ends the solve. -/
theorem Plateau.exists_raced (h : Plateau setup c K x e s.work.iterate 0 s) (hA : A.JoinsSigned)
    (hd : Deadlock setup c K x S r e) (hstart : start setup request = (.ok s, calls))
    (hm : e.budget.integer? = some (m : ℤ)) (hS : 1 ≤ S) :
    ∃ k report, (solve setup request).1 = .ok report ∧ Raced setup s S r m k report := by
  by_cases hstalls : S ≤ (r + 1 : ℕ) ∧ S ≤ m
  · obtain ⟨hnr, hnm⟩ := hstalls
    obtain ⟨n, rfl⟩ :=
      ENat.ne_top_iff_exists.mp (ne_top_of_le_ne_top (ENat.natCast_ne_top m) hnm)
    obtain ⟨k, rfl⟩ : ∃ k, n = k + 1 := by
      refine Nat.exists_eq_succ_of_ne_zero fun hzero => ?_
      subst hzero
      exact absurd hS (by simp)
    exact ⟨k + 1, h.exists_stalled hA hd hstart hm rfl
      (Nat.le_of_succ_le_succ (Nat.cast_le.mp hnr)) (Nat.cast_le.mp hnm)⟩
  · rw [not_and_or, not_le, not_le] at hstalls
    by_cases hrm : r + 1 ≤ m
    · refine ⟨r + 1, h.exists_exhausted hA hd hstart hm ?_ hrm⟩
      exact hstalls.elim id fun hlt => (Nat.cast_le.mpr hrm).trans_lt hlt
    · have hmr : m ≤ r := by omega
      refine ⟨m, h.exists_spent hA hd hstart hm ?_ hmr⟩
      exact hstalls.elim (fun hlt => (Nat.cast_le.mpr (Nat.le_succ_of_le hmr)).trans_lt hlt) id

end

end Session

end QuasiNewton
