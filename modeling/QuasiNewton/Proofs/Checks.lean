import QuasiNewton.Proofs.Affine
import QuasiNewton.Proofs.Criteria
import QuasiNewton.Proofs.Orders

/-!
# Checks in a row

The monitor remembers five things and brings them up to date at every check. What it remembers, and
what it answers, are determined by the visits it was asked about: the least norm with the iterate
where it was first seen, the number of checks since the last norm below all before it, and the
verdict that follows from the two. Visits that meet the criterion are not noted, and norms that are
not numbers are below nothing.
-/

namespace QuasiNewton

variable {A : Arithmetic}

/-- A residual and its iterate, as the monitor is asked about them. -/
structure Visit (A : Arithmetic) where
  /-- The residual. -/
  residual : Tensor A
  /-- The iterate. -/
  iterate : Tensor A

/-! ## Histories of norms -/

section

variable {first p : A.Real × Tensor A} {l : List (A.Real × Tensor A)} {x y : A.Real} {n : Int}

/-- A pair in a list whose norm is the least of those that are numbers, and the first such pair. -/
def IsFirstLeast (l : List (A.Real × Tensor A)) (p : A.Real × Tensor A) : Prop :=
  A.Defined p.1 ∧ ∃ before after, l = before ++ p :: after ∧
    (∀ q ∈ before, A.Defined q.1 → A.lt p.1 q.1 = true) ∧
    ∀ q ∈ after, A.Defined q.1 → A.le p.1 q.1 = true

/-- Is a norm below the first one and below every number among those in between? -/
def IsRecord (first : A.Real) (earlier : List (A.Real × Tensor A)) (x : A.Real) : Prop :=
  A.lt x first = true ∧ ∀ q ∈ earlier, A.Defined q.1 → A.lt x q.1 = true

/-- A number of pairs at the end of a list follow the last one that was a record when it was noted,
or all of them do if there was none. -/
def SinceRecord (first : A.Real) (l : List (A.Real × Tensor A)) (n : Int) : Prop :=
  ∃ before after, l = before ++ after ∧ n = after.length ∧
    (before = [] ∨ ∃ earlier p, before = earlier ++ [p] ∧ IsRecord first earlier p.1) ∧
    ∀ between p later, after = between ++ p :: later → ¬ IsRecord first (before ++ between) p.1

/-- The least norm is at most every number in the list. -/
theorem IsFirstLeast.le (hA : A.InOrder) (h : IsFirstLeast l p) {q : A.Real × Tensor A}
    (hq : q ∈ l) (hdefined : A.Defined q.1) : A.le p.1 q.1 = true := by
  obtain ⟨hp, before, after, rfl, hbefore, hafter⟩ := h
  rcases List.mem_append.mp hq with hq | hq
  · exact hA.le_of_lt (hbefore q hq hdefined)
  · rcases List.mem_cons.mp hq with rfl | hq
    · exact hA.le_refl hp
    · exact hafter q hq hdefined

/-- A norm below the least one is the least one from then on. -/
theorem IsFirstLeast.snoc_lt (hA : A.InOrder) (h : IsFirstLeast l p) {q : A.Real × Tensor A}
    (hlt : A.lt q.1 p.1 = true) : IsFirstLeast (l ++ [q]) q :=
  ⟨hA.defined_of_lt hlt, l, [], rfl,
    fun _ hr hdefined => hA.lt_of_lt_of_le hlt (h.le hA hr hdefined), nofun⟩

/-- A norm that is not below the least one changes nothing. -/
theorem IsFirstLeast.snoc_not_lt (hA : A.InOrder) (h : IsFirstLeast l p) {q : A.Real × Tensor A}
    (hlt : A.lt q.1 p.1 = false) : IsFirstLeast (l ++ [q]) p := by
  obtain ⟨hp, before, after, rfl, hbefore, hafter⟩ := h
  refine ⟨hp, before, after ++ [q], by rw [List.append_assoc, List.cons_append], hbefore, ?_⟩
  intro r hr hdefined
  rcases List.mem_append.mp hr with hr | hr
  · exact hafter r hr hdefined
  · obtain rfl := List.mem_singleton.mp hr
    exact hA.le_of_not_lt hp hdefined hlt

/-- The numbers that are below the least norm are the records. -/
theorem IsFirstLeast.lt_iff_isRecord (hA : A.InOrder) (h : IsFirstLeast (first :: l) p)
    (hfirst : A.Defined first.1) : A.lt x p.1 = true ↔ IsRecord first.1 l x := by
  constructor
  · intro hlt
    have hbelow : ∀ q ∈ first :: l, A.Defined q.1 → A.lt x q.1 = true := fun q hq hdefined =>
      hA.lt_of_lt_of_le hlt (h.le hA hq hdefined)
    exact ⟨hbelow first List.mem_cons_self hfirst, fun q hq => hbelow q (List.mem_cons_of_mem _ hq)⟩
  · rintro ⟨hlt, hearlier⟩
    obtain ⟨hp, before, after, hl, -⟩ := h
    have hmem : p ∈ first :: l := hl ▸ List.mem_append_right before List.mem_cons_self
    rcases List.mem_cons.mp hmem with rfl | hmem
    · exact hlt
    · exact hearlier p hmem hp

/-- After a record the count starts over. -/
theorem SinceRecord.snoc_record (h : IsRecord first.1 l p.1) : SinceRecord first.1 (l ++ [p]) 0 :=
  ⟨l ++ [p], [], (List.append_nil _).symm, rfl, .inr ⟨l, p, rfl, h⟩, by simp⟩

/-- A norm that is no record is counted. -/
theorem SinceRecord.snoc (h : SinceRecord first.1 l n) (hp : ¬ IsRecord first.1 l p.1) :
    SinceRecord first.1 (l ++ [p]) (n + 1) := by
  obtain ⟨before, after, rfl, rfl, hbefore, hafter⟩ := h
  refine ⟨before, after ++ [p], List.append_assoc .., by simp, hbefore, ?_⟩
  intro between q later hsplit
  rcases List.eq_nil_or_concat later with rfl | ⟨later, r, rfl⟩
  · obtain ⟨rfl, hq⟩ := List.append_inj' hsplit rfl
    obtain rfl := List.singleton_inj.mp hq
    exact hp
  · have hsplit : after ++ [p] = (between ++ q :: later) ++ [r] := by simpa using hsplit
    exact hafter between q later (List.append_inj' hsplit rfl).1

end

/-- Which multiple of the first norm a condition allows, if its threshold is a number in range. -/
def Condition.factor {M : Magnitudes} (c : Condition M) : Except (Fault M.Real) M.Real := do
  (← c.threshold.quantity).magnitude (M := M)

namespace Monitor

variable {norm : Norm A} {m : Monitor A} {first : A.Real × Tensor A}
  {l : List (A.Real × Tensor A)}

/-! ## What a monitor recalls -/

/-- The monitor after it was asked about visits in a row. -/
def checked (norm : Norm A) (m : Monitor A) (visits : List (Visit A)) : Monitor A :=
  visits.foldl (fun m v => (m.check norm v.residual v.iterate).2) m

/-- The norm and the iterate of a visit that does not meet the criterion. -/
def miss? (norm : Norm A) (m : Monitor A) (v : Visit A) : Option (A.Real × Tensor A) :=
  match m.condition.mode.holds norm m.tolerances v.residual v.iterate, norm v.residual with
  | .ok false, .ok y => some (y, v.iterate)
  | _, _ => none

/-- The norms and iterates of the visits that do not meet the criterion. -/
def misses (norm : Norm A) (m : Monitor A) (visits : List (Visit A)) :
    List (A.Real × Tensor A) :=
  visits.filterMap (m.miss? norm)

/-- What a monitor recalls of a first norm with its iterate and of those that were noted since. -/
structure Recalls (first : A.Real × Tensor A) (l : List (A.Real × Tensor A)) (m : Monitor A) :
    Prop where
  initial : m.initial = first.1
  least : A.Defined first.1 → IsFirstLeast (first :: l) (m.best, m.bestIterate)
  undefined : ¬ A.Defined first.1 → (m.best, m.bestIterate) = first
  stalled : SinceRecord first.1 l m.stalled

/-- A monitor that starts recalls the start. -/
theorem recalls_start (condition : Condition A.toMagnitudes) (tolerances : Tolerances A)
    (objective : A.Real) (iterate : Tensor A) :
    (start condition tolerances objective iterate).Recalls (objective, iterate) [] where
  initial := rfl
  least := fun h => ⟨h, [], [], rfl, nofun, nofun⟩
  undefined := fun _ => rfl
  stalled := ⟨[], [], rfl, rfl, .inl rfl, by simp⟩

/-- A norm is below the best one if it is a record. -/
theorem Recalls.lt_best_iff (hA : A.InStrictOrder) (h : m.Recalls first l) (y : A.Real) :
    A.lt y m.best = true ↔ IsRecord first.1 l y := by
  by_cases hfirst : A.Defined first.1
  · exact (h.least hfirst).lt_iff_isRecord hA.toInOrder hfirst
  · have hbest : m.best = first.1 := congrArg Prod.fst (h.undefined hfirst)
    rw [hbest]
    exact ⟨fun hlt => absurd (hA.defined_of_gt hlt) hfirst, fun hrecord => hrecord.1⟩

/-- To take note of a norm is to recall it as well. -/
theorem Recalls.observe (hA : A.InStrictOrder) (h : m.Recalls first l) (p : A.Real × Tensor A) :
    (m.observe p.1 p.2).Recalls first (l ++ [p]) := by
  have hrecord := h.lt_best_iff hA p.1
  unfold Monitor.observe
  split
  case isTrue hlt =>
    exact
      { initial := h.initial
        least := fun hfirst => (h.least hfirst).snoc_lt hA.toInOrder hlt
        undefined := fun hfirst => by
          have hbest : m.best = first.1 := congrArg Prod.fst (h.undefined hfirst)
          exact absurd (hbest ▸ hA.defined_of_gt hlt) hfirst
        stalled := .snoc_record (hrecord.mp hlt) }
  case isFalse hlt =>
    exact
      { initial := h.initial
        least := fun hfirst => (h.least hfirst).snoc_not_lt hA.toInOrder (Bool.eq_false_iff.mpr hlt)
        undefined := h.undefined
        stalled := h.stalled.snoc (mt hrecord.mpr hlt) }

/-- The cause of a stop is recalled besides. -/
theorem Recalls.status (h : m.Recalls first l) (status : Status) :
    ({ m with status } : Monitor A).Recalls first l :=
  ⟨h.initial, h.least, h.undefined, h.stalled⟩

/-- A check takes note of a miss if the mode watches the best norm, and of nothing else but the
cause of a stop. -/
theorem exists_status_check (norm : Norm A) (m : Monitor A) (v : Visit A) :
    ∃ status, (m.check norm v.residual v.iterate).2 =
      { (if m.condition.mode.watchesBest then
          (m.miss? norm v).elim m fun p => m.observe p.1 p.2 else m) with status } := by
  unfold check miss?
  cases m.condition.mode.holds norm m.tolerances v.residual v.iterate with
  | error e => exact ⟨m.status, by simp⟩
  | ok holds =>
    cases holds with
    | true => exact ⟨.success, by simp⟩
    | false =>
      cases m.condition.mode.watchesBest with
      | false => exact ⟨m.status, by simp⟩
      | true =>
        cases norm v.residual with
        | error e => exact ⟨m.status, by simp⟩
        | ok y =>
          simp only [if_true, Option.elim_some, watch]
          split
          · exact ⟨(m.observe y v.iterate).status, rfl⟩
          · exact ⟨(m.observe y v.iterate).status, rfl⟩
          · exact ⟨_, rfl⟩

/-- A further visit is checked after those before it. -/
theorem checked_snoc (norm : Norm A) (m : Monitor A) (visits : List (Visit A)) (v : Visit A) :
    m.checked norm (visits ++ [v]) =
      ((m.checked norm visits).check norm v.residual v.iterate).2 :=
  List.foldl_concat ..

/-- Checks change neither the condition nor the tolerances. -/
theorem checked_configuration (norm : Norm A) (m : Monitor A) (visits : List (Visit A)) :
    (m.checked norm visits).condition = m.condition ∧
      (m.checked norm visits).tolerances = m.tolerances := by
  induction visits using List.reverseRecOn with
  | nil => exact ⟨rfl, rfl⟩
  | append_singleton visits v ih =>
    obtain ⟨hcondition, htolerances⟩ :=
      (m.checked norm visits).check_configuration norm v.residual v.iterate
    rw [checked_snoc]
    exact ⟨hcondition.trans ih.1, htolerances.trans ih.2⟩

/-- In a mode that watches the best norm the monitor recalls all misses. -/
theorem Recalls.checked (hA : A.InStrictOrder) (h : m.Recalls first [])
    (hwatches : m.condition.mode.watchesBest = true) (visits : List (Visit A)) :
    (m.checked norm visits).Recalls first (m.misses norm visits) := by
  induction visits using List.reverseRecOn with
  | nil => exact h
  | append_singleton visits v ih =>
    obtain ⟨hcondition, htolerances⟩ := m.checked_configuration norm visits
    obtain ⟨status, hcheck⟩ := exists_status_check norm (m.checked norm visits) v
    have hmiss : (m.checked norm visits).miss? norm v = m.miss? norm v := by
      rw [miss?, miss?, hcondition, htolerances]
    rw [checked_snoc, hcheck, hcondition, if_pos hwatches, hmiss, misses, List.filterMap_append]
    refine Recalls.status ?_ status
    cases hv : m.miss? norm v with
    | none => simpa [hv, misses] using ih
    | some p => simpa [hv, misses] using ih.observe hA p

/-- In the other modes nothing changes but the cause of a stop. -/
theorem exists_status_checked (hwatches : m.condition.mode.watchesBest = false)
    (visits : List (Visit A)) : ∃ status, m.checked norm visits = { m with status } := by
  induction visits using List.reverseRecOn with
  | nil => exact ⟨m.status, rfl⟩
  | append_singleton visits v ih =>
    obtain ⟨earlier, hchecked⟩ := ih
    obtain ⟨status, hcheck⟩ := exists_status_check norm (m.checked norm visits) v
    refine ⟨status, ?_⟩
    rw [checked_snoc, hcheck, hchecked, if_neg (ne_true_of_eq_false hwatches)]

/-! ## Verdicts -/

/-- Is a norm beyond every number, or above a multiple of the first norm? -/
def Beyond (factor first y : A.Real) : Prop :=
  A.isFinite y = false ∨ A.lt (A.mul factor first) y = true

/-- What is answered about a norm that misses the criterion in a mode that watches the best norm,
and the cause remembered. -/
structure Judged (c : Condition A.toMagnitudes) (first : A.Real) (earlier : Status) (y : A.Real)
    (answer : Attempt A Bool × Monitor A) : Prop where
  infinite : A.isFinite y = false → answer.1 = .ok true ∧ answer.2.status = .unstable
  refused : A.isFinite y = true → ∀ e, c.factor = .error e →
    answer.1 = .error e ∧ answer.2.status = earlier
  unstable : ∀ f, c.factor = .ok f →
    (answer.1 = .ok true ∧ answer.2.status = .unstable ↔ Beyond f first y)
  stalled : ∀ f, c.factor = .ok f →
    (answer.1 = .ok true ∧ answer.2.status = .stalled ↔
      ¬ Beyond f first y ∧ c.stallBudget.isReachedBy (M := A.toMagnitudes) answer.2.stalled = true)
  running : ∀ f, c.factor = .ok f → ¬ Beyond f first y →
    c.stallBudget.isReachedBy (M := A.toMagnitudes) answer.2.stalled = false →
    answer.1 = .ok false ∧ answer.2.status = earlier

/-- A norm diverges if it is beyond what the condition allows. -/
theorem exists_diverges {f : A.Real} (hf : m.condition.factor = .ok f) (y : A.Real) :
    ∃ b, m.diverges y = .ok b ∧ (b = true ↔ Beyond f m.initial y) := by
  obtain ⟨q, hq, hmagnitude⟩ := Attempt.bind_eq_ok.mp hf
  unfold diverges Beyond
  cases A.isFinite y with
  | false => exact ⟨true, rfl, by simp⟩
  | true =>
    refine ⟨A.lt (A.mul f m.initial) y, ?_, by simp⟩
    simp [hq, hmagnitude, bind, Except.bind, pure, Except.pure]

/-- What is answered about a norm, by whether it diverges. -/
theorem watch_of_diverges {y : A.Real} {u : Tensor A} {b : Bool}
    (h : (m.observe y u).diverges y = .ok b) :
    m.watch y u =
      if b then (.ok true, { m.observe y u with status := .unstable })
      else if (m.observe y u).isStalled then (.ok true, { m.observe y u with status := .stalled })
      else (.ok false, m.observe y u) := by
  unfold watch verdict
  simp only [h, bind, Except.bind, pure, Except.pure]
  cases b with
  | true => rfl
  | false => cases (m.observe y u).isStalled <;> rfl

/-- A norm is judged once it has been noted. -/
theorem judged_watch (m : Monitor A) (y : A.Real) (u : Tensor A) :
    Judged m.condition m.initial m.status y (m.watch y u) := by
  obtain ⟨hcondition, -, hinitial, hstatus⟩ := m.observe_kept y u
  have hdiverges (f : A.Real) (hf : m.condition.factor = .ok f) :
      ∃ b, (m.observe y u).diverges y = .ok b ∧ (b = true ↔ Beyond f m.initial y) := by
    rw [← hcondition] at hf
    rw [← hinitial]
    exact exists_diverges hf y
  have hstalled : (m.observe y u).isStalled =
      m.condition.stallBudget.isReachedBy (M := A.toMagnitudes) (m.observe y u).stalled := by
    rw [isStalled, hcondition]
  constructor
  case infinite =>
    intro hfinite
    rw [watch_of_diverges (b := true) (by simp [diverges, hfinite])]
    exact ⟨rfl, rfl⟩
  case refused =>
    intro hfinite e he
    have hrefused : (m.observe y u).diverges y = .error e := by
      rw [← hcondition] at he
      unfold diverges
      rw [if_pos hfinite, ← bind_assoc]
      exact congrArg (· >>= _) he
    have hwatch : m.watch y u = (.error e, m.observe y u) := by
      unfold watch verdict
      simp only [hrefused, bind, Except.bind]
    rw [hwatch]
    exact ⟨rfl, hstatus⟩
  case unstable =>
    intro f hf
    obtain ⟨b, hb, hbeyond⟩ := hdiverges f hf
    rw [watch_of_diverges hb, ← hbeyond]
    cases b with
    | true => simp
    | false => cases (m.observe y u).isStalled <;> simp
  case stalled =>
    intro f hf
    obtain ⟨b, hb, hbeyond⟩ := hdiverges f hf
    rw [watch_of_diverges hb, ← hbeyond]
    cases b with
    | true => simp
    | false => cases h : (m.observe y u).isStalled <;> simp [← hstalled, h]
  case running =>
    intro f hf hbelow hbudget
    obtain ⟨b, hb, hbeyond⟩ := hdiverges f hf
    rw [watch_of_diverges hb] at hbudget ⊢
    cases b with
    | true => exact absurd (hbeyond.mp rfl) hbelow
    | false =>
      cases h : (m.observe y u).isStalled with
      | true => simp [← hstalled, h] at hbudget
      | false => exact ⟨rfl, hstatus⟩

/-! ## Answers -/

/-- A monitor that was made at a residual and its iterate, or started over there. -/
def Begins (norm : Norm A) (residual iterate : Tensor A) (m : Monitor A) : Prop :=
  (∃ choice absolute relative, make choice absolute relative norm residual iterate = .ok m) ∨
    ∃ (earlier : Monitor A) (absolute relative : Setting A.Real),
      earlier.restart absolute relative norm residual iterate = (.ok (), m)

/-- It recalls that residual and that iterate alone. -/
theorem Begins.recalls {residual iterate : Tensor A} (h : m.Begins norm residual iterate) :
    norm residual = .ok m.initial ∧ m.Recalls (m.initial, iterate) [] := by
  rcases h with ⟨choice, absolute, relative, hmake⟩ | ⟨earlier, absolute, relative, hrestart⟩
  · obtain ⟨condition, tolerances, objective, -, -, hnorm, rfl⟩ := make_eq_ok.mp hmake
    exact ⟨hnorm, recalls_start condition tolerances objective iterate⟩
  · unfold restart at hrestart
    cases hnorm : norm residual with
    | error e =>
      rw [hnorm] at hrestart
      cases hrestart
    | ok objective =>
      rw [hnorm] at hrestart
      obtain rfl := (Prod.mk.inj hrestart).2
      exact ⟨rfl, recalls_start _ _ objective iterate⟩

/-- What a monitor that began at an iterate answers, after visits in a row, about one more visit,
and what it recalls then. -/
structure Answers (norm : Norm A) (m : Monitor A) (iterate : Tensor A) (visits : List (Visit A))
    (v : Visit A) (answer : Attempt A Bool × Monitor A) : Prop where
  /-- It reports success if the criterion is met. -/
  success : answer.1 = .ok true ∧ answer.2.status = .success ↔
    m.condition.mode.holds norm m.tolerances v.residual v.iterate = .ok true
  /-- It does so by the criterion written out, for tolerances that are numbers. -/
  criterion : ∀ absolute relative, m.tolerances = ⟨.number absolute, .number relative⟩ →
    (m.condition.mode = .relative → v.residual.shape = v.iterate.shape) →
    (answer.1 = .ok true ∧ answer.2.status = .success ↔
      m.condition.mode.Criterion norm absolute relative v.residual v.iterate)
  /-- In a mode that does not watch the best norm it answers nothing else, and nothing changes. -/
  plain : m.condition.mode.watchesBest = false →
    (∃ status, answer.2 = { m with status }) ∧
      (m.condition.mode.holds norm m.tolerances v.residual v.iterate = .ok false →
        answer = (.ok false, m.checked norm visits))
  /-- In a mode that does it recalls the start and all misses. -/
  recalls : m.condition.mode.watchesBest = true →
    answer.2.Recalls (m.initial, iterate) (m.misses norm (visits ++ [v]))
  /-- The verdict on a miss is that of its norm and of what is recalled. -/
  judged : m.condition.mode.watchesBest = true →
    m.condition.mode.holds norm m.tolerances v.residual v.iterate = .ok false →
    ∀ y, norm v.residual = .ok y →
      Judged m.condition m.initial (m.checked norm visits).status y answer

/-- A check reports success if the criterion is met. -/
theorem check_eq_success_iff (norm : Norm A) (m : Monitor A) (v : Visit A) :
    ((m.check norm v.residual v.iterate).1 = .ok true ∧
        (m.check norm v.residual v.iterate).2.status = .success) ↔
      m.condition.mode.holds norm m.tolerances v.residual v.iterate = .ok true := by
  constructor
  · rintro ⟨hanswer, hstatus⟩
    rcases check_eq_ok (Prod.ext hanswer rfl) with ⟨hholds, -⟩ | ⟨-, hback⟩
    · exact hholds
    · have hfallsBack := hback rfl
      rw [hstatus] at hfallsBack
      cases hfallsBack
  · intro hholds
    rw [check_of_holds hholds]
    exact ⟨rfl, rfl⟩

/-- Checks in a row answer and recall what the whole history determines: whatever function of the
residual the norm is, whatever the condition, the tolerances and the visits, among them visits whose
norms are not numbers. -/
theorem check_answers (hA : A.InStrictOrder) {residual iterate : Tensor A}
    (h : m.Begins norm residual iterate) (visits : List (Visit A)) (v : Visit A) :
    norm residual = .ok m.initial ∧
      Answers norm m iterate visits v
        ((m.checked norm visits).check norm v.residual v.iterate) := by
  obtain ⟨hnorm, hrecalls⟩ := h.recalls
  obtain ⟨hcondition, htolerances⟩ := m.checked_configuration norm visits
  have hsuccess : (((m.checked norm visits).check norm v.residual v.iterate).1 = .ok true ∧
      ((m.checked norm visits).check norm v.residual v.iterate).2.status = .success) ↔
      m.condition.mode.holds norm m.tolerances v.residual v.iterate = .ok true := by
    rw [← hcondition, ← htolerances]
    exact check_eq_success_iff norm (m.checked norm visits) v
  refine ⟨hnorm, hsuccess, ?_, ?_, ?_, ?_⟩
  · intro absolute relative hnumbers hshape
    rw [hsuccess, hnumbers]
    exact Mode.holds_eq_true_iff_of_shape m.condition.mode hshape
  · intro hwatches
    constructor
    · rw [← checked_snoc]
      exact exists_status_checked hwatches (visits ++ [v])
    · intro hholds
      rw [check, hcondition, htolerances, hholds]
      exact if_neg (ne_true_of_eq_false hwatches)
  · intro hwatches
    rw [← checked_snoc]
    exact hrecalls.checked hA hwatches (visits ++ [v])
  · intro hwatches hholds y hy
    have hcheck : (m.checked norm visits).check norm v.residual v.iterate =
        (m.checked norm visits).watch y v.iterate := by
      rw [check, hcondition, htolerances, hholds]
      simp only [hwatches, if_true, hy]
    have hinitial : (m.checked norm visits).initial = m.initial :=
      (hrecalls.checked hA hwatches visits).initial
    rw [hcheck, ← hcondition]
    exact hinitial ▸ judged_watch (m.checked norm visits) y v.iterate

open QuasiNewton.Affine in
/-- A monitor that begins at a residual of three answers the second visit by the history of both. -/
theorem check_answers_affine :
    ∃ m : Monitor Machine.arithmetic, m.Begins .rms (vector double [3]) (vector double [1]) ∧
      Norm.rms (vector double [3]) = .ok m.initial ∧
      Answers .rms m (vector double [1]) [⟨vector double [-2], vector double [2]⟩]
        ⟨vector double [1], vector double [3]⟩
        ((m.checked .rms [⟨vector double [-2], vector double [2]⟩]).check .rms (vector double [1])
          (vector double [3])) := by
  have hmake : (make (.setting .absent) .absent .absent .rms (vector double [3])
      (vector double [1])).toOption.isSome = true := by decide +kernel
  rcases hm : make (.setting .absent) .absent .absent .rms (vector double [3])
      (vector double [1]) with e | m
  · rw [hm] at hmake
    cases hmake
  · have hbegins : m.Begins .rms (vector double [3]) (vector double [1]) := .inl ⟨_, _, _, hm⟩
    exact ⟨m, hbegins, check_answers Machine.magnitudes_inStrictOrder hbegins
      [⟨vector double [-2], vector double [2]⟩] ⟨vector double [1], vector double [3]⟩⟩

end Monitor

end QuasiNewton
