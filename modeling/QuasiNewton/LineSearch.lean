import QuasiNewton.Tensor.Basic

/-!
# Step lengths

A line search chooses how far to go along the search direction: a full step, a fixed length, or
whatever a function of the caller answers. That function is told the number of its call.
-/

namespace QuasiNewton

variable {A : Arithmetic}

/-- A function of the caller that chooses a step length from the number of the call, the iterate
and the direction. A length is a plain number: it takes on the kind of the tensor it multiplies. -/
abbrev SearchFunction (A : Arithmetic) := Nat → Tensor A → Tensor A → Attempt A A.Real

/-- A rule for step lengths. -/
inductive LineSearch (A : Arithmetic) where
  /-- Always one. -/
  | fullStep
  /-- Always the same length. -/
  | fixed (length : A.Real)
  /-- A function of the caller. -/
  | search (f : SearchFunction A)

namespace LineSearch

/-- What a caller may give as a line search. -/
inductive Choice (A : Arithmetic) where
  /-- An option value. -/
  | setting (value : Setting A.Real)
  /-- A function. -/
  | function (f : SearchFunction A)

/-- The rule a caller chose: nothing stands for full steps, a positive number for a fixed length. -/
def ofChoice : Choice A → Attempt A (LineSearch A)
  | .function f => .ok (.search f)
  | .setting .absent => .ok .fullStep
  | .setting (.number (.flag b)) =>
    .error (.unusableLineSearch (Setting.typeName (.number (.flag b) : Setting A.Real)))
  | .setting (.number q) => do
    let length ← q.magnitude (M := A.toMagnitudes)
    if A.compareInt length 0 == some .gt then return .fixed length
    else throw (.badStepLength length)
  | .setting s => .error (.unusableLineSearch s.typeName)

/-- The step length and the number of searches after it was asked for. -/
def length (rule : LineSearch A) (searches : Nat) (iterate direction : Tensor A) :
    Attempt A A.Real × Nat :=
  match rule with
  | .fullStep => (.ok A.one, searches)
  | .fixed length => (.ok length, searches)
  | .search f => (f (searches + 1) iterate direction, searches + 1)

/-- The written form of a rule, given that of a real; a function of the caller has none. -/
def text (real : A.Real → String) : LineSearch A → Option String
  | .fullStep => some "NoLineSearch()"
  | .fixed length => some ("StaticLineSearch(alpha=" ++ real length ++ ")")
  | .search _ => none

end LineSearch

end QuasiNewton
