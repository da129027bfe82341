import QuasiNewton.Machine.Arithmetic
import QuasiNewton.Machine.Elementary
import QuasiNewton.Residual
import QuasiNewton.LineSearch

/-!
# Formulas

A formula computes one component from the arrays a function is called with, and so describes a
residual or a line search. It is evaluated in double precision, complex if the iterate is complex,
and only the chosen branch of a conditional counts. `Formula.System` is a vector of formulas.
-/

namespace QuasiNewton

open Machine

/-- Arrays a formula may read. -/
inductive Formula.Source where
  /-- The iterate. -/
  | iterate
  /-- The parameter. -/
  | parameter
  /-- The search direction. -/
  | direction
  deriving DecidableEq, Repr

/-- Which component of an array is read; positions wrap around. -/
inductive Formula.Position where
  /-- The one that is being computed. -/
  | here
  /-- A fixed one. -/
  | fixed (k : Int)
  /-- The one at a distance from the one that is being computed. -/
  | shifted (distance : Int)
  deriving DecidableEq, Repr

/-- Operations on one number. -/
inductive Formula.Unary where
  /-- The negative. -/
  | neg
  /-- The magnitude. -/
  | abs
  /-- The complex conjugate. -/
  | conj
  /-- An elementary function. -/
  | elementary (f : Elementary)
  deriving DecidableEq, Repr

/-- Operations on two numbers. -/
inductive Formula.Binary where
  /-- The sum. -/
  | add
  /-- The difference. -/
  | sub
  /-- The product. -/
  | mul
  /-- The quotient. -/
  | div
  deriving DecidableEq, Repr

/-- Comparisons of real parts. -/
inductive Formula.Comparison where
  /-- Below. -/
  | less
  /-- Below or equal. -/
  | atMost
  /-- Equal. -/
  | equal
  deriving DecidableEq, Repr

/-- A formula for one component. -/
inductive Formula where
  /-- A number as it was written. -/
  | constant (z : Component Float)
  /-- A component of an array. -/
  | component (source : Formula.Source) (position : Formula.Position)
  /-- The number of the component that is being computed. -/
  | index
  /-- How many components are computed. -/
  | count
  /-- The number of the call. -/
  | calls
  /-- An operation on one number. -/
  | unary (op : Formula.Unary) (a : Formula)
  /-- An operation on two numbers. -/
  | binary (op : Formula.Binary) (a b : Formula)
  /-- A choice between two formulas. -/
  | choose (test : Formula.Comparison) (a b thenCase elseCase : Formula)
  /-- A failure. -/
  | fail (text : String)

namespace Formula

/-- What a function is called with, and the component that is being computed. -/
structure Call where
  /-- The kind in which the formula is evaluated. -/
  kind : Kind
  /-- The iterate. -/
  iterate : Tensor arithmetic
  /-- The parameter, if there is one. -/
  parameter : Option (Tensor arithmetic)
  /-- The search direction, if there is one. -/
  direction : Option (Tensor arithmetic)
  /-- The component that is being computed. -/
  index : Nat
  /-- How many components are computed. -/
  count : Nat
  /-- The number of the call. -/
  calls : Nat

/-- The kind in which formulas are evaluated for an iterate of a kind. -/
def workingKind : Kind → Kind
  | .complex _ => .complex .double
  | _ => .real .double

namespace Call

/-- The array of a source. -/
def array? (c : Call) : Source → Option (Tensor arithmetic)
  | .iterate => some c.iterate
  | .parameter => c.parameter
  | .direction => c.direction

/-- The position a reference stands for. -/
def position (c : Call) : Position → Int
  | .here => c.index
  | .fixed k => k
  | .shifted distance => c.index + distance

/-- A component of an array. -/
def component (c : Call) (source : Source) (position : Position) : Attempt arithmetic Number :=
  match c.array? source with
  | none => .error .unsuitableType
  | some t =>
    if t.size = 0 then .error .unsuitableValue
    else .ok (Number.convert c.kind (t.elem (c.position position % t.size).toNat))

/-- A count as a number. -/
def natural (c : Call) (n : Nat) : Number := Number.convert c.kind (.whole n)

end Call

/-- An operation on one number in a kind. -/
def Unary.apply (k : Kind) (op : Unary) (a : Number) : Number :=
  match op with
  | .neg => Number.neg k a
  | .abs => Number.convert k (Number.abs k a)
  | .conj => Number.conj k a
  | .elementary f => f.apply k a

/-- An operation on two numbers in a kind. -/
def Binary.apply (k : Kind) (op : Binary) (a b : Number) : Number :=
  match op with
  | .add => Number.add k a b
  | .sub => Number.sub k a b
  | .mul => Number.mul k a b
  | .div => Number.div k a b

/-- Does a comparison hold of two real parts? -/
def Comparison.holds : Comparison → Float → Float → Bool
  | .less, x, y => decide (x < y)
  | .atMost, x, y => decide (x ≤ y)
  | .equal, x, y => x == y

/-- The value of a constant in a kind; a complex one has none in a real kind. -/
def constantIn (k : Kind) : Component Float → Attempt arithmetic Number
  | .number q => do return Number.convert k (.real (← q.magnitude (M := magnitudes)))
  | .complex x y =>
    match k with
    | .complex _ => .ok (Number.convert k (.complex x y))
    | _ => .error .unsuitableType

/-- The value of a formula. -/
def eval (c : Call) : Formula → Attempt arithmetic Number
  | .constant z => constantIn c.kind z
  | .component source position => c.component source position
  | .index => .ok (c.natural c.index)
  | .count => .ok (c.natural c.count)
  | .calls => .ok (c.natural c.calls)
  | .unary op a => do return op.apply c.kind (← eval c a)
  | .binary op a b => do
    let x ← eval c a
    let y ← eval c b
    return op.apply c.kind x y
  | .choose test a b thenCase elseCase => do
    let x ← eval c a
    let y ← eval c b
    if test.holds x.re y.re then eval c thenCase else eval c elseCase
  | .fail text => .error (.raised text)

/-- Formulas for the components of a vector. -/
inductive System where
  /-- One formula for each component. -/
  | list (formulas : List Formula)
  /-- The same formula for every component. -/
  | each (formula : Formula)

namespace System

/-- The formulas for a number of components, if there are that many; surplus ones are left out. -/
def formulas? (s : System) (n : Nat) : Option (List Formula) :=
  match s with
  | .list fs => if n ≤ fs.length then some (fs.take n) else none
  | .each f => some (List.replicate n f)

/-- The components of a vector in a shape, as an array of the kind of evaluation. -/
def eval (s : System) (shape : Shape) (iterate : Tensor arithmetic)
    (parameter : Option (Tensor arithmetic)) (calls : Nat) :
    Attempt arithmetic (Tensor arithmetic) := do
  let kind := workingKind iterate.kind
  let n := shape.size
  match s.formulas? n with
  | none => throw .unsuitableValue
  | some fs =>
    let values ← fs.zipIdx.mapM fun (f, i) =>
      f.eval { kind, iterate, parameter, direction := none, index := i, count := n, calls }
    let data := values.toArray
    return Tensor.ofFn (A := arithmetic) kind shape fun i => data.getD i (.whole 0)

end System

/-- How the result of a residual function is laid out. -/
structure Result where
  /-- The kind, if it is not that of the iterate. -/
  kind : Option Kind
  /-- The shape, if it is not that of the iterate. -/
  shape : Option Shape

/-- The residual function of a system, in the form that returns or in the form that writes. The
form that writes has the shape of the iterate. -/
def System.residual (s : System) (result : Result) (writes : Bool) :
    Residual arithmetic (Option (Tensor arithmetic)) :=
  let value (shape : Shape) (calls : Nat) (iterate : Tensor arithmetic)
      (parameter : Option (Tensor arithmetic)) : Attempt arithmetic (Tensor arithmetic) := do
    let raw ← s.eval shape iterate parameter calls
    return raw.castTo (A := arithmetic) (result.kind.getD iterate.kind)
  if writes then
    .writing fun calls _ iterate parameter => value iterate.shape calls iterate parameter
  else
    .returning fun calls iterate parameter =>
      value (result.shape.getD iterate.shape) calls iterate parameter

/-- The line search of a formula, whose real part is the step length. -/
def search (f : Formula) : SearchFunction arithmetic :=
  fun calls iterate direction => do
    let value ← f.eval {
      kind := workingKind iterate.kind
      iterate
      parameter := none
      direction := some direction
      index := 0
      count := iterate.size
      calls }
    return value.re

end Formula

end QuasiNewton
