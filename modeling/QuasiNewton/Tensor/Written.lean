import QuasiNewton.Tensor.Elementwise

/-!
# Lists as tensors

An option may be a list: of numbers, or of lists that all have one shape. It stands for the tensor
of its numbers, in the kind that joins the kinds of the numbers as they were written; without any
number it counts as real. Where a number would be compared with every element of a tensor, or would
multiply it, a list does so element by element. A text is refused, and any other value that is no
number is refused as soon as an element meets it.
-/

namespace QuasiNewton

namespace Setting

variable {ρ : Type}

mutual

/-- The extents of nested lists, if lists side by side have the same; other values have none. -/
def shape? : Setting ρ → Option Shape
  | .list xs => listShape? xs
  | _ => some []

/-- The extents of a list with these members. -/
def listShape? : List (Setting ρ) → Option Shape
  | [] => some [0]
  | [x] => (shape? x).map (1 :: ·)
  | x :: y :: rest =>
    match shape? x, listShape? (y :: rest) with
    | some s, some (n :: t) => if s = t then some ((n + 1) :: s) else none
    | _, _ => none

end

mutual

/-- The values in nested lists. -/
def leaves : Setting ρ → List (Setting ρ)
  | .list xs => listLeaves xs
  | x => [x]

/-- The values in a list with these members. -/
def listLeaves : List (Setting ρ) → List (Setting ρ)
  | [] => []
  | x :: xs => leaves x ++ listLeaves xs

end

/-- Is the value neither a number nor a text? -/
def isForeign : Setting ρ → Bool
  | .number _ | .text _ => false
  | .absent | .list _ | .record _ => true

end Setting

namespace Tensor

variable {A : Arithmetic}

/-- The kind that joins the kinds of numbers as they were written. -/
def writtenKind : List (Quantity A.Real) → A.Kind
  | [] => A.written (.real A.zero)
  | q :: qs => qs.foldl (fun k q => A.join k (A.written q)) (A.written q)

/-- The tensor of a shape with numbers as they were written. -/
def ofQuantities (shape : Shape) (numbers : List (Quantity A.Real)) : Tensor A :=
  let kind := writtenKind numbers
  let values := numbers.toArray
  ofFn kind shape fun i => A.ofQuantity kind (values.getD i (.real A.zero))

/-- The tensor that an option stands for beside a tensor. Values that are not numbers may stand in
it as long as no element of the other tensor meets them. -/
def ofSetting (s : Setting A.Real) (beside : Tensor A) : Attempt A (Tensor A) :=
  match s.shape? with
  | none => .error .unsuitableValue
  | some shape =>
    if s.leaves.any (·.isForeign) then
      match Shape.broadcast? shape beside.shape with
      | none => .error .unsuitableValue
      | some common =>
        if common.size = 0 then .ok (full beside.kind shape (A.zeroOf beside.kind))
        else .error .unsuitableType
    else do return ofQuantities shape (← s.leaves.mapM Setting.quantity)

/-- Are the magnitudes of all elements at most a bound? -/
def allAtMost (bound : Setting A.Real) (t : Tensor A) : Attempt A Bool :=
  match bound with
  | .number q => t.allWithin q
  | _ => do t.abs.allLe (← ofSetting bound t)

/-- A multiple by an option. A single whole number repeats a list, which as a bound is the list
itself, or without a bound if it repeats it no times; other single numbers refuse a list. -/
def multiple (factor : Setting A.Real) (t : Tensor A) : Attempt A (Tensor A) :=
  match factor, t.shape with
  | .number q, _ => t.scaleBy q
  | .list xs, [] =>
    if t.kind ≠ A.written (.whole 0) then .error .unsuitableType
    else if A.elemLe t.kind (t.elem 0) (A.zeroOf t.kind) then ofSetting (.list []) t
    else ofSetting (.list xs) t
  | _, _ => do (← ofSetting factor t).times t

end Tensor

end QuasiNewton
