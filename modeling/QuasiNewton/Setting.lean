import QuasiNewton.Magnitudes
import QuasiNewton.Text.Quoted

/-!
# Option values as the caller wrote them

An option may be absent, a number, a text or a composite value, and a number remembers how it was
written: as a truth value, a whole number or a real. `Quantity` is a number in that sense and
`Setting` any option value. Comparisons of a quantity are exact, whatever way it was written.
-/

namespace QuasiNewton

/-- A number as it was written. -/
inductive Quantity (ρ : Type) where
  /-- A truth value, which counts as zero or one. -/
  | flag (value : Bool)
  /-- A whole number. -/
  | whole (value : Int)
  /-- A real. -/
  | real (value : ρ)
  deriving DecidableEq

/-- A component of an array as it was written. -/
inductive Component (ρ : Type) where
  /-- A number. -/
  | number (value : Quantity ρ)
  /-- A complex number. -/
  | complex (re im : ρ)

/-- An option value as it was written. -/
inductive Setting (ρ : Type) where
  /-- No value. -/
  | absent
  /-- A number. -/
  | number (value : Quantity ρ)
  /-- A text. -/
  | text (value : String)
  /-- A list of values. -/
  | list (values : List (Setting ρ))
  /-- Named values in their order. -/
  | record (fields : List (String × Setting ρ))

namespace Quantity

variable {M : Magnitudes}

/-- The whole number that a truth value or a whole number stands for. -/
def integer? {ρ : Type} : Quantity ρ → Option Int
  | .flag b => some (if b then 1 else 0)
  | .whole n => some n
  | .real _ => none

/-- The exact order of a quantity and a whole number. -/
def compareInt (q : Quantity M.Real) (n : Int) : Option Ordering :=
  match q with
  | .flag b => some (compare (if b then 1 else 0) n)
  | .whole k => some (compare k n)
  | .real x => M.compareInt x n

/-- Is the quantity below a whole number? -/
def isBelow (q : Quantity M.Real) (n : Int) : Bool := q.compareInt n == some .lt

/-- Is the quantity above a whole number? -/
def isAbove (q : Quantity M.Real) (n : Int) : Bool := q.compareInt n == some .gt

/-- Is the quantity at or below a whole number? -/
def isReachedBy (q : Quantity M.Real) (n : Int) : Bool :=
  q.compareInt n == some .lt || q.compareInt n == some .eq

/-- Is the quantity at or above a whole number? -/
def reaches (q : Quantity M.Real) (n : Int) : Bool :=
  q.compareInt n == some .gt || q.compareInt n == some .eq

/-- Is a magnitude at or below the quantity? -/
def admits (q : Quantity M.Real) (x : M.Real) : Bool :=
  match q with
  | .real y => M.le x y
  | .flag b => (M.compareInt x (if b then 1 else 0)).any (· != .gt)
  | .whole n => (M.compareInt x n).any (· != .gt)

/-- A count that bounds all whole numbers below the quantity. -/
def ceiling : Quantity M.Real → Nat
  | .flag b => if b then 1 else 0
  | .whole n => n.toNat
  | .real x => M.ceiling x

/-- The nearest magnitude, unless a whole number is out of range. -/
def magnitude? : Quantity M.Real → Option M.Real
  | .flag b => M.ofInt? (if b then 1 else 0)
  | .whole n => M.ofInt? n
  | .real x => some x

/-- The written form, given that of a real. -/
def text {ρ : Type} (real : ρ → String) : Quantity ρ → String
  | .flag b => if b then "True" else "False"
  | .whole n => toString n
  | .real x => real x

end Quantity

namespace Setting

variable {ρ : Type}

instance : Inhabited (Setting ρ) := ⟨.absent⟩

/-- The number, if the option is one. -/
def number? : Setting ρ → Option (Quantity ρ)
  | .number q => some q
  | _ => none

/-- Does the option count as switched on? Absent, zero and empty values do not. -/
def isOn {M : Magnitudes} : Setting M.Real → Bool
  | .absent => false
  | .number q => !(q.compareInt 0 == some .eq)
  | .text s => s ≠ ""
  | .list xs => !xs.isEmpty
  | .record fs => !fs.isEmpty

/-- The name of the sort of value. -/
def typeName : Setting ρ → String
  | .absent => "NoneType"
  | .number (.flag _) => "bool"
  | .number (.whole _) => "int"
  | .number (.real _) => "float"
  | .text _ => "str"
  | .list _ => "list"
  | .record _ => "dict"

mutual

/-- The written form of an option value, given that of a real. -/
def display (real : ρ → String) : Setting ρ → String
  | .absent => "None"
  | .number q => q.text real
  | .text s => Text.quoted s
  | .list xs => "[" ++ String.intercalate ", " (displayAll real xs) ++ "]"
  | .record fs => "\x7b" ++ String.intercalate ", " (displayFields real fs) ++ "\x7d"

/-- The written forms of the members of a list. -/
def displayAll (real : ρ → String) : List (Setting ρ) → List String
  | [] => []
  | x :: xs => display real x :: displayAll real xs

/-- The written forms of named values. -/
def displayFields (real : ρ → String) : List (String × Setting ρ) → List String
  | [] => []
  | (name, x) :: fs => (Text.quoted name ++ ": " ++ display real x) :: displayFields real fs

end

end Setting

end QuasiNewton
