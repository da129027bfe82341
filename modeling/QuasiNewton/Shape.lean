/-!
# Array shapes

A shape lists the extents of an array, slowest first; its product is the number of elements.
Two shapes combine by `Shape.broadcast?`: they are aligned at the fastest extent, and an extent of
one stretches. `Shape.source` says which element of the smaller array a position of the result
reads. Equal shapes combine to themselves and every position reads itself.
-/

namespace QuasiNewton

/-- The extents of an array, slowest first. -/
abbrev Shape := List Nat

namespace Shape

/-- The number of elements. -/
def size (s : Shape) : Nat := s.foldr (· * ·) 1

/-- Combine extents that are listed fastest first. -/
def broadcastFastest? : List Nat → List Nat → Option (List Nat)
  | [], t => some t
  | s, [] => some s
  | a :: s, b :: t =>
    if a = b then (broadcastFastest? s t).map (a :: ·)
    else if a = 1 then (broadcastFastest? s t).map (b :: ·)
    else if b = 1 then (broadcastFastest? s t).map (a :: ·)
    else none

/-- The shape of an elementwise combination, if the shapes fit. -/
def broadcast? (s t : Shape) : Option Shape :=
  (broadcastFastest? s.reverse t.reverse).map List.reverse

/-- The position read in an array of extents `source` for a position in extents `target`, both
listed fastest first. -/
def sourceFastest : List Nat → List Nat → Nat → Nat
  | extent :: target, own :: source, i =>
    (if own = 1 then 0 else i % extent) + own * sourceFastest target source (i / extent)
  | _, _, _ => 0

/-- The position read in an array of shape `own` for a position of the combination. -/
def source (target own : Shape) (i : Nat) : Nat :=
  if own = target then i else sourceFastest target.reverse own.reverse i

/-- Leading extents of one that exceed a number of dimensions are dropped. -/
def dropLeading (dimensions : Nat) : Shape → Shape
  | 1 :: s => if dimensions < s.length + 1 then dropLeading dimensions s else 1 :: s
  | s => s

/-- The extents other than one. -/
def withoutOnes (s : Shape) : Shape := s.filter (· ≠ 1)

/-- The written form: extents in parentheses, a single extent with a comma after it. -/
def text : Shape → String
  | [n] => "(" ++ toString n ++ ",)"
  | s => "(" ++ String.intercalate ", " (s.map toString) ++ ")"

/-- A shape combines with itself. -/
theorem broadcastFastest?_self (s : List Nat) : broadcastFastest? s s = some s := by
  induction s with
  | nil => rfl
  | cons a s ih => simp [broadcastFastest?, ih]

/-- A shape combines with itself to itself. -/
@[simp] theorem broadcast?_self (s : Shape) : broadcast? s s = some s := by
  simp [broadcast?, broadcastFastest?_self]

/-- An array of the result's own shape is read position by position. -/
@[simp] theorem source_self (s : Shape) (i : Nat) : source s s i = i := by
  simp [source]

end Shape

end QuasiNewton
