/-
# Coordinates

A coordinate is a whole number of any size or a float.  Rounding to the device gives whole
numbers, and floats appear where a document's number is not finite or before it is rounded.

Arithmetic on two whole numbers is exact.  As soon as one side is a float the other is rounded
to the nearest float, which fails past the range.  Comparing never rounds.
-/
import VectorPaint.Number.Exact

namespace VectorPaint

open Number

/-- A whole number or a float. -/
inductive Coord where
  | whole (n : Int)
  | real (x : Float)
  deriving DecidableEq

namespace Coord

instance : Inhabited Coord := ⟨.whole 0⟩

/-! ## 1. Conversions -/

/-- The nearest float. -/
def toFloat : Coord → Except Fault Float
  | .whole n => ofWhole n
  | .real x => .ok x

/-- The whole part. -/
def truncate : Coord → Except Fault Int
  | .whole n => .ok n
  | .real x => Number.truncate x

/-- Whether the number is finite.  A whole number must be within the range of the floats to be
asked. -/
def isFinite : Coord → Except Fault Bool
  | .whole n => (ofWhole n).map fun _ => true
  | .real x => .ok x.isFinite

/-- Whether all numbers are finite.  The first that is not ends the question. -/
def allFinite : List Coord → Except Fault Bool
  | [] => .ok true
  | a :: rest => do if ← a.isFinite then allFinite rest else .ok false

/-- Whether the coordinate is a float that is not a number. -/
def isNaN : Coord → Bool
  | .whole _ => false
  | .real x => x.isNaN

/-- The whole number nearest to a float, a half going up.  What is not finite stays. -/
def roundHalfUp (x : Float) : Coord :=
  match scaled? (x + 0.5) with
  | some v => .whole v.floor
  | none => .real x

/-! ## 2. Arithmetic -/

/-- The sum. -/
def add : Coord → Coord → Except Fault Coord
  | .whole m, .whole n => .ok (.whole (m + n))
  | a, b => do return .real ((← a.toFloat) + (← b.toFloat))

/-- The difference. -/
def sub : Coord → Coord → Except Fault Coord
  | .whole m, .whole n => .ok (.whole (m - n))
  | a, b => do return .real ((← a.toFloat) - (← b.toFloat))

/-- The product. -/
def mul : Coord → Coord → Except Fault Coord
  | .whole m, .whole n => .ok (.whole (m * n))
  | a, b => do return .real ((← a.toFloat) * (← b.toFloat))

/-- The quotient by a float. -/
def divideBy (a : Coord) (d : Float) : Except Fault Float := do
  let n ← a.toFloat
  if d == 0.0 then .error .divisionByZero else .ok (n / d)

/-- The half. -/
def half : Coord → Except Fault Float
  | .whole n => halfOfWhole n
  | .real x => .ok (x / 2.0)

/-! ## 3. Order -/

/-- The order between two coordinates, where there is one. -/
def compare? : Coord → Coord → Option Ordering
  | .whole m, .whole n => some (compare m n)
  | .whole m, .real y => (compareWhole? y m).map Ordering.swap
  | .real x, .whole n => compareWhole? x n
  | .real x, .real y => Number.compare? x y

/-- Whether one coordinate is below another. -/
def lt (a b : Coord) : Bool := compare? a b == some .lt

/-- Whether one coordinate is not above another. -/
def le (a b : Coord) : Bool := (compare? a b).any (·.isLE)

/-- Whether two coordinates are the same number. -/
def sameNumber (a b : Coord) : Bool := compare? a b == some .eq

/-- The lesser of two coordinates, the first where they cannot be told apart. -/
def least (a b : Coord) : Coord := if b.lt a then b else a

/-- The greater of two coordinates, the first where they cannot be told apart. -/
def greatest (a b : Coord) : Coord := if a.lt b then b else a

/-- A coordinate held between two bounds. -/
def clamp (a low high : Coord) : Coord := greatest (least a high) low

end Coord

end VectorPaint
