/-
# Curves as points

A curve is drawn as a chain of straight lines, so here curves become lists of points.  A Bézier
curve in `steps` steps has `steps + 1` points, from its start to its end; an arc has `steps`
points, its start left out.  Without steps there are no points.

The parameter runs from 0 to 1 in equal steps.  Every point is a weighted sum of the control
points, computed in floats and rounded to whole numbers.  An arc is the part of a circle around
the middle of its ends, from the direction of the start counterclockwise to that of the end.
-/
import VectorPaint.Number.Coord

namespace VectorPaint

/-- A point of the device. -/
abbrev Point := Coord × Coord

namespace Curve

/-! ## 1. Powers -/

/-- The power of a number with a whole exponent that is not zero.  At zero and one it is exact. -/
@[noinline]
def power (x : Float) (n : Nat) : Float :=
  if x == 0.0 then 0.0 else if x == 1.0 then 1.0 else Float.pow x (Float.ofNat n)

/-- The parameter after some of the steps. -/
def parameter (steps taken : Nat) : Float := Number.quotient taken steps

/-! ## 2. Bézier curves -/

/-- One coordinate of a quadratic curve. -/
def quadraticAt (p0 p1 p2 u : Float) : Float :=
  (1.0 - u) * (1.0 - u) * p0 + 2.0 * (1.0 - u) * u * p1 + u * u * p2

/-- One coordinate of a cubic curve. -/
def cubicAt (p0 p1 p2 p3 u : Float) : Float :=
  power (1.0 - u) 3 * p0 + 3.0 * power (1.0 - u) 2 * u * p1 + 3.0 * (1.0 - u) * u * u * p2 +
    u * u * u * p3

/-- A point as two floats. -/
def floats (p : Point) : Except Fault (Float × Float) := do
  return (← p.1.toFloat, ← p.2.toFloat)

/-- The points of a curve whose two coordinates are given by functions of the parameter. -/
def sample (steps : Nat) (x y : Float → Float) : List Point :=
  (List.range (steps + 1)).map fun taken =>
    let u := parameter steps taken
    (Coord.roundHalfUp (x u), Coord.roundHalfUp (y u))

/-- The points of a quadratic curve. -/
def quadratic (p0 p1 p2 : Point) (steps : Int) : Except Fault (List Point) :=
  if steps ≤ 0 then .ok []
  else do
    let (x0, y0) ← floats p0
    let (x1, y1) ← floats p1
    let (x2, y2) ← floats p2
    return sample steps.toNat (quadraticAt x0 x1 x2) (quadraticAt y0 y1 y2)

/-- The points of a cubic curve. -/
def cubic (p0 p1 p2 p3 : Point) (steps : Int) : Except Fault (List Point) :=
  if steps ≤ 0 then .ok []
  else do
    let (x0, y0) ← floats p0
    let (x1, y1) ← floats p1
    let (x2, y2) ← floats p2
    let (x3, y3) ← floats p3
    return sample steps.toNat (cubicAt x0 x1 x2 x3) (cubicAt y0 y1 y2 y3)

/-! ## 3. Arcs -/

/-- Half of a full turn. -/
def pi : Float := 3.141592653589793

/-- The middle between two coordinates. -/
def middle (a b : Coord) : Except Fault Float := do (← a.add b).half

/-- The direction from a center to a point. -/
def direction (p : Point) (cx cy : Float) : Except Fault Float := do
  let dy := (← p.2.toFloat) - cy
  let dx := (← p.1.toFloat) - cx
  return Float.atan2 dy dx

/-- The points of an arc from one point to another, with a given radius. -/
def arc (p0 p1 : Point) (radius : Coord) (steps : Int) : Except Fault (List Point) := do
  let cx ← middle p0.1 p1.1
  let cy ← middle p0.2 p1.2
  let first ← direction p0 cx cy
  let last ← direction p1 cx cy
  let last := if last < first then last + 2.0 * pi else last
  if steps ≤ 0 then return []
  else
    let r ← radius.toFloat
    return (List.range steps.toNat).map fun taken =>
      let angle := first + (last - first) * parameter steps.toNat (taken + 1)
      (Coord.roundHalfUp (cx + r * Float.cos angle), Coord.roundHalfUp (cy + r * Float.sin angle))

/-! ## 4. Chains -/

/-- A straight line between two points. -/
structure Segment where
  start : Point
  stop : Point
  deriving DecidableEq

/-- The lines from a point to the first of a list and on from each to the next. -/
def chain (start : Point) : List Point → List Segment
  | [] => []
  | p :: rest => ⟨start, p⟩ :: chain p rest

end Curve

end VectorPaint
