/-
# Straight lines in pixels

A line between two whole points is walked from pixel to pixel.  One error term decides at each
step whether to go on in the column, in the row or in both, and the walk ends on the second
point.  It takes as many steps as the longer of the two extents.

Before it is walked a line is cut to the canvas grown by one pixel on each side.  The line is
`start + t * extent` for `t` from 0 to 1, and each of the four edges narrows the range of `t`.
An end that is not cut stays exactly where it was.

A line so long that an extent is not a finite float is halved first.
-/
import VectorPaint.Canvas.Basic
import VectorPaint.Curve

namespace VectorPaint.Raster

/-! ## 1. Walking -/

/-- The directions and the extents of a walk: `across` is the horizontal extent, and `down` the
vertical extent with a minus. -/
structure Course where
  across : Int
  down : Int
  stepX : Int
  stepY : Int
  stop : Pixel
  deriving DecidableEq, Repr

/-- The course from one pixel to another. -/
def course (start stop : Pixel) : Course where
  across := (stop.1 - start.1).natAbs
  down := -((stop.2 - start.2).natAbs : Int)
  stepX := if start.1 < stop.1 then 1 else -1
  stepY := if start.2 < stop.2 then 1 else -1
  stop := stop

/-- Where a walk stands, and its error term. -/
structure Stand where
  pixel : Pixel
  error : Int
  deriving DecidableEq, Repr

/-- One step of a walk. -/
def step (w : Course) (s : Stand) : Stand :=
  let twice := 2 * s.error
  let sideways := w.down ≤ twice
  let upright := twice ≤ w.across
  ⟨(if sideways then s.pixel.1 + w.stepX else s.pixel.1,
      if upright then s.pixel.2 + w.stepY else s.pixel.2),
    s.error + (if sideways then w.down else 0) + (if upright then w.across else 0)⟩

/-- The pixels of a walk, up to its stop or for so many steps. -/
def walk (w : Course) : Nat → Stand → List Pixel
  | 0, s => [s.pixel]
  | steps + 1, s => if s.pixel = w.stop then [s.pixel] else s.pixel :: walk w steps (step w s)

/-- The pixels of the line between two pixels. -/
def line (start stop : Pixel) : List Pixel :=
  let w := course start stop
  walk w (max (stop.1 - start.1).natAbs (stop.2 - start.2).natAbs) ⟨start, w.across + w.down⟩

/-! ## 2. Cutting -/

/-- A part of a line, from one parameter to another. -/
structure Span where
  first : Float
  last : Float

/-- The part of a line on the inner side of an edge.  The line moves away from the inside by
`speed`, and starts `room` inside of the edge. -/
def Span.within? (s : Span) (speed room : Float) : Option Span :=
  if speed == 0.0 then if room < 0.0 then none else some s
  else
    let t := room / speed
    if speed < 0.0 then
      if s.last < t then none else some { s with first := if s.first < t then t else s.first }
    else if t < s.first then none
    else some { s with last := if t < s.last then t else s.last }

/-- The part of a line that is on a canvas of the given size, grown by one pixel on each side. -/
def visible? (width height x y dx dy : Float) : Option Span := do
  let s ← Span.within? ⟨0.0, 1.0⟩ (-dx) (x + 1.0)
  let s ← s.within? dx (width - x)
  let s ← s.within? (-dy) (y + 1.0)
  s.within? dy (height - y)

/-- The point of a line at a parameter. -/
def pointAt (x y dx dy t : Float) : Point :=
  (Coord.roundHalfUp (x + t * dx), Coord.roundHalfUp (y + t * dy))

/-- The ends of a line after cutting, in whole pixels. -/
def ends (s : Span) (start stop : Point) (x y dx dy : Float) : Except Fault (Pixel × Pixel) := do
  let start := if 0.0 < s.first then pointAt x y dx dy s.first else start
  let stop := if s.last < 1.0 then pointAt x y dx dy s.last else stop
  let x0 ← start.1.truncate
  let y0 ← start.2.truncate
  let x1 ← stop.1.truncate
  let y1 ← stop.2.truncate
  return ((x0, y0), (x1, y1))

/-! ## 3. Lines on a canvas -/

/-- Whether a line cannot touch a canvas side from 0 to `side`, judged by one coordinate. -/
def misses (side : Int) (a b : Coord) : Bool :=
  (a.greatest b).lt (.whole 0) || (Coord.whole side).le (a.least b)

/-- The pixels that a line is walked over on a canvas of the given size.  Halving is done as often
as the first argument says. -/
def pixels : Nat → Int → Int → Point → Point → Except Fault (List Pixel)
  | halvings, width, height, start, stop => do
    if !(← Coord.allFinite [start.1, start.2, stop.1, stop.2]) then return []
    else if misses width start.1 stop.1 || misses height start.2 stop.2 then return []
    else
      let x ← start.1.toFloat
      let y ← start.2.toFloat
      let dx := (← stop.1.toFloat) - x
      let dy := (← stop.2.toFloat) - y
      if dx.isFinite && dy.isFinite then
        match visible? (← Number.ofWhole width) (← Number.ofWhole height) x y dx dy with
        | none => return []
        | some s =>
          let (a, b) ← ends s start stop x y dx dy
          return line a b
      else
        match halvings with
        | 0 => return []
        | halvings + 1 =>
          let middle : Point :=
            (.real ((← start.1.half) + (← stop.1.half)), .real ((← start.2.half) + (← stop.2.half)))
          return (← pixels halvings width height start middle) ++
            (← pixels halvings width height middle stop)

/-- The halvings after which every extent is finite. -/
def enoughHalvings : Nat := 1

end VectorPaint.Raster
