/-
# Ellipses row by row

An ellipse is painted as horizontal lines, one for each row of the document from its top on, a
unit apart.  The first row is the top itself, so rows do not lie at whole numbers in general.

Rows that cannot reach the device are left out: from the position and the height of the device
follows which rows can, with a row to spare on both sides.
-/
import VectorPaint.Scene.Basic
import VectorPaint.Viewport

namespace VectorPaint

/-- A center and two radii, in document units. -/
structure Ellipse where
  cx : Float
  cy : Float
  rx : Float
  ry : Float
  deriving DecidableEq

namespace Ellipse

/-- Whether an ellipse is painted at all. -/
def isProper (e : Ellipse) : Bool :=
  e.cx.isFinite && e.cy.isFinite && e.rx.isFinite && e.ry.isFinite && !(e.ry < 0.0)

/-- The height of a row above or below the center. -/
def rowHeight (e : Ellipse) (whole row : Int) : Except Fault Float := do
  let fraction := e.ry - (← Number.ofWhole whole)
  return (← Number.ofWhole (row - whole)) - fraction

/-- The square of a height in units of the vertical radius.  Without a radius there is none. -/
def heightRatio (e : Ellipse) (y : Float) : Except Fault Float :=
  if e.ry == 0.0 then .ok Number.nan else (Coord.real (y * y)).divideBy (e.ry * e.ry)

/-- Half of the width at a height whose square is given, rounded. -/
def halfWidth (e : Ellipse) (ratio : Float) : Coord :=
  if ratio ≤ 1.0 then Coord.roundHalfUp (e.rx * (1.0 - ratio).sqrt) else .real Number.nan

/-- The line of a row at a height above or below the center. -/
def rowLine (v : Viewport) (e : Ellipse) (y : Float) : Except Fault Shape := do
  let w := e.halfWidth (← e.heightRatio y)
  let x0 ← v.scaleX (← (Coord.real e.cx).sub w)
  let y0 ← v.scaleY (.real (e.cy + y))
  let x1 ← v.scaleX (← (Coord.real e.cx).add w)
  let y1 ← v.scaleY (.real (e.cy + y))
  return .line (x0, y0) (x1, y1)

/-- The lines of rows, up to the first row below the ellipse. -/
def rows (v : Viewport) (e : Ellipse) (whole color : Int) : List Int → Journal Act Unit
  | [] => pure ()
  | row :: rest => do
    let y ← e.rowHeight whole row
    if e.ry < y then pure ()
    else do
      Journal.enter (.paint ⟨← e.rowLine v y, color⟩)
      rows v e whole color rest

/-- The first and the last row that can reach the device. -/
def visibleRows (v : Viewport) (e : Ellipse) (whole : Int) : Except Fault (Int × Int) := do
  let k ← (Coord.whole v.height).divideBy v.viewHeight
  let lastRow := 2 * whole + 1
  let above ← (Coord.real (-0.5)).divideBy k
  let first ← Number.floorWithin 0 (lastRow + 1) (above - e.cy + e.ry - 1.0)
  let below ← (Coord.whole v.height).divideBy k
  let last ← Number.floorWithin (-1) lastRow (below - e.cy + e.ry + 1.0)
  return (first, last)

/-- All lines of an ellipse that can reach the device. -/
def acts (v : Viewport) (e : Ellipse) (color : Int) : Journal Act Unit :=
  if e.isProper then do
    let whole ← Number.floor e.ry
    let (first, last) ← e.visibleRows v whole
    e.rows v whole color (Canvas.interval first (last + 1))
  else pure ()

end Ellipse

end VectorPaint
