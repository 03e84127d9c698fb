/-
# From the document to the device

A document measures in units of its view box, and the device in pixels.  A viewport holds both
sizes and carries coordinates across: a coordinate is multiplied by the device's side, divided by
the view box's, and rounded to the nearest whole number with halves going up.

Radii are measured against a fixed reference width and not against the device.

The view box is the first one that the text of a document names, wherever it stands.  Its four
parts are separated by single spaces, and the last two are its size.
-/
import VectorPaint.Markup.Attribute
import VectorPaint.Number.Coord

namespace VectorPaint

/-- The size of the device in pixels and the size of the view box in document units. -/
structure Viewport where
  width : Int
  height : Int
  viewWidth : Float
  viewHeight : Float
  deriving DecidableEq

namespace Viewport

/-- The device's width where none is asked for. -/
def standardWidth : Int := 160

/-- The device's height where none is asked for. -/
def standardHeight : Int := 120

/-- The width that radii are measured against. -/
def referenceWidth : Float := 160.0

/-- A viewport whose view box has the device's size on each side for which none is given. -/
def ofSize (width height : Int) (viewWidth viewHeight : Option Float) : Except Fault Viewport := do
  let w ← match viewWidth with
    | some w => pure w
    | none => Number.ofWhole width
  let h ← match viewHeight with
    | some h => pure h
    | none => Number.ofWhole height
  return ⟨width, height, w, h⟩

/-! ## 1. Carrying across -/

/-- A coordinate in units of a side of the view box, in pixels of the device's side. -/
def scale (side : Int) (viewSide : Float) (a : Coord) : Except Fault Coord := do
  return Coord.roundHalfUp (← (← a.mul (.whole side)).divideBy viewSide)

/-- A horizontal coordinate in pixels. -/
def scaleX (v : Viewport) (x : Coord) : Except Fault Coord := scale v.width v.viewWidth x

/-- A vertical coordinate in pixels. -/
def scaleY (v : Viewport) (y : Coord) : Except Fault Coord := scale v.height v.viewHeight y

/-- A point in pixels. -/
def scalePoint (v : Viewport) (x y : Coord) : Except Fault (Coord × Coord) := do
  return (← v.scaleX x, ← v.scaleY y)

/-- A radius against the reference width, not rounded. -/
def scaleRadius (v : Viewport) (r : Coord) : Except Fault Float := do
  let ratio ← (Coord.real referenceWidth).divideBy v.viewWidth
  return (← r.toFloat) * ratio

/-! ## 2. The view box of a document -/

/-- The word in front of a view box. -/
def viewBoxKey : Text := ['v', 'i', 'e', 'w', 'B', 'o', 'x', '=']

/-- Whether a view box may have a side of this length. -/
def isUsable (side : Float) : Bool := side.isFinite && 0.0 < side

/-- The size of the view box that a text names, if it names one that can be used. -/
def viewBox? (t : Text) : Journal Record (Option (Float × Float)) :=
  match Markup.valueFrom? viewBoxKey t with
  | none => pure none
  | some value =>
    match Text.pieces ' ' value with
    | [_, _, width, height] =>
      let w := Number.read width
      let h := Number.read height
      if isUsable w && isUsable h then pure (some (w, h))
      else do
        Journal.enter (.viewBoxSize width height)
        return none
    | parts => do
      Journal.enter (.viewBoxParts parts)
      return none

end Viewport

end VectorPaint
