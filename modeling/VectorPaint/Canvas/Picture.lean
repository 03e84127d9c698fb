/-
# Pictures in color

A canvas becomes a picture when every index is given its color, over a background that shows
through where the canvas is transparent.  The background's three components must fit a byte
each; the first one that does not is a fault.
-/
import VectorPaint.Canvas.Basic

namespace VectorPaint

/-- The colors of a grid of pixels, row after row from the top. -/
structure Picture where
  width : Nat
  height : Nat
  pixels : Array Rgb
  deriving DecidableEq, Repr

namespace Canvas

/-- Refuses a component of a color that does not fit a byte. -/
def checkComponent (n : Int) : Except Fault Unit :=
  if 0 ≤ n ∧ n ≤ 255 then .ok () else .error (.colorRange n)

/-- Refuses a color of which some component does not fit a byte. -/
def checkBackground (background : Rgb) : Except Fault Unit := do
  checkComponent background.red
  checkComponent background.green
  checkComponent background.blue

/-- The picture of a canvas over a background. -/
def picture (c : Canvas) (background : Rgb) : Except Fault Picture := do
  checkBackground background
  let table := (Array.range 256).map fun (index : Nat) => Palette.color index background
  return ⟨c.width, c.height, c.cells.map fun index => table.getD index.toNat background⟩

end Canvas

end VectorPaint
