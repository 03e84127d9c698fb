/-
# Shapes and what they cover

A shape covers pixels of a canvas.  Which ones depends on the shape and on the size of the
canvas, never on what is painted there already; so painting is covering, followed by writing one
index to the covered pixels.

Where a shape has a number that is not finite, no extent or no letters, or lies off the canvas,
nothing is written at all, and then its color does not matter either.

Which pixels a row of letters covers is not for the shape to say: painting takes the form of the
letters as an argument.  The library's own letters are blocks.  In a font with letters `s` pixels
high a letter takes `s / 2` columns, with one column free before the next letter, and the space is
left out.
-/
import VectorPaint.Canvas.Raster
import VectorPaint.Font

namespace VectorPaint

/-- What can be painted, in device coordinates. -/
inductive Shape where
  | rect (x y width height : Coord)
  | disc (x y radius : Coord)
  | line (start stop : Point)
  | text (content : Text) (x y : Coord) (font : Font)
  deriving DecidableEq

/-- A shape in a color. -/
structure Paint where
  shape : Shape
  color : Int
  deriving DecidableEq

/-- Letters in a row at a whole pixel, `size` pixels high. -/
structure GlyphRun where
  content : Text
  x : Int
  y : Int
  size : Int
  deriving DecidableEq, Repr

namespace Shape

/-! ## 1. Rectangles and discs -/

/-- The pixels of a rectangle. -/
def rectPixels (canvasWidth canvasHeight : Int) (x y w h : Coord) :
    Except Fault (Option (List Pixel)) := do
  if !(← Coord.allFinite [x, y, w, h]) then return none
  else if w.le (.whole 0) || h.le (.whole 0) then return none
  else
    let left := max 0 (← x.truncate)
    let top := max 0 (← y.truncate)
    let right := min canvasWidth (← (← x.add w).truncate)
    let bottom := min canvasHeight (← (← y.add h).truncate)
    if right ≤ left ∨ bottom ≤ top then return none
    else return some (Canvas.box left top right bottom)

/-- A whole number as a machine word of 64 bits holds it. -/
def wordOf (n : Int) : Int := Int.bmod n 0x10000000000000000

/-- Whether a whole number fits a machine word of 64 bits. -/
def fitsWord (n : Int) : Bool := wordOf n == n

/-- The square of the distance between a pixel and a center, in machine words. -/
def squaredDistance (center p : Pixel) : Int :=
  let dx := wordOf (p.1 - center.1)
  let dy := wordOf (p.2 - center.2)
  wordOf (wordOf (dx * dx) + wordOf (dy * dy))

/-- The pixels of a disc. -/
def discPixels (canvasWidth canvasHeight : Int) (x y radius : Coord) :
    Except Fault (Option (List Pixel)) := do
  if !(← Coord.allFinite [x, y, radius]) then return none
  else if radius.lt (.whole 0) then return none
  else
    let cx ← x.truncate
    let cy ← y.truncate
    let r ← radius.truncate
    let left := max 0 (cx - r)
    let top := max 0 (cy - r)
    let right := min canvasWidth (cx + r + 1)
    let bottom := min canvasHeight (cy + r + 1)
    if right ≤ left ∨ bottom ≤ top then return none
    else if !(fitsWord cx && fitsWord cy) then .error .wordTooLarge
    else return some ((Canvas.box left top right bottom).filter fun p =>
      squaredDistance (cx, cy) p ≤ r * r)

/-! ## 2. Lines -/

/-- The pixels of a line, if any of them is on the canvas. -/
def linePixels (canvasWidth canvasHeight : Int) (start stop : Point) :
    Except Fault (Option (List Pixel)) := do
  let all ← Raster.pixels Raster.enoughHalvings canvasWidth canvasHeight start stop
  let shown := all.filter fun p =>
    0 ≤ p.1 && p.1 < canvasWidth && 0 ≤ p.2 && p.2 < canvasHeight
  return if shown.isEmpty then none else some shown

/-! ## 3. Letters -/

/-- The most pixels that one letter reaches in any direction. -/
def reach (font : Font) : Int := 2 * font.charHeight

/-- The row of letters that a text is written as, unless it is empty or off the canvas. -/
def glyphRun? (canvasWidth canvasHeight : Int) (content : Text) (x y : Coord) (font : Font) :
    Except Fault (Option GlyphRun) := do
  if content.isEmpty then return none
  else if !(← Coord.allFinite [x, y]) then return none
  else if (Coord.whole canvasWidth).le x || (Coord.whole canvasHeight).le y then return none
  else if (← y.add (.whole (reach font))).lt (.whole 0) then return none
  else if (← x.add (.whole (reach font * content.length))).lt (.whole 0) then return none
  else return some ⟨content, ← x.truncate, ← y.truncate, font.charHeight⟩

/-- The columns from one letter to the next. -/
def advance (size : Int) : Int := size / 2 + 1

/-- The pixels of a row of letters. -/
def glyphPixels (run : GlyphRun) : List Pixel :=
  run.content.zipIdx.flatMap fun (c, i) =>
    if c == ' ' then []
    else
      let left := run.x + i * advance run.size
      Canvas.box left run.y (left + advance run.size - 1) (run.y + run.size)

end Shape

/-- A form of letters: the pixels of a row of letters on a canvas of a given size. -/
abbrev Lettering := (canvasWidth canvasHeight : Int) → GlyphRun → List Pixel

/-- The letters of the library. -/
def Lettering.blocks : Lettering := fun _ _ run => Shape.glyphPixels run

namespace Shape

/-! ## 4. Covering -/

/-- The pixels that a shape covers on a canvas of the given size, its letters written in the given
form, or nothing where it is not painted at all. -/
def coverageWith (letters : Lettering) (canvasWidth canvasHeight : Int) :
    Shape → Except Fault (Option (List Pixel))
  | .rect x y w h => rectPixels canvasWidth canvasHeight x y w h
  | .disc x y r => discPixels canvasWidth canvasHeight x y r
  | .line start stop => linePixels canvasWidth canvasHeight start stop
  | .text content x y font => do
    return (← glyphRun? canvasWidth canvasHeight content x y font).map
      (letters canvasWidth canvasHeight)

/-- The pixels that a shape covers with the letters of the library. -/
def coverage (canvasWidth canvasHeight : Int) (shape : Shape) :
    Except Fault (Option (List Pixel)) :=
  shape.coverageWith .blocks canvasWidth canvasHeight

/-- The letters that a shape writes on a canvas of the given size. -/
def letters? (canvasWidth canvasHeight : Int) : Shape → Except Fault (Option GlyphRun)
  | .text content x y font => glyphRun? canvasWidth canvasHeight content x y font
  | _ => .ok none

end Shape

namespace Canvas

/-- The canvas with a shape painted on it, its letters written in the given form. -/
def paintWith (letters : Lettering) (c : Canvas) (p : Paint) : Except Fault Canvas := do
  match ← p.shape.coverageWith letters c.width c.height with
  | none => return c
  | some pixels => return c.plot pixels (← ink p.color)

/-- The canvas with several shapes painted on it, one after the other. -/
def paintAllWith (letters : Lettering) (c : Canvas) : List Paint → Except Fault Canvas
  | [] => .ok c
  | p :: rest => do (← c.paintWith letters p).paintAllWith letters rest

/-- The canvas with a shape painted on it in the letters of the library. -/
def paint (c : Canvas) (p : Paint) : Except Fault Canvas := c.paintWith .blocks p

/-- The canvas with several shapes painted on it in the letters of the library. -/
def paintAll (c : Canvas) (ps : List Paint) : Except Fault Canvas := c.paintAllWith .blocks ps

/-- The canvas with the lines of a chain drawn in a color. -/
def drawChain (c : Canvas) (start : Point) (points : List Point) (color : Int) :
    Except Fault Canvas :=
  c.paintAll ((Curve.chain start points).map fun s => ⟨.line s.start s.stop, color⟩)

end Canvas

end VectorPaint
