/-
# Renderings

Rendering a text gives a canvas of the asked size with the text's scene painted on it, and beside
it what is known about the scene: the view box, the steps that curves are drawn in, the records,
the letters, and the height of the stacked texts.
-/
import VectorPaint.Scene.Reading
import VectorPaint.Canvas.Picture

namespace VectorPaint

/-- How a text is rendered: the size of the device, and the steps of curves. -/
structure Frame where
  width : Int
  height : Int
  steps : Int
  deriving DecidableEq, Repr

namespace Frame

/-- The steps of curves where none are asked for. -/
def standardSteps : Int := 10

/-- The steps of curves, the standard ones where none or zero are asked for. -/
def effectiveSteps : Option Int → Int
  | none => standardSteps
  | some steps => if steps = 0 then standardSteps else steps

/-- The frame of a size with the steps that are asked for. -/
def ofSize (width height : Int) (steps : Option Int) : Frame :=
  ⟨width, height, effectiveSteps steps⟩

/-- The size and the steps where nothing is asked for. -/
def standard : Frame := ⟨Viewport.standardWidth, Viewport.standardHeight, standardSteps⟩

end Frame

/-- A painted canvas, the scene on it, and the view box it was seen through. -/
structure Rendering where
  canvas : Canvas
  scene : Scene
  viewWidth : Float
  viewHeight : Float

namespace Rendering

/-- The rendering of a text, its letters written in the given form. -/
def ofTextWith (letters : Lettering) (frame : Frame) (source : Text) :
    Except Fault Rendering := do
  let doc ← (Document.ofText source frame.width frame.height).outcome
  let blank ← Canvas.ofSize frame.width frame.height
  let scene := Scene.read frame.width frame.height frame.steps source
  let canvas ← scene.paintOnWith letters blank
  return ⟨canvas, scene, doc.viewport.viewWidth, doc.viewport.viewHeight⟩

/-- The rendering of a text in the letters of the library. -/
def ofText (frame : Frame) (source : Text) : Except Fault Rendering :=
  ofTextWith .blocks frame source

/-- The rows of letters that were written, those of groups included. -/
def letters (r : Rendering) : List GlyphRun := r.scene.letters r.canvas.width r.canvas.height

end Rendering

/-- The data of a path drawn on a canvas, and the pen at the end. -/
def Canvas.drawPath (c : Canvas) (v : Viewport) (data : Text) (color steps : Int) :
    Except Fault (Canvas × Path.Pen) :=
  let j := Element.ofRun color (Path.run v steps data)
  let scene := Scene.ofReading j fun _ => .done 0
  match scene.paintOn c, j.outcome with
  | .ok canvas, .ok progress => .ok (canvas, progress.pen)
  | .error fault, _ => .error fault
  | _, .error fault => .error fault

end VectorPaint
