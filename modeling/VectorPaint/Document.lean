/-
# Documents

A document is read for a device of a given size.  Its references are replaced first, with the
definitions of the document itself, and the view box is taken from the text that results.  A
document without a usable view box measures in pixels.
-/
import VectorPaint.Markup.Reuse
import VectorPaint.Viewport

namespace VectorPaint

/-- A text without references, and the viewport it is seen through. -/
structure Document where
  text : Text
  viewport : Viewport

namespace Document

/-- The document that a text is for a device of the given size. -/
def ofText (source : Text) (width height : Int) : Journal Record Document := do
  let text ← Markup.expand (Markup.definitions source) source
  let pixels ← Viewport.ofSize width height none none
  match ← Viewport.viewBox? text with
  | none => return ⟨text, pixels⟩
  | some (w, h) => return ⟨text, { pixels with viewWidth := w, viewHeight := h }⟩

end Document

end VectorPaint
