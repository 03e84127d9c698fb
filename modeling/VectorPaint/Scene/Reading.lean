/-
# Reading a document

Reading goes through a document from tag to tag.  The nearest tag is noted and read, and reading
goes on behind it, until no tag is left.  The inside of a group is read as a document of its own
for a device of the same size, and becomes a scene inside of the scene.

Reading ends.  Every tag is left behind (`Element.lt_resume`), and every group is less deep than
the document it is in (`Element.depth_groupBody_lt`, `Markup.depth_document_le`).
-/
import VectorPaint.Scene.Element

namespace VectorPaint.Scene

open Markup (Kind)

/-- The scene of a document from a position on, when so many rows of text are stacked already.
The insides of groups, which are less deep than the document, are read by the function given. -/
def readFrom (steps : Int) (doc : Document)
    (readBody : (body : Text) → Markup.depth body < Markup.depth doc.text → Scene)
    (stacked : Int) (position : Nat) : Scene :=
  match hNext : Markup.nextTag? Kind.name Kind.all doc.text position with
  | none => .done stacked
  | some (p, kind) =>
    have hPosition : (position : Int) ≤ p ∧ p < doc.text.length :=
      ⟨(Markup.nextTag?_mark hNext).1, (Markup.nextTag?_mark hNext).2.1⟩
    have hResume : p < Element.resume doc.text p kind := Element.lt_resume hNext
    .act (.note (.tagFound kind.name p))
      (match hBody : (if kind = .group then Element.groupBody? doc.text p else none) with
      | some body =>
        have hDepth : Markup.depth body < Markup.depth doc.text := by
          split at hBody
          · exact Element.depth_groupBody_lt hBody
          · cases hBody
        .group (readBody body hDepth)
          (readFrom steps doc readBody stacked (Element.resume doc.text p kind))
      | none =>
        .ofReading (Element.read doc.viewport steps stacked doc.text p kind) fun stacked =>
          readFrom steps doc readBody stacked (Element.resume doc.text p kind))
termination_by doc.text.length - position
decreasing_by all_goals omega

/-- The scene of a text, for a device of the given size, with curves in so many steps. -/
def read (width height steps : Int) (source : Text) : Scene :=
  match _hDoc : (Document.ofText source width height).outcome with
  | .error fault => .ofReading ((Document.ofText source width height).mapEntries .note) fun _ =>
      .failed fault
  | .ok doc => .ofReading ((Document.ofText source width height).mapEntries .note) fun _ =>
      readFrom steps doc (fun body _ => read width height steps body) 0 0
termination_by Markup.depth source
decreasing_by
  have := Markup.depth_document_le _hDoc
  omega

end VectorPaint.Scene
