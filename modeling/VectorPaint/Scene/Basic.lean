/-
# Scenes

Reading a document gives a scene: what is to be painted and what was noted, in order, with the
groups as scenes inside of it.  A scene ends with the height of the texts that were stacked in
it, or with the fault that stopped the reading.

Painting a scene goes through it in order.  A group is painted on a blank canvas of its own,
which is then put on the canvas that the group belongs to.
-/
import VectorPaint.Canvas.Shape
import VectorPaint.Record

namespace VectorPaint

/-- What reading one element leaves. -/
inductive Act where
  | note (r : Record)
  | paint (p : Paint)
  deriving DecidableEq

/-- What a document says to paint. -/
inductive Scene where
  /-- The end, with the height of the stacked texts. -/
  | done (stacked : Int)
  /-- The end by a fault. -/
  | failed (fault : Fault)
  /-- A note, or something to paint. -/
  | act (a : Act) (rest : Scene)
  /-- A group, painted apart. -/
  | group (body rest : Scene)
  deriving DecidableEq

namespace Scene

/-- A scene with the acts of a reading in front.  The reading's value decides what follows. -/
def ofReading {α : Type} (j : Journal Act α) (next : α → Scene) : Scene :=
  j.entries.foldr .act (match j.outcome with
    | .ok a => next a
    | .error fault => .failed fault)

/-! ## 1. What a scene holds -/

/-- All acts in order, those of groups where the group stands.  A fault ends them. -/
def acts : Scene → List Act × Option Fault
  | .done _ => ([], none)
  | .failed fault => ([], some fault)
  | .act a rest => (a :: rest.acts.1, rest.acts.2)
  | .group body rest =>
    match body.acts with
    | (inner, some fault) => (inner, some fault)
    | (inner, none) => (inner ++ rest.acts.1, rest.acts.2)

/-- The records of a scene and of its groups. -/
def records (s : Scene) : List Record :=
  s.acts.1.filterMap fun
    | .note r => some r
    | .paint _ => none

/-- All that is to be painted, groups taken apart. -/
def paints (s : Scene) : List Paint :=
  s.acts.1.filterMap fun
    | .paint p => some p
    | .note _ => none

/-- The rows of letters that are written on a canvas of the given size. -/
def letters (width height : Int) (s : Scene) : List GlyphRun :=
  s.paints.filterMap fun p =>
    match p.shape.letters? width height with
    | .ok run => run
    | .error _ => none

/-- The height of the texts that were stacked, those of groups left out. -/
def stacked : Scene → Int
  | .done stacked => stacked
  | .failed _ => 0
  | .act _ rest => rest.stacked
  | .group _ rest => rest.stacked

/-! ## 2. Painting -/

/-- The canvas with a scene painted on it, its letters written in the given form. -/
def paintOnWith (letters : Lettering) (c : Canvas) : Scene → Except Fault Canvas
  | .done _ => .ok c
  | .failed fault => .error fault
  | .act (.note _) rest => rest.paintOnWith letters c
  | .act (.paint p) rest => do rest.paintOnWith letters (← c.paintWith letters p)
  | .group body rest => do
    let layer ← body.paintOnWith letters (Canvas.blank c.width c.height)
    rest.paintOnWith letters (c.overlay layer 0 0)

/-- The canvas with a scene painted on it in the letters of the library. -/
def paintOn (c : Canvas) (s : Scene) : Except Fault Canvas := s.paintOnWith .blocks c

end Scene

end VectorPaint
