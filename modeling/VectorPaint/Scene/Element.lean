/-
# Elements

What each kind of element paints, read from the text of its tag.  Numbers that are missing are
zero, and a color is looked up in the palette.

Text elements that are placed at the origin of the device are stacked: the first one is written
at the top, and each one further down by the height of the letters of those before it.
-/
import VectorPaint.Scene.Ellipse
import VectorPaint.Path.Run
import VectorPaint.Markup.Tag
import VectorPaint.Markup.Depth

namespace VectorPaint.Element

open Markup (Kind)

/-! ## 1. Attributes -/

/-- The number of an attribute. -/
def number (tag name : Text) : Journal Act Float :=
  (Markup.attributeNumber tag name).mapEntries .note

/-- The color inside of a shape. -/
def fill (tag : Text) : Int := Palette.ofAttribute tag ['f', 'i', 'l', 'l']

/-- The color of a line. -/
def stroke (tag : Text) : Int := Palette.ofAttribute tag ['s', 't', 'r', 'o', 'k', 'e']

/-- Paints a shape. -/
def paint (shape : Shape) (color : Int) : Journal Act Unit := Journal.enter (.paint ⟨shape, color⟩)

/-! ## 2. Simple shapes -/

/-- A rectangle. -/
def rect (v : Viewport) (tag : Text) : Journal Act Unit := do
  let x ← number tag ['x']
  let y ← number tag ['y']
  let w ← number tag ['w', 'i', 'd', 't', 'h']
  let h ← number tag ['h', 'e', 'i', 'g', 'h', 't']
  paint (.rect (← v.scaleX (.real x)) (← v.scaleY (.real y)) (← v.scaleX (.real w))
    (← v.scaleY (.real h))) (fill tag)

/-- A circle. -/
def circle (v : Viewport) (tag : Text) : Journal Act Unit := do
  let cx ← number tag ['c', 'x']
  let cy ← number tag ['c', 'y']
  let r ← number tag ['r']
  let radius := Coord.roundHalfUp (← v.scaleRadius (.real r))
  paint (.disc (← v.scaleX (.real cx)) (← v.scaleY (.real cy)) radius) (fill tag)

/-- The line between two points of the document. -/
def lineBetween (v : Viewport) (x0 y0 x1 y1 : Float) : Except Fault Shape := do
  let start ← v.scalePoint (.real x0) (.real y0)
  let stop ← v.scalePoint (.real x1) (.real y1)
  return .line start stop

/-- A straight line. -/
def line (v : Viewport) (tag : Text) : Journal Act Unit := do
  let x1 ← number tag ['x', '1']
  let y1 ← number tag ['y', '1']
  let x2 ← number tag ['x', '2']
  let y2 ← number tag ['y', '2']
  paint (← lineBetween v x1 y1 x2 y2) (stroke tag)

/-- An ellipse. -/
def ellipse (v : Viewport) (tag : Text) : Journal Act Unit := do
  let cx ← number tag ['c', 'x']
  let cy ← number tag ['c', 'y']
  let rx ← number tag ['r', 'x']
  let ry ← number tag ['r', 'y']
  Ellipse.acts v ⟨cx, cy, rx, ry⟩ (fill tag)

/-! ## 3. Lines through several points -/

/-- Four coordinates, the ends of a line. -/
abbrev Join := Float × Float × Float × Float

/-- The numbers of a list of points. -/
def coordinates (points : Text) : List Float := (Text.pieces ',' points.trim).map Number.read

/-- The lines from point to point.  A point without a second coordinate is joined, too, with a
coordinate that is not a number. -/
def joins : List Float → List Join
  | x0 :: y0 :: x1 :: rest => (x0, y0, x1, rest.headD Number.nan) :: joins (x1 :: rest)
  | _ => []

/-- The line from the last two coordinates back to the first two, if there are four. -/
def closingJoin : List Float → List Join
  | x0 :: y0 :: x1 :: y1 :: rest =>
    match (x0 :: y0 :: x1 :: y1 :: rest).reverse with
    | yn :: xn :: _ => [(xn, yn, x0, y0)]
    | _ => []
  | _ => []

/-- Draws lines in a color. -/
def drawJoins (v : Viewport) (color : Int) : List Join → Journal Act Unit
  | [] => pure ()
  | (x0, y0, x1, y1) :: rest => do
    paint (← lineBetween v x0 y0 x1 y1) color
    drawJoins v color rest

/-- Lines through points, closed or not. -/
def poly (v : Viewport) (closed : Bool) (tag : Text) : Journal Act Unit :=
  let coords := coordinates (Markup.attributeText tag ['p', 'o', 'i', 'n', 't', 's'])
  drawJoins v (stroke tag) (joins coords ++ if closed then closingJoin coords else [])

/-! ## 4. Paths -/

/-- What an entry of a path's run means for the scene. -/
def actOfEvent (color : Int) : Path.Event → Option Act
  | .drawn s => some (.paint ⟨.line s.start s.stop, color⟩)
  | .done _ _ _ _ => none
  | .unsupported name => some (.note (.unsupportedCommand name))

/-- The data of a path element. -/
def pathData (tag : Text) : Text := Markup.attributeText tag ['d']

/-- A run of a path in a color. -/
def ofRun (color : Int) (j : Journal Path.Event Path.Progress) : Journal Act Path.Progress :=
  ⟨j.entries.filterMap (actOfEvent color), j.outcome⟩

/-- A path. -/
def path (v : Viewport) (steps : Int) (tag : Text) : Journal Act Unit := do
  let _ ← ofRun (stroke tag) (Path.run v steps (pathData tag))

/-! ## 5. Texts -/

/-- What closes a text element. -/
def textCloser : Text := ['<', '/', 't', 'e', 'x', 't', '>']

/-- The tag and the content of a text element, if it is closed. -/
def textParts? (t : Text) (p : Nat) : Option (Text × Text) := do
  let stop ← Text.find? textCloser t p
  let tagStop ← Text.find? ['>'] t p
  return (Text.slice t p (p + tagStop + 1), (Text.slice t (tagStop + 1) stop).trim)

/-- A text, and the height of the stacked texts behind it. -/
def text (v : Viewport) (stacked : Int) (tag content : Text) : Journal Act Int := do
  let x ← v.scaleX (.real (← number tag ['x']))
  let y ← v.scaleY (.real (← number tag ['y']))
  let isStacked := x.sameNumber (.whole 0) && y.sameNumber (.whole 0)
  let font := Font.ofSize (← number tag ['f', 'o', 'n', 't', '-', 's', 'i', 'z', 'e'])
  paint (.text content x (if isStacked then .whole stacked else y) font) (fill tag)
  return if isStacked then stacked + font.charHeight else stacked

/-! ## 6. Where an element ends -/

/-- What closes a group. -/
def groupCloser : Text := ['<', '/', 'g', '>']

/-- What closes definitions. -/
def definitionsCloser : Text := ['<', '/', 'd', 'e', 'f', 's', '>']

/-- The position behind the next occurrence of a closer, or the end of the text. -/
def behind (closer t : Text) (p : Nat) : Nat :=
  match Text.find? closer t p with
  | some stop => stop + closer.length
  | none => t.length

/-- The position behind definitions. -/
def behindDefinitions (t : Text) (p : Nat) : Nat :=
  match Text.find? ['>'] t p with
  | none => t.length
  | some stop =>
    if Markup.closesItself (Text.slice t p (stop + 1)) then stop + 1
    else behind definitionsCloser t stop

/-- What ends the tag of an element without a closer. -/
def terminator : Kind → Text
  | .rect | .ellipse | .polyline | .polygon => [',']
  | _ => ['>']

/-- The position where reading goes on after an element. -/
def resume (t : Text) (p : Nat) : Kind → Nat
  | .text => behind textCloser t p
  | .group => behind groupCloser t p
  | .definitions => behindDefinitions t p
  | kind => Markup.tagEnd t p (terminator kind)

/-- The text of the tag of an element without a closer. -/
def tagOf (t : Text) (p : Nat) (kind : Kind) : Text := (Markup.tagText t p (terminator kind)).1

/-- The text inside of a group, if the group is closed. -/
def groupBody? (t : Text) (p : Nat) : Option Text := do
  let stop ← Text.find? groupCloser t p
  let tagStop := match Text.find? ['>'] t p with
    | some q => min q stop
    | none => stop
  return Text.slice t (tagStop + 1) stop

/-- What an element that is not a group leaves, and the height of the stacked texts behind it. -/
def read (v : Viewport) (steps stacked : Int) (t : Text) (p : Nat) (kind : Kind) :
    Journal Act Int :=
  match kind with
  | .text =>
    match textParts? t p with
    | some (tag, content) => text v stacked tag content
    | none => pure stacked
  | .group => pure stacked
  | .definitions => pure stacked
  | .rect => do rect v (tagOf t p .rect); return stacked
  | .circle => do circle v (tagOf t p .circle); return stacked
  | .line => do line v (tagOf t p .line); return stacked
  | .ellipse => do ellipse v (tagOf t p .ellipse); return stacked
  | .polyline => do poly v false (tagOf t p .polyline); return stacked
  | .polygon => do poly v true (tagOf t p .polygon); return stacked
  | .path => do path v steps (tagOf t p .path); return stacked

/-! ## 7. Reading always goes on -/

/-- A closer ends behind the place where it was looked for. -/
theorem lt_behind {closer t : Text} {p : Nat} (hc : 0 < closer.length) (hp : p < t.length) :
    p < behind closer t p := by
  unfold behind
  split
  · rename_i stop h
    have := (Text.find?_some h).1
    omega
  · exact hp

/-- A terminator that does not stand at a place lies behind it. -/
theorem lt_tagEnd {t : Text} {p : Nat} {c : Char} (hp : p < t.length) (hc : t[p]? ≠ some c) :
    p < Markup.tagEnd t p [c] := by
  unfold Markup.tagEnd
  rw [Text.anchor_natCast]
  cases h : Text.find? [c] t p with
  | none => exact hp
  | some q =>
    obtain ⟨h1, _, rest, h3⟩ := Text.find?_some h
    have hq : t[q]? = some c := by
      have : (t.drop q)[0]? = some c := by
        rw [← h3]
        rfl
      simpa using this
    have hne : p ≠ q := fun he => hc (he ▸ hq)
    have hget : (some q).getD t.length = q := rfl
    omega

/-- **Reading goes on behind the tag.**  Whatever tag is found, the place where reading goes on
lies behind the place where the tag was found. -/
theorem lt_resume {t : Text} {start : Int} {p : Nat} {kind : Kind}
    (h : Markup.nextTag? Kind.name Kind.all t start = some (p, kind)) : p < resume t p kind := by
  obtain ⟨_, hp, hmark⟩ := Markup.nextTag?_mark h
  have hcomma : t[p]? ≠ some ',' := by rcases hmark with h | h <;> rw [h] <;> decide
  have hclose : t[p]? ≠ some '>' := by rcases hmark with h | h <;> rw [h] <;> decide
  cases kind with
  | text => exact lt_behind (by decide) hp
  | group => exact lt_behind (by decide) hp
  | definitions =>
    change p < behindDefinitions t p
    unfold behindDefinitions
    split
    · exact hp
    · rename_i stop hs
      obtain ⟨h1, h2, _⟩ := Text.find?_some hs
      have h3 := Text.find?_add_length_le hs
      simp only [List.length_singleton] at h3
      split
      · omega
      · exact Nat.lt_of_le_of_lt h1 (lt_behind (by decide) (by omega))
  | rect | ellipse | polyline | polygon => exact lt_tagEnd hp hcomma
  | circle | line | path => exact lt_tagEnd hp hclose

/-- **The inside of a group is less deep than the text.** -/
theorem depth_groupBody_lt {t body : Text} {p : Nat} (h : groupBody? t p = some body) :
    body.count '>' < t.count '>' := by
  unfold groupBody? at h
  obtain ⟨stop, hs, h⟩ := Option.bind_eq_some_iff.mp h
  cases h
  exact Markup.depth_slice_lt (Text.find?_some hs).2.2

end VectorPaint.Element
