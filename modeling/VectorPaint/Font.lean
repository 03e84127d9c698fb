/-
# Fonts

There are three fonts, each with the width and the height of its letters in pixels.  A size in
document units selects the font whose height is nearest to it, the smaller one when two are
equally near.  A size that is not above zero selects the middle font.
-/
import VectorPaint.Text.DecimalDigit
import VectorPaint.Text.Quoted

namespace VectorPaint

/-- A font. -/
structure Font where
  name : Text
  charWidth : Int
  charHeight : Int
  deriving DecidableEq, Repr

namespace Font

/-- The small font. -/
def small : Font := ⟨['f', 'o', 'n', 't', '5'], 6, 5⟩

/-- The middle font. -/
def medium : Font := ⟨['f', 'o', 'n', 't', '8'], 6, 8⟩

/-- The large font. -/
def large : Font := ⟨['f', 'o', 'n', 't', '1', '2'], 12, 12⟩

/-- The fonts with the sizes they stand for, the first of them preferred. -/
def sizes : List (Float × Font) := [(5.0, small), (8.0, medium), (12.0, large)]

/-- The nearer of the font chosen so far and the next one, each with its distance. -/
def nearer (size : Float) (best : Option (Float × Font)) (next : Float × Font) :
    Option (Float × Font) :=
  let d := (size - next.1).abs
  match best with
  | none => some (d, next.2)
  | some (least, font) => if d < least then some (d, next.2) else some (least, font)

/-- The font for a size. -/
def ofSize (size : Float) : Font :=
  if 0.0 < size then
    match sizes.foldl (nearer size) none with
    | some (_, font) => font
    | none => medium
  else medium

/-- A font the way it is shown. -/
def shown (f : Font) : Text :=
  "Font(".toList ++ f.name.quoted ++ ", ".toList ++ Text.ofInt f.charWidth ++ ", ".toList ++
    Text.ofInt f.charHeight ++ [')']

end Font

end VectorPaint
