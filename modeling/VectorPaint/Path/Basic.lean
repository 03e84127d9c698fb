/-
# Paths: tokens, commands and the pen

The data of a path is a list of tokens between blanks and commas.  A token that is a supported
letter, in either case, is a command, and a command takes a fixed number of tokens behind it,
whatever they are.  A number that is missing or cannot be read is not a number.

The pen remembers where it is, where the last move went, the second control point of the last
cubic curve, and the name of the last command.  All its points are points of the device.
-/
import VectorPaint.Curve
import VectorPaint.Viewport
import VectorPaint.Text.LetterCase

namespace VectorPaint.Path

/-! ## 1. Tokens -/

/-- Whether a code point separates tokens. -/
def separates (c : Char) : Bool := c == ',' || Text.isBlank c

/-- The tokens of a path's data. -/
def tokens (data : Text) : List Text := Text.words separates data

/-- Whether a text in upper case is not before `A` and not behind `Z`, in the order of words. -/
def isBetweenLetters : Text → Bool
  | [] => false
  | [c] => 'A' ≤ c && c ≤ 'Z'
  | c :: _ => 'A' ≤ c && c < 'Z'

/-- Whether a token looks like a command: one code point whose upper case is a Latin letter, or
starts with one. -/
def isCommandToken : Text → Bool
  | [c] => isBetweenLetters (Text.upperChar c)
  | _ => false

/-- Whether a command's token asks for coordinates relative to the pen. -/
def isRelative : Text → Bool
  | [c] => 'a' ≤ c && c ≤ 'z'
  | _ => false

/-! ## 2. Commands -/

/-- The supported commands. -/
inductive Command where
  | move | line | horizontal | vertical | close | cubic | smooth | quadratic | arc
  deriving DecidableEq, Repr

namespace Command

/-- The letter of a command. -/
def letter : Command → Char
  | .move => 'M'
  | .line => 'L'
  | .horizontal => 'H'
  | .vertical => 'V'
  | .close => 'Z'
  | .cubic => 'C'
  | .smooth => 'S'
  | .quadratic => 'Q'
  | .arc => 'A'

/-- All commands. -/
def all : List Command :=
  [.move, .line, .horizontal, .vertical, .close, .cubic, .smooth, .quadratic, .arc]

/-- The command of a name in upper case. -/
def ofName? (name : Text) : Option Command := all.find? fun command => name == [command.letter]

/-- How many tokens a command takes. -/
def arity : Command → Nat
  | .move => 2
  | .line => 2
  | .horizontal => 1
  | .vertical => 1
  | .close => 0
  | .cubic => 6
  | .smooth => 4
  | .quadratic => 4
  | .arc => 7

end Command

/-- The number at a place among the tokens behind a command. -/
def argument (rest : List Text) (place : Nat) : Float :=
  match rest[place]? with
  | some token => Number.read token
  | none => Number.nan

/-! ## 3. The pen -/

/-- Where drawing stands. -/
structure Pen where
  x : Coord
  y : Coord
  startX : Coord
  startY : Coord
  controlX : Coord
  controlY : Coord
  previous : Text
  deriving DecidableEq

namespace Pen

/-- The pen before the first command. -/
def initial : Pen := ⟨.whole 0, .whole 0, .whole 0, .whole 0, .whole 0, .whole 0, []⟩

/-- Where the pen is. -/
def position (pen : Pen) : Point := (pen.x, pen.y)

/-- The pen at another point. -/
def moveTo (pen : Pen) (p : Point) : Pen := { pen with x := p.1, y := p.2 }

/-- The line from the pen to a point. -/
def lineTo (pen : Pen) (p : Point) : Curve.Segment := ⟨pen.position, p⟩

/-- The first control point of a smooth curve: the last control point seen from the other side of
the pen, if the last command drew a cubic curve, and the pen's position otherwise. -/
def reflected (pen : Pen) : Except Fault Point :=
  if pen.previous = ['C'] ∨ pen.previous = ['S'] then do
    let x ← (← (Coord.whole 2).mul pen.x).sub pen.controlX
    let y ← (← (Coord.whole 2).mul pen.y).sub pen.controlY
    return (x, y)
  else .ok pen.position

end Pen

end VectorPaint.Path
