/-
# The palette

A pixel holds an index.  Index 0 is transparent, and the palette gives the indices 1 to 15 their
colors.  A color written in hexadecimal digits becomes the index of the nearest entry, by the sum
of the squares of the three differences; of equally near entries the first one is taken.  A color
that cannot be read is index 1.
-/
import VectorPaint.Markup.Attribute

namespace VectorPaint

/-- A color in red, green and blue. -/
structure Rgb where
  red : Int
  green : Int
  blue : Int
  deriving DecidableEq, Repr

namespace Palette

/-- The index of a pixel on which nothing was painted. -/
def transparent : Nat := 0

/-- The index of a color that cannot be read. -/
def default : Nat := 1

/-- The colors of the palette with their indices, in the order in which they are preferred. -/
def entries : List (Rgb × Nat) :=
  [(⟨255, 255, 255⟩, 1), (⟨255, 33, 33⟩, 2), (⟨255, 147, 196⟩, 3), (⟨255, 129, 53⟩, 4),
   (⟨255, 246, 9⟩, 5), (⟨36, 156, 170⟩, 6), (⟨120, 220, 82⟩, 7), (⟨0, 63, 173⟩, 8),
   (⟨135, 242, 255⟩, 9), (⟨142, 46, 196⟩, 10), (⟨164, 131, 159⟩, 11), (⟨92, 64, 156⟩, 12),
   (⟨229, 205, 196⟩, 13), (⟨145, 70, 61⟩, 14), (⟨0, 0, 0⟩, 15)]

/-- A distance that no entry is as far away as. -/
def unreachable : Int := 999999

/-- The square of the distance between two colors. -/
def distance (a b : Rgb) : Int :=
  (a.red - b.red) * (a.red - b.red) + (a.green - b.green) * (a.green - b.green) +
    (a.blue - b.blue) * (a.blue - b.blue)

/-- The nearer of the entry chosen so far and the next one, each with its distance. -/
def nearer (color : Rgb) (best : Int × Nat) (entry : Rgb × Nat) : Int × Nat :=
  let d := distance entry.1 color
  if d < best.1 then (d, entry.2) else best

/-- The index of the entry nearest to a color. -/
def nearest (color : Rgb) : Nat := (entries.foldl (nearer color) (unreachable, default)).2

/-- A color's text without the number sign in front. -/
def body : Text → Text
  | '#' :: rest => rest
  | t => t

/-- The three two-digit parts of a color's text. -/
def channelTexts (t : Text) : Text × Text × Text :=
  let b := body t
  (b.take 2, (b.drop 2).take 2, (b.drop 4).take 2)

/-- The color that a text writes, if all three parts start with a number. -/
def parse? (t : Text) : Option Rgb := do
  let (r, g, b) := channelTexts t
  return ⟨← Number.scanHex? r, ← Number.scanHex? g, ← Number.scanHex? b⟩

/-- The three parts of a color's text, each as a float. -/
def channels (t : Text) : Except Fault (Float × Float × Float) := do
  let (r, g, b) := channelTexts t
  return (← Number.readHex r, ← Number.readHex g, ← Number.readHex b)

/-- The index of a color's text. -/
def quantize (t : Text) : Nat :=
  match parse? t with
  | some color => nearest color
  | none => default

/-- The index of the color that an attribute names. -/
def ofAttribute (tag name : Text) : Nat := quantize (Markup.attributeText tag name)

/-- The color of an index.  The background shows where the index is transparent or not in the
palette. -/
def color (index : Int) (background : Rgb) : Rgb :=
  match entries.find? fun entry => (entry.2 : Int) == index with
  | some entry => entry.1
  | none => background

end Palette

end VectorPaint
