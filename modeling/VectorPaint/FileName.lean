/-
# File names

A path is a text with slashes.  Its base name stands behind the last slash, and its extension
starts at the last dot of the base name, unless only dots stand before that dot: a name that
starts with its only dot has no extension.
-/
import VectorPaint.Text.Search
import VectorPaint.Text.LetterCase

namespace VectorPaint.FileName

/-- The part of a path behind the last slash. -/
def base (path : Text) : Text := (path.reverse.takeWhile (· != '/')).reverse

/-- A path without its extension, and the extension with its dot. -/
def splitExtension (path : Text) : Text × Text :=
  let name := base path
  let behindDot := (name.reverse.takeWhile (· != '.')).reverse
  let stem := name.take (name.length - behindDot.length - 1)
  if behindDot.length < name.length && stem.any (· != '.') then
    (path.take (path.length - behindDot.length - 1), '.' :: behindDot)
  else (path, [])

/-- The extension of a path in lower case. -/
def extension (path : Text) : Text := (splitExtension path).2.lower

/-- The base name of a path without its extension. -/
def stem (path : Text) : Text := (splitExtension (base path)).1

/-- A name inside of a folder. -/
def inside (folder name : Text) : Text :=
  if name.head? = some '/' then name
  else if folder.isEmpty || folder.endsWith ['/'] then folder ++ name
  else folder ++ '/' :: name

/-- What a drawing's name ends in. -/
def drawingExtension : Text := ['.', 's', 'v', 'g']

/-- What a picture's name ends in. -/
def pictureExtension : Text := ['.', 'p', 'n', 'g']

/-- Whether a path is named like a drawing. -/
def isDrawing (path : Text) : Bool := path.lower.endsWith drawingExtension

/-- The name of the picture of a drawing. -/
def picture (path : Text) : Text := stem path ++ pictureExtension

end VectorPaint.FileName
