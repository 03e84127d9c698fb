/-
# Savers

A session asks for one thing of what saves its pictures: what comes of a picture that is to be
saved at a path.  Either it is saved, or it is refused for a reason that is told in words, or a
fault ends the session.  Which formats there are, how a path says which one is meant, and what
a file holds in the end is for the saver to decide, and so is what a refused picture leaves behind.

The library's own saver writes PNG files and knows no other format.
-/
import VectorPaint.Disk
import VectorPaint.Fault

namespace VectorPaint

/-- What comes of a picture that is to be saved, with the disk behind it. -/
inductive Saving where
  | saved (disk : Disk)
  | refused (message : Text) (disk : Disk)

/-- What saves a picture at a path of a disk. -/
abbrev Saver := Disk → Text → Picture → Except Fault Saving

/-- The saver of the library.  A path says by its extension that a PNG file is meant. -/
def Saver.png : Saver := fun disk path p =>
  let extension := FileName.extension path
  if extension ≠ FileName.pictureExtension then
    .ok (.refused ("unknown file extension: ".toList ++ extension) disk)
  else if !Png.canHold p then .ok (.refused "picture too large".toList disk)
  else
    match disk.save path p with
    | .error trouble => .ok (.refused (trouble.message path) disk)
    | .ok next => .ok (.saved next)

end VectorPaint
