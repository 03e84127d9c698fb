/-
# The disk

The command line reads drawings from a disk and saves pictures to it.  A disk is a tree: a place
is the list of the names from the top down, and holds a folder, a file or a saved picture.  All
places above the working folder are folders.

A path leads to a place name by name, from the top if it starts with a slash and from the working
folder otherwise.  A dot stays, two dots go up, and every place on the way must be a folder.
What goes wrong on the way is the trouble that is reported.

There are no links, and nobody is refused anything.  So a file cannot be read only where a path
leads to nothing, through a file or to a folder, where a name is too long, or where a path holds a
zero, and for the same reasons only there is no place for a picture.
-/
import VectorPaint.FileName
import VectorPaint.Text.Utf8
import VectorPaint.Png

namespace VectorPaint

/-- The names that lead to a place, from the top down. -/
abbrev Place := List Text

/-- What a place holds. -/
inductive Entry where
  | folder
  | file (bytes : List UInt8)
  /-- A file as which the library wrote a picture. -/
  | picture (p : Picture)
  deriving DecidableEq

/-- The bytes of a file. -/
def Entry.bytes? : Entry → Option (List UInt8)
  | .folder => none
  | .file bytes => some bytes
  | .picture p => some (Png.encode p)

/-- What is wrong with a path. -/
inductive Trouble where
  | missing
  | notFolder
  | isFolder
  | nameTooLong
  | zeroInName
  deriving DecidableEq, Repr

/-- The message that goes with a trouble on a path. -/
def Trouble.message (path : Text) : Trouble → Text
  | .missing => "[Errno 2] No such file or directory: ".toList ++ path.quoted
  | .notFolder => "[Errno 20] Not a directory: ".toList ++ path.quoted
  | .isFolder => "[Errno 21] Is a directory: ".toList ++ path.quoted
  | .nameTooLong => "[Errno 36] File name too long: ".toList ++ path.quoted
  | .zeroInName => "embedded null byte".toList

/-- A working folder, and what places hold.  Of two entries for a place the first one counts. -/
structure Disk where
  here : Place
  entries : List (Place × Entry)

namespace Disk

/-- The most bytes in a name. -/
def longestName : Nat := 255

/-- The most bytes in a path. -/
def longestPath : Nat := 4095

/-! ## 1. Places -/

/-- What a place holds, if it holds something. -/
def entry? (d : Disk) (place : Place) : Option Entry :=
  if place.isPrefixOf d.here then some .folder
  else (d.entries.find? fun e => e.1 == place).map (·.2)

/-- The disk with a place holding something new. -/
def write (d : Disk) (place : Place) (e : Entry) : Disk :=
  { d with entries := (place, e) :: d.entries }

/-- The place that names lead to from a place. -/
def follow (d : Disk) (place : Place) : List Text → Except Trouble Place
  | [] => .ok place
  | name :: rest =>
    match d.entry? place with
    | none => .error .missing
    | some .folder =>
      if name = ['.'] then d.follow place rest
      else if name = ['.', '.'] then d.follow place.dropLast rest
      else if longestName < name.byteCount then .error .nameTooLong
      else d.follow (place ++ [name]) rest
    | some _ => .error .notFolder

/-- The names in a path. -/
def names (path : Text) : List Text := (Text.pieces '/' path).filter fun name => !name.isEmpty

/-- The place that a path leads to. -/
def locate (d : Disk) (path : Text) : Except Trouble Place :=
  if path.elem (Char.ofNat 0) then .error .zeroInName
  else if path.isEmpty then .error .missing
  else if longestPath < path.byteCount then .error .nameTooLong
  else d.follow (if path.head? = some '/' then [] else d.here) (names path)

/-! ## 2. Asking, reading and saving -/

/-- Whether a path can only lead to a folder. -/
def asksForFolder (path : Text) : Bool := path.endsWith ['/']

/-- What a path leads to. -/
def look (d : Disk) (path : Text) : Except Trouble Entry := do
  match d.entry? (← d.locate path) with
  | none => throw .missing
  | some .folder => return .folder
  | some e => if asksForFolder path then throw .notFolder else return e

/-- Whether a path leads to something. -/
def isThere (d : Disk) (path : Text) : Bool := (d.look path).isOk

/-- Whether a path leads to a folder. -/
def isFolder (d : Disk) (path : Text) : Bool :=
  match d.look path with
  | .ok .folder => true
  | _ => false

/-- The bytes of the file that a path leads to. -/
def read (d : Disk) (path : Text) : Except Trouble (List UInt8) := do
  match (← d.look path).bytes? with
  | none => throw .isFolder
  | some bytes => return bytes

/-- The disk with a picture saved at a path. -/
def save (d : Disk) (path : Text) (p : Picture) : Except Trouble Disk := do
  let place ← d.locate path
  match d.entry? place with
  | some .folder => throw .isFolder
  | some _ => if asksForFolder path then throw .notFolder else return d.write place (.picture p)
  | none => if asksForFolder path then throw .isFolder else return d.write place (.picture p)

end Disk

end VectorPaint
