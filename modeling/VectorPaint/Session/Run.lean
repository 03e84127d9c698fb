/-
# Sessions

A session reads its arguments, converts the drawings that they name one after the other, and
counts the pictures that were saved.  A drawing that cannot be found, read or saved is reported,
and the session goes on with the next one.

A session leaves the lines that it prints, the records that are worth keeping and the pictures
that it saves, in order, and ends with a result: 0 if every picture was saved, 1 if not, and 2 if
the arguments were bad.  A fault while painting ends it on the spot, and what it left before
stays.

The form of the letters and the saver of the pictures are given to a session.  The command runs
sessions with those of the library (`run`).
-/
import VectorPaint.Session.Options
import VectorPaint.Saver

namespace VectorPaint.Session

/-- What a session leaves. -/
inductive Output where
  /-- A line on the terminal. -/
  | line (t : Text)
  /-- A record that is kept. -/
  | record (r : Record)
  /-- A picture saved at a path. -/
  | saved (path : Text) (p : Picture)
  deriving DecidableEq

/-- The result of a session, and the disk behind it. -/
structure Finish where
  code : Int
  disk : Disk

/-! ## 1. Lines -/

/-- Prints a line. -/
def say (t : Text) : Journal Output Unit := Journal.enter (.line t)

/-- How the command is used. -/
def usage : List Text :=
  ["SVG to palette PNG converter".toList,
   "Usage: svgpalette <svg_file1> [svg_file2] ... [options]".toList,
   [],
   "Options:".toList,
   "  -v, --verbose         Print detailed information and debug logs".toList,
   "  -o, --output PATH     Output directory, or file when converting one SVG".toList,
   "  -w, --width WIDTH     Canvas width in pixels (default: ".toList ++
     Text.ofInt Viewport.standardWidth ++ [')'],
   "  -h, --height HEIGHT   Canvas height in pixels (default: ".toList ++
     Text.ofInt Viewport.standardHeight ++ [')'],
   "  -s, --steps STEPS     Line segments per curve (default: ".toList ++
     Text.ofInt Frame.standardSteps ++ [')'],
   "  -b, --background RGB  Color for transparent pixels as R,G,B (default: 0,0,0)".toList,
   [],
   "Examples:".toList,
   "  svgpalette sprite.svg".toList,
   "  svgpalette *.svg -o out/ -v".toList,
   "  svgpalette sprite.svg -w 320 -h 240 -s 20".toList]

/-- The lines that describe a conversion before it starts. -/
def description (o : Options) (drawing output : Text) (v : Viewport) : List Text :=
  [[],
   "Processing: ".toList ++ drawing,
   "Canvas: ".toList ++ Text.ofInt o.frame.width ++ 'x' :: Text.ofInt o.frame.height,
   "ViewBox: (".toList ++ Number.shown v.viewWidth ++ ", ".toList ++ Number.shown v.viewHeight ++
     [')'],
   "Curve steps: ".toList ++ Text.ofInt o.frame.steps,
   "Output will be: ".toList ++ output]

/-- The line that reports a saved picture. -/
def report (o : Options) (drawing output : Text) : Text :=
  if o.verbose then "[OK] Rendered and saved: ".toList ++ output
  else "[OK] ".toList ++ drawing ++ " -> ".toList ++ output

/-- The last line of a session. -/
def tally (saved named : Nat) : Text :=
  "Processed ".toList ++ Text.ofNat saved ++ '/' :: Text.ofNat named ++
    " file(s) successfully".toList

/-- Whether a record is kept: warnings always, the others when the session is verbose. -/
def isKept (o : Options) (r : Record) : Bool := o.verbose || r.level == .warning

/-! ## 2. One drawing -/

/-- The text of a drawing, or what is wrong with it in words. -/
def readDrawing (disk : Disk) (drawing : Text) : Except Text Text :=
  match disk.read drawing with
  | .error trouble => .error (trouble.message drawing)
  | .ok bytes =>
    match Text.decodeUtf8 bytes with
    | .error flaw => .error flaw.message
    | .ok t => .ok t.uniformLines

/-- The path of a drawing's picture.  An output that is a folder takes the pictures of all
drawings, and one that is not takes the picture of a single drawing. -/
def outputFor (o : Options) (disk : Disk) (drawing : Text) : Journal Output Text :=
  if o.output.isEmpty then pure (FileName.picture drawing)
  else if disk.isFolder o.output then
    pure (FileName.inside o.output (FileName.picture drawing))
  else if o.drawings.length = 1 then pure o.output
  else do
    say "Warning: -o with multiple files requires a directory, not a file".toList
    return FileName.picture drawing

section

variable (letters : Lettering) (saver : Saver)

/-- Converts a drawing.  The answer says whether a picture was saved. -/
def convert (o : Options) (disk : Disk) (drawing output : Text) : Journal Output (Bool × Disk) :=
  if !disk.isThere drawing then do
    say ("Error: File not found: ".toList ++ drawing)
    return (false, disk)
  else do
    if !FileName.isDrawing drawing then
      say ("Warning: ".toList ++ drawing ++ " does not have .svg extension".toList)
    match readDrawing disk drawing with
    | .error message =>
      say ("Error reading ".toList ++ drawing ++ ": ".toList ++ message)
      return (false, disk)
    | .ok source =>
      let doc ← (Document.ofText source o.frame.width o.frame.height).outcome
      if o.verbose then Journal.enterAll ((description o drawing output doc.viewport).map .line)
      let rendering ← Rendering.ofTextWith letters o.frame source
      Journal.enterAll ((rendering.scene.records.filter (isKept o)).map .record)
      let picture ← rendering.canvas.picture o.background
      match ← saver disk output picture with
      | .refused message disk =>
        say ("Error saving PNG: ".toList ++ message)
        return (false, disk)
      | .saved disk =>
        Journal.enter (.saved output picture)
        say (report o drawing output)
        return (true, disk)

/-! ## 3. All drawings -/

/-- Converts drawings one after the other.  The answer counts the pictures that were saved. -/
def convertAll (o : Options) (disk : Disk) (saved : Nat) :
    List Text → Journal Output (Nat × Disk)
  | [] => pure (saved, disk)
  | drawing :: rest => do
    let output ← outputFor o disk drawing
    let (isSaved, disk) ← convert letters saver o disk drawing output
    convertAll o disk (if isSaved then saved + 1 else saved) rest

/-- Converts what the options name. -/
def runOptions (o : Options) (disk : Disk) : Journal Output Finish := do
  let (saved, disk) ← convertAll letters saver o disk 0 o.drawings
  say []
  say (tally saved o.drawings.length)
  return ⟨if saved = o.drawings.length then 0 else 1, disk⟩

/-- A session with its arguments. -/
def runWith (arguments : List Text) (disk : Disk) : Journal Output Finish :=
  if arguments.isEmpty then do
    Journal.enterAll (usage.map .line)
    return ⟨1, disk⟩
  else
    match Options.read arguments with
    | .error complaint => do
      say complaint.message
      return ⟨2, disk⟩
    | .ok o => runOptions letters saver o disk

end

/-- A session with the letters and the saver of the library. -/
def run (arguments : List Text) (disk : Disk) : Journal Output Finish :=
  runWith .blocks .png arguments disk

/-- The lines that a session prints, each ended by a line feed. -/
def printed (outputs : List Output) : Text :=
  outputs.flatMap fun
    | .line t => t ++ ['\n']
    | .record _ => []
    | .saved _ _ => []

/-- The records that a session keeps. -/
def kept (outputs : List Output) : List Record :=
  outputs.filterMap fun
    | .record r => some r
    | .line _ => none
    | .saved _ _ => none

end VectorPaint.Session
