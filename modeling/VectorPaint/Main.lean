/-
# The command

Takes what the session can look at from the disk, runs the session, and then prints its lines and
saves its pictures in the order in which the session left them.  A fault ends the command with
its message.
-/
import VectorPaint.Session.Run

open VectorPaint

/-- The starts of a path that end before a slash, and the path itself. -/
def pathStarts (path : Text) : List Text :=
  (List.range (path.length + 1)).filterMap fun n =>
    if n = path.length || path[n]? = some '/' then some (path.take n) else none

/-- The disk with what a path leads to on the machine. -/
def withPath (disk : Disk) (path : Text) : IO Disk := do
  let name := String.ofList path
  match disk.locate path with
  | .error _ => return disk
  | .ok place =>
    let found ← (IO.FS.realPath name).toBaseIO
    match found with
    | .error _ => return disk
    | .ok real =>
      if ← real.isDir then return disk.write place .folder
      else
        match ← (IO.FS.readBinFile real).toBaseIO with
        | .ok bytes => return disk.write place (.file bytes.toList)
        | .error _ => return disk

/-- The paths that a session may look at. -/
def pathsOf (arguments : List Text) : List Text :=
  match Options.read arguments with
  | .error _ => []
  | .ok o =>
    o.drawings ++ [o.output] ++ o.drawings.map FileName.picture ++
      o.drawings.map fun drawing => FileName.inside o.output (FileName.picture drawing)

/-- Lets something that a session leaves be seen. -/
def leave : Session.Output → IO Unit
  | .line t => IO.println (String.ofList t)
  | .record r => IO.eprintln (String.ofList r.line)
  | .saved path p => IO.FS.writeBinFile (String.ofList path) ⟨(Png.encode p).toArray⟩

/-- Runs a session on the machine's disk. -/
def main (arguments : List String) : IO UInt32 := do
  let arguments := arguments.map String.toList
  let working := (← IO.currentDir).toString.toList
  let mut disk : Disk := ⟨Disk.names working, []⟩
  for path in pathsOf arguments do
    for start in pathStarts path do
      disk ← withPath disk start
  let session := Session.run arguments disk
  for output in session.entries do
    leave output
  match session.outcome with
  | .ok finish => return finish.code.toNat.toUInt32
  | .error fault =>
    IO.eprintln (String.ofList fault.message)
    return 1
