/-
# Running a path

A run goes through the tokens from command to command.  Each command leaves the lines that it
draws and then an entry of its own with the pen as it has become.  A command that is not
supported is noted, and the run goes on at the next token that looks like a command.

A run can be started with any pen in front of any tokens, and it answers with the pen and with
the number of tokens taken, which is more than there are when the last command asks for numbers
that are missing.
-/
import VectorPaint.Path.Basic

namespace VectorPaint.Path

/-- What a run leaves. -/
inductive Event where
  /-- A straight line. -/
  | drawn (segment : Curve.Segment)
  /-- A command is done: whether it was relative, the tokens taken so far, and the pen, which
  still names the command before. -/
  | done (command : Command) (relative : Bool) (taken : Nat) (pen : Pen)
  /-- A command that is not supported. -/
  | unsupported (name : Text)
  deriving DecidableEq

/-- Where a run ends. -/
structure Progress where
  pen : Pen
  taken : Nat
  deriving DecidableEq

/-! ## 1. Commands -/

/-- A number of a command, with the pen's coordinate added where the command is relative. -/
def offset (relative : Bool) (x : Float) (base : Coord) : Except Fault Coord :=
  if relative then (Coord.real x).add base else .ok (.real x)

/-- The device point of two numbers of a command that can be relative. -/
def target (v : Viewport) (pen : Pen) (relative : Bool) (x y : Float) : Except Fault Point := do
  let x ← offset relative x pen.x
  let y ← offset relative y pen.y
  v.scalePoint x y

/-- The device point of two numbers. -/
def point (v : Viewport) (x y : Float) : Except Fault Point := v.scalePoint (.real x) (.real y)

/-- A cubic curve from the pen, and the pen behind it. -/
def drawCubic (steps : Int) (pen : Pen) (p1 p2 stop : Point) :
    Except Fault (List Curve.Segment × Pen) := do
  let points ← Curve.cubic pen.position p1 p2 stop steps
  return (Curve.chain pen.position points,
    { pen with controlX := p2.1, controlY := p2.2, x := stop.1, y := stop.2 })

/-- The lesser of an arc's two radii, and not a number if one of them is none. -/
def lesserRadius (rx ry : Float) : Float :=
  if rx.isNaN || ry.isNaN then Number.nan else if ry < rx then ry else rx

/-- What a command draws, and the pen behind it. -/
def Command.draw (v : Viewport) (steps : Int) (pen : Pen) (relative : Bool) (arg : Nat → Float) :
    Command → Except Fault (List Curve.Segment × Pen)
  | .move => do
    let p ← target v pen relative (arg 0) (arg 1)
    return ([], { pen with x := p.1, y := p.2, startX := p.1, startY := p.2 })
  | .line => do
    let p ← target v pen relative (arg 0) (arg 1)
    return ([pen.lineTo p], pen.moveTo p)
  | .horizontal => do
    let x ← v.scaleX (← offset relative (arg 0) pen.x)
    return ([pen.lineTo (x, pen.y)], pen.moveTo (x, pen.y))
  | .vertical => do
    let y ← v.scaleY (← offset relative (arg 0) pen.y)
    return ([pen.lineTo (pen.x, y)], pen.moveTo (pen.x, y))
  | .close =>
    .ok ([pen.lineTo (pen.startX, pen.startY)], pen.moveTo (pen.startX, pen.startY))
  | .cubic => do
    let p1 ← point v (arg 0) (arg 1)
    let p2 ← point v (arg 2) (arg 3)
    let stop ← point v (arg 4) (arg 5)
    drawCubic steps pen p1 p2 stop
  | .smooth => do
    let p1 ← pen.reflected
    let p2 ← point v (arg 0) (arg 1)
    let stop ← point v (arg 2) (arg 3)
    drawCubic steps pen p1 p2 stop
  | .quadratic => do
    let p1 ← point v (arg 0) (arg 1)
    let stop ← point v (arg 2) (arg 3)
    let points ← Curve.quadratic pen.position p1 stop steps
    return (Curve.chain pen.position points, pen.moveTo stop)
  | .arc => do
    let stop ← point v (arg 5) (arg 6)
    let radius ← v.scaleRadius (.real (lesserRadius (arg 0) (arg 1)))
    let points ← Curve.arc pen.position stop (Coord.roundHalfUp radius) steps
    return (Curve.chain pen.position points, pen.moveTo stop)

/-- A command with all that it leaves.  Nothing is left of a command that meets a fault. -/
def Command.run (v : Viewport) (steps : Int) (pen : Pen) (relative : Bool) (taken : Nat)
    (arg : Nat → Float) (command : Command) : Journal Event Pen := do
  let (segments, pen) ← command.draw v steps pen relative arg
  Journal.enterAll (segments.map .drawn)
  Journal.enter (.done command relative taken pen)
  return pen

/-! ## 2. Runs -/

/-- The tokens from the next one on that looks like a command. -/
def skip (rest : List Text) : List Text := rest.dropWhile fun token => !isCommandToken token

theorem length_skip_le (rest : List Text) : (skip rest).length ≤ rest.length :=
  (List.dropWhile_suffix _).length_le

/-- A run through tokens, with so many tokens taken before. -/
def interpret (v : Viewport) (steps : Int) (taken : Nat) (pen : Pen) :
    List Text → Journal Event Progress
  | [] => pure ⟨pen, taken⟩
  | token :: rest =>
    let name := token.upper
    match Command.ofName? name with
    | none => do
      Journal.enter (.unsupported name)
      interpret v steps (taken + 1 + (rest.length - (skip rest).length))
        { pen with previous := name } (skip rest)
    | some command => do
      let taken := taken + 1 + command.arity
      let pen ← command.run v steps pen (isRelative token) taken (argument rest)
      interpret v steps taken { pen with previous := name } (rest.drop command.arity)
termination_by tokens => tokens.length
decreasing_by
  · have := length_skip_le rest
    simp only [List.length_cons]
    omega
  · simp only [List.length_drop, List.length_cons]
    omega

/-- The run of a path's data, with a fresh pen. -/
def run (v : Viewport) (steps : Int) (data : Text) : Journal Event Progress :=
  interpret v steps 0 Pen.initial (tokens data)

end VectorPaint.Path
