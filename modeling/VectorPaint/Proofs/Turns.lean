/-
# What the pen remembers

A command finds the pen as the commands before it have left it.  Of these the pen keeps four
things: the point where it is, the point where the last move went, the second control point of
the last cubic curve, and the name of the last command, supported or not.  They are kept up at
different times.  The control point outlives all commands that draw no cubic curve, and only the
name tells whether a smooth curve may look at it.

Here a run is cut into its turns, one for each command.  Between two turns the pen can be compared
with the turns that are done (`Pause.Remembers`): no turn spoils what the pen holds of the turns
before it, so it is right at every moment of every run (`pen_remembers`).
-/
import Mathlib.Logic.Relation
import VectorPaint.Proofs.Sequence
import VectorPaint.Proofs.Coordinates

namespace VectorPaint.Path

open Curve (Segment)

variable {v : Viewport} {steps : Int} {pen next : Pen} {relative : Bool} {arg : Nat → Float}
  {segments : List Segment} {command : Command}

/-! ## 1. What a command does to the pen -/

/-- Where the last move went. -/
def Pen.start (pen : Pen) : Point := (pen.startX, pen.startY)

/-- The second control point of the last cubic curve. -/
def Pen.control (pen : Pen) : Point := (pen.controlX, pen.controlY)

/-- The control point seen from the other side of the pen: twice the position less the control
point. -/
def Pen.mirrored (pen : Pen) : Except Fault Point := do
  let x ← (← (Coord.whole 2).mul pen.x).sub pen.controlX
  let y ← (← (Coord.whole 2).mul pen.y).sub pen.controlY
  return (x, y)

/-- Where among its numbers a command has the second control point of a cubic curve, if it draws
one.  The end point follows. -/
def Command.controlPlace? : Command → Option Nat
  | .cubic => some 2
  | .smooth => some 0
  | _ => none

theorem Command.ofName?_letter {name : Text} (h : Command.ofName? name = some command) :
    name = [command.letter] := by
  simpa using List.find?_some h

theorem Command.draw_move (h : Command.move.draw v steps pen relative arg = .ok (segments, next)) :
    next = { pen with x := next.x, y := next.y, startX := next.x, startY := next.y } := by
  obtain ⟨p, -, h⟩ := of_bind_ok h
  cases h
  rfl

theorem Command.draw_close
    (h : Command.close.draw v steps pen relative arg = .ok (segments, next)) :
    next = pen.moveTo pen.start := by
  cases h
  rfl

/-- **A cubic curve, smooth or not,** ends in the points that its numbers name.  A smooth one has
its first control point from the pen. -/
theorem Command.draw_cubic {place : Nat} (hplace : command.controlPlace? = some place)
    (h : command.draw v steps pen relative arg = .ok (segments, next)) :
    ∃ p1 p2 stop points, point v (arg place) (arg (place + 1)) = .ok p2 ∧
      point v (arg (place + 2)) (arg (place + 3)) = .ok stop ∧
      Curve.cubic pen.position p1 p2 stop steps = .ok points ∧
      segments = Curve.chain pen.position points ∧
      next = { pen with controlX := p2.1, controlY := p2.2, x := stop.1, y := stop.2 } ∧
      (command = .smooth → pen.reflected = .ok p1) := by
  have hdraw : ∀ {p1 p2 stop : Point}, drawCubic steps pen p1 p2 stop = .ok (segments, next) →
      ∃ points, Curve.cubic pen.position p1 p2 stop steps = .ok points ∧
        segments = Curve.chain pen.position points ∧
        next = { pen with controlX := p2.1, controlY := p2.2, x := stop.1, y := stop.2 } := by
    intro p1 p2 stop h
    obtain ⟨points, hpoints, h⟩ := of_bind_ok h
    cases h
    exact ⟨points, hpoints, rfl, rfl⟩
  cases command with
  | cubic =>
    cases hplace
    obtain ⟨p1, -, h⟩ := of_bind_ok h
    obtain ⟨p2, hp2, h⟩ := of_bind_ok h
    obtain ⟨stop, hstop, h⟩ := of_bind_ok h
    obtain ⟨points, hpoints, hsegments, hnext⟩ := hdraw h
    exact ⟨p1, p2, stop, points, hp2, hstop, hpoints, hsegments, hnext, fun he => nomatch he⟩
  | smooth =>
    cases hplace
    obtain ⟨p1, hp1, h⟩ := of_bind_ok h
    obtain ⟨p2, hp2, h⟩ := of_bind_ok h
    obtain ⟨stop, hstop, h⟩ := of_bind_ok h
    obtain ⟨points, hpoints, hsegments, hnext⟩ := hdraw h
    exact ⟨p1, p2, stop, points, hp2, hstop, hpoints, hsegments, hnext, fun _ => hp1⟩
  | _ => cases hplace

/-- **All other commands move the pen and do nothing else to it.** -/
theorem Command.draw_moveTo (hplace : command.controlPlace? = none) (hmove : command ≠ .move)
    (h : command.draw v steps pen relative arg = .ok (segments, next)) :
    ∃ p, next = pen.moveTo p := by
  cases command with
  | move => exact absurd rfl hmove
  | cubic | smooth => cases hplace
  | close => exact ⟨_, draw_close h⟩
  | line =>
    obtain ⟨p, -, h⟩ := of_bind_ok h
    cases h
    exact ⟨p, rfl⟩
  | horizontal =>
    obtain ⟨_, -, h⟩ := of_bind_ok h
    obtain ⟨x, -, h⟩ := of_bind_ok h
    cases h
    exact ⟨(x, pen.y), rfl⟩
  | vertical =>
    obtain ⟨_, -, h⟩ := of_bind_ok h
    obtain ⟨y, -, h⟩ := of_bind_ok h
    cases h
    exact ⟨(pen.x, y), rfl⟩
  | quadratic =>
    obtain ⟨_, -, h⟩ := of_bind_ok h
    obtain ⟨stop, -, h⟩ := of_bind_ok h
    obtain ⟨points, -, h⟩ := of_bind_ok h
    cases h
    exact ⟨stop, rfl⟩
  | arc =>
    obtain ⟨stop, -, h⟩ := of_bind_ok h
    obtain ⟨_, -, h⟩ := of_bind_ok h
    obtain ⟨points, -, h⟩ := of_bind_ok h
    cases h
    exact ⟨stop, rfl⟩

/-- No command changes the name of the last one.  That is done when it has ended. -/
theorem Command.previous_of_draw
    (h : command.draw v steps pen relative arg = .ok (segments, next)) :
    next.previous = pen.previous := by
  cases hplace : command.controlPlace? with
  | some place =>
    obtain ⟨p1, p2, stop, points, -, -, -, -, rfl, -⟩ := draw_cubic hplace h
    rfl
  | none =>
    by_cases hmove : command = .move
    · subst hmove
      rw [draw_move h]
    · obtain ⟨p, rfl⟩ := draw_moveTo hplace hmove h
      rfl

/-! ## 2. Turns and the moments between them -/

/-- A command of a run, supported or not, with the tokens behind it, the tokens taken up to its
end, what it drew, and the pen before and behind it. -/
structure Turn where
  token : Text
  rest : List Text
  taken : Nat
  before : Pen
  segments : List Segment
  after : Pen

namespace Turn

/-- The command that a turn is, if it is supported: the one whose letter is the turn's token in
upper case.  (The long s is an s here: its upper case is S.) -/
def command? (t : Turn) : Option Command := Command.ofName? t.token.upper

/-- Whether a turn is a move. -/
def isMove (t : Turn) : Bool := t.command? == some .move

/-- Whether a turn draws a cubic curve, smooth or not. -/
def isCubic (t : Turn) : Bool := (t.command?.bind Command.controlPlace?).isSome

/-- The second control point and the end point of a cubic curve as the numbers behind its command
name them, carried to the device. -/
def Names (v : Viewport) (t : Turn) (control stop : Point) : Prop :=
  ∃ place, t.command?.bind Command.controlPlace? = some place ∧
    point v (argument t.rest place) (argument t.rest (place + 1)) = .ok control ∧
    point v (argument t.rest (place + 2)) (argument t.rest (place + 3)) = .ok stop

/-- What a turn leaves.  The entry of a command is made before its name is kept. -/
def events (t : Turn) : List Event :=
  match t.command? with
  | none => [.unsupported t.token.upper]
  | some command =>
    t.segments.map .drawn ++
      [.done command (isRelative t.token) t.taken { t.after with previous := t.before.previous }]

/-- A turn comes next in front of tokens, with a pen and so many tokens taken, and leaves other
tokens behind it. -/
inductive Comes (v : Viewport) (steps : Int) (taken : Nat) (pen : Pen) :
    List Text → Turn → List Text → Prop
  /-- A command that is not supported passes over tokens. -/
  | unsupported {token : Text} {rest : List Text} (h : Command.ofName? token.upper = none) :
    Comes v steps taken pen (token :: rest)
      ⟨token, rest, taken + 1 + (rest.length - (skip rest).length), pen, [],
        { pen with previous := token.upper }⟩ (skip rest)
  /-- A command that is supported draws and takes its numbers. -/
  | command {token : Text} {rest : List Text} {command : Command} {segments : List Segment}
    {next : Pen} (h : Command.ofName? token.upper = some command)
    (hdraw : command.draw v steps pen (isRelative token) (argument rest) = .ok (segments, next)) :
    Comes v steps taken pen (token :: rest)
      ⟨token, rest, taken + 1 + command.arity, pen, segments,
        { next with previous := token.upper }⟩ (rest.drop command.arity)

end Turn

/-- A moment between two turns: the turns that are done, the last of them first, the tokens taken
so far, the pen, and the tokens that are left. -/
structure Pause where
  turns : List Turn
  taken : Nat
  pen : Pen
  rest : List Text

namespace Pause

variable {m m' : Pause}

/-- The moment before the first turn. -/
def start (tokens : List Text) : Pause := ⟨[], 0, Pen.initial, tokens⟩

/-- What the turns have left, in order. -/
def events (m : Pause) : List Event := m.turns.reverse.flatMap Turn.events

/-- One moment comes after another with one turn between them. -/
inductive Step (v : Viewport) (steps : Int) : Pause → Pause → Prop
  | turn {m : Pause} {t : Turn} {rest : List Text} (h : t.Comes v steps m.taken m.pen m.rest rest) :
    Step v steps m ⟨t :: m.turns, t.taken, t.after, rest⟩

/-- One moment comes after another, at once or later. -/
def Reaches (v : Viewport) (steps : Int) : Pause → Pause → Prop :=
  Relation.ReflTransGen (Step v steps)

/-- The run from a moment on. -/
def run (v : Viewport) (steps : Int) (m : Pause) : Journal Event Progress :=
  interpret v steps m.taken m.pen m.rest

/-- A turn is what a run does next. -/
theorem run_of_comes {t : Turn} {rest : List Text}
    (h : t.Comes v steps m.taken m.pen m.rest rest) :
    m.run v steps = (do
      Journal.enterAll t.events
      interpret v steps t.taken t.after rest) := by
  obtain ⟨turns, taken, pen, tokens⟩ := m
  dsimp only at h
  cases h with
  | unsupported h =>
    rw [run, interpret_unsupported h]
    simp only [Turn.events, Turn.command?, h]
    rfl
  | command h hdraw =>
    rw [run, interpret_command h, Command.run_of_draw hdraw, Journal.bind_ok]
    simp only [Turn.events, Turn.command?, h, ← Command.previous_of_draw hdraw]
    rfl

/-- **A run is cut at its moments:** what the turns have left, and behind it the run from the
moment on. -/
theorem run_of_reaches {tokens : List Text} (h : (start tokens).Reaches v steps m) :
    interpret v steps 0 Pen.initial tokens = (do
      Journal.enterAll m.events
      m.run v steps) := by
  induction h with
  | refl => rfl
  | tail _ hstep ih =>
    obtain ⟨ht⟩ := hstep
    rw [ih, run_of_comes ht]
    simp [events, run, Journal.enterAll, List.append_assoc]

/-- Every turn that is done came next at a moment before. -/
theorem exists_comes_of_mem {tokens : List Text} (h : (start tokens).Reaches v steps m) {t : Turn}
    (ht : t ∈ m.turns) :
    ∃ m' rest, (start tokens).Reaches v steps m' ∧
      t.Comes v steps m'.taken m'.pen m'.rest rest := by
  induction h with
  | refl => exact absurd ht List.not_mem_nil
  | tail hreaches hstep ih =>
    obtain ⟨hcomes⟩ := hstep
    rcases List.mem_cons.mp ht with rfl | ht
    · exact ⟨_, _, hreaches, hcomes⟩
    · exact ih ht

/-- A run without a fault has a turn in front of every token that is left. -/
theorem exists_step {p : Progress} (h : (m.run v steps).outcome = .ok p) (hrest : m.rest ≠ []) :
    ∃ m', Step v steps m m' ∧ m'.rest.length < m.rest.length := by
  obtain ⟨turns, taken, pen, tokens⟩ := m
  cases tokens with
  | nil => exact absurd rfl hrest
  | cons token rest =>
    cases hname : Command.ofName? token.upper with
    | none => exact ⟨_, .turn (.unsupported hname), Nat.lt_succ_of_le (length_skip_le rest)⟩
    | some command =>
      rw [run, interpret_command hname] at h
      obtain ⟨next, hnext, -⟩ := Journal.outcome_bind_eq_ok.mp h
      cases hdraw : command.draw v steps pen (isRelative token) (argument rest) with
      | error fault =>
        rw [Command.run_of_fault hdraw] at hnext
        cases hnext
      | ok r =>
        refine ⟨_, .turn (.command hname hdraw), ?_⟩
        simp only [List.length_drop, List.length_cons]
        omega

/-- **A run without a fault comes to its end,** turn by turn. -/
theorem exists_end {m : Pause} {p : Progress} (h : (m.run v steps).outcome = .ok p) :
    ∃ m', m.Reaches v steps m' ∧ m'.rest = [] ∧ m'.pen = p.pen ∧ m'.taken = p.taken := by
  by_cases hrest : m.rest = []
  · rw [run, hrest, interpret_nil] at h
    cases h
    exact ⟨m, .refl, hrest, rfl, rfl⟩
  · obtain ⟨m', hstep, hlength⟩ := exists_step h hrest
    have hgo : (m'.run v steps).outcome = .ok p := by
      obtain ⟨ht⟩ := hstep
      rw [run_of_comes ht] at h
      obtain ⟨_, -, h⟩ := Journal.outcome_bind_eq_ok.mp h
      exact h
    obtain ⟨last, hreaches, hlast⟩ := exists_end hgo
    exact ⟨last, .head hstep hreaches, hlast⟩
termination_by m.rest.length

/-- A run without a fault is the turns that it comes to its end with. -/
theorem exists_entries {data : Text} {p : Progress} (h : (Path.run v steps data).outcome = .ok p) :
    ∃ m, (start (tokens data)).Reaches v steps m ∧ m.rest = [] ∧ m.pen = p.pen ∧
      (Path.run v steps data).entries = m.events := by
  obtain ⟨m, hreaches, hrest, hpen, -⟩ := exists_end (m := start (tokens data)) h
  refine ⟨m, hreaches, hrest, hpen, ?_⟩
  rw [Path.run, run_of_reaches hreaches, run, hrest, interpret_nil]
  exact List.append_nil _

/-- The moment after one more turn, if there is one. -/
def next? (v : Viewport) (steps : Int) (m : Pause) : Option Pause :=
  match m.rest with
  | [] => none
  | token :: rest =>
    match Command.ofName? token.upper with
    | none =>
      let taken := m.taken + 1 + (rest.length - (skip rest).length)
      let after := { m.pen with previous := token.upper }
      some ⟨⟨token, rest, taken, m.pen, [], after⟩ :: m.turns, taken, after, skip rest⟩
    | some command =>
      match command.draw v steps m.pen (isRelative token) (argument rest) with
      | .error _ => none
      | .ok (segments, next) =>
        let taken := m.taken + 1 + command.arity
        let after := { next with previous := token.upper }
        some ⟨⟨token, rest, taken, m.pen, segments, after⟩ :: m.turns, taken, after,
          rest.drop command.arity⟩

/-- The moment after so many more turns, or the last one. -/
def advance (v : Viewport) (steps : Int) : Nat → Pause → Pause
  | 0, m => m
  | n + 1, m =>
    match m.next? v steps with
    | none => m
    | some m' => advance v steps n m'

theorem step_of_next? (h : m.next? v steps = some m') : Step v steps m m' := by
  obtain ⟨turns, taken, pen, rest⟩ := m
  cases rest with
  | nil => cases h
  | cons token rest =>
    simp only [next?] at h
    split at h
    · rename_i hname
      cases h
      exact .turn (.unsupported hname)
    · rename_i command hname
      split at h
      · cases h
      · rename_i segments next hdraw
        cases h
        exact .turn (.command hname hdraw)

theorem reaches_advance (n : Nat) (m : Pause) : m.Reaches v steps (m.advance v steps n) := by
  induction n generalizing m with
  | zero => exact .refl
  | succ n ih =>
    rw [advance]
    split
    · exact .refl
    · rename_i m' hnext
      exact .head (step_of_next? hnext) (ih m')

theorem length_rest_of_next? (h : m.next? v steps = some m') :
    m'.rest.length < m.rest.length := by
  obtain ⟨turns, taken, pen, rest⟩ := m
  cases rest with
  | nil => cases h
  | cons token rest =>
    simp only [next?] at h
    split at h
    · cases h
      exact Nat.lt_succ_of_le (length_skip_le rest)
    · split at h
      · cases h
      · cases h
        simp only [List.length_drop, List.length_cons]
        omega

/-- Behind its last turn a run leaves nothing. -/
theorem entries_of_next?_eq_none (h : m.next? v steps = none) :
    (m.run v steps).entries = [] := by
  obtain ⟨turns, taken, pen, rest⟩ := m
  cases rest with
  | nil =>
    rw [run, interpret_nil]
    rfl
  | cons token rest =>
    simp only [next?] at h
    split at h
    · cases h
    · rename_i command hname
      split at h
      · rename_i fault hdraw
        rw [run, interpret_command hname, Command.run_of_fault hdraw]
        rfl
      · cases h

/-- Every run has a last turn. -/
theorem exists_last (v : Viewport) (steps : Int) (m : Pause) :
    ∃ m', m.Reaches v steps m' ∧ (m'.run v steps).entries = [] := by
  cases hnext : m.next? v steps with
  | none => exact ⟨m, .refl, entries_of_next?_eq_none hnext⟩
  | some m' =>
    have := length_rest_of_next? hnext
    obtain ⟨last, hreaches, hlast⟩ := exists_last v steps m'
    exact ⟨last, .head (step_of_next? hnext) hreaches, hlast⟩
termination_by m.rest.length

/-- **What a run leaves is what its turns leave,** if it has a fault as well. -/
theorem exists_events (v : Viewport) (steps : Int) (data : Text) :
    ∃ m, (start (tokens data)).Reaches v steps m ∧ (Path.run v steps data).entries = m.events ∧
      ∀ p, (Path.run v steps data).outcome = .ok p → m.rest = [] ∧ m.pen = p.pen := by
  cases houtcome : (Path.run v steps data).outcome with
  | ok p =>
    obtain ⟨m, hreaches, hrest, hpen, hentries⟩ := exists_entries houtcome
    refine ⟨m, hreaches, hentries, ?_⟩
    rintro _ ⟨⟩
    exact ⟨hrest, hpen⟩
  | error fault =>
    obtain ⟨m, hreaches, hlast⟩ := exists_last v steps (start (tokens data))
    refine ⟨m, hreaches, ?_, fun p hp => nomatch hp⟩
    rw [Path.run, run_of_reaches hreaches, Journal.enterAll, Journal.bind_ok, hlast]
    exact List.append_nil _

end Pause

/-! ## 3. What a turn does to the pen -/

namespace Turn

/-- A turn keeps up what the pen holds: each of its points changes with the turns it is about and
with no other. -/
structure KeepsUp (v : Viewport) (t : Turn) : Prop where
  start : t.after.start = if t.isMove then t.after.position else t.before.start
  closed : t.command? = some .close → t.after.position = t.after.start
  cubic : t.isCubic → t.Names v t.after.control t.after.position
  notCubic : t.isCubic = false → t.after.control = t.before.control
  previous : t.after.previous = t.token.upper

/-- **Every turn keeps up what the pen holds.** -/
theorem Comes.keepsUp {t : Turn} {taken : Nat} {tokens rest : List Text}
    (h : t.Comes v steps taken pen tokens rest) : t.before = pen ∧ t.KeepsUp v := by
  cases h with
  | unsupported hname =>
    refine ⟨rfl, ?_, ?_, ?_, fun _ => rfl, rfl⟩
    · simp [isMove, command?, hname, Pen.start]
    · simp [command?, hname]
    · simp [isCubic, command?, hname]
  | @command token rest command segments next hname hdraw =>
    refine ⟨rfl, ?_⟩
    cases hplace : command.controlPlace? with
    | some place =>
      obtain ⟨p1, p2, stop, points, hp2, hstop, -, -, rfl, -⟩ := Command.draw_cubic hplace hdraw
      refine ⟨?_, ?_, fun _ => ⟨place, ?_, hp2, hstop⟩, ?_, rfl⟩
      · have hmove : command ≠ .move := by
          rintro rfl
          cases hplace
        simp [isMove, command?, hname, hmove, Pen.start]
      · rw [command?, hname]
        rintro ⟨⟩
        cases hplace
      · rw [command?, hname]
        exact hplace
      · simp [isCubic, command?, hname, hplace]
    | none =>
      have hcubic : isCubic ⟨token, rest, taken + 1 + command.arity, pen, segments,
          { next with previous := token.upper }⟩ = false := by
        simp [isCubic, command?, hname, hplace]
      by_cases hmove : command = .move
      · subst hmove
        have hnext := Command.draw_move hdraw
        refine ⟨?_, ?_, ?_, fun _ => ?_, rfl⟩
        · rw [hnext]
          simp [isMove, command?, hname, Pen.start, Pen.position]
        · simp [command?, hname]
        · simp [hcubic]
        · rw [hnext]
          rfl
      · obtain ⟨p, hp⟩ := Command.draw_moveTo hplace hmove hdraw
        refine ⟨?_, ?_, ?_, fun _ => ?_, rfl⟩
        · rw [hp]
          simp [isMove, command?, hname, hmove, Pen.start, Pen.moveTo]
        · rw [command?, hname]
          rintro ⟨⟩
          rw [Command.draw_close hdraw]
          rfl
        · simp [hcubic]
        · rw [hp]
          rfl

/-- A turn draws a cubic curve exactly when its token is a C or an S, in either case. -/
theorem isCubic_iff {t : Turn} : t.isCubic ↔ t.token.upper = ['C'] ∨ t.token.upper = ['S'] := by
  unfold isCubic command?
  constructor
  · intro h
    cases hname : Command.ofName? t.token.upper with
    | none => simp [hname] at h
    | some command =>
      have hletter := Command.ofName?_letter hname
      rw [hname, Option.bind_some] at h
      cases command with
      | cubic => exact Or.inl hletter
      | smooth => exact Or.inr hletter
      | _ => cases h
  · rintro (h | h) <;> rw [h] <;> decide

end Turn

/-! ## 4. The pen between two turns -/

namespace Pause

variable {m m' : Pause}

/-- The pen is what the turns make it. -/
structure Remembers (v : Viewport) (m : Pause) : Prop where
  /-- It knows where the last move ended. -/
  start : m.pen.start =
    ((m.turns.find? Turn.isMove).map fun t => t.after.position).getD (.whole 0, .whole 0)
  /-- Right behind a close it is there. -/
  closed : ∀ t ∈ m.turns.head?, t.command? = some .close → m.pen.position = m.pen.start
  /-- It knows the second control point of the last cubic curve. -/
  control : ∀ t ∈ m.turns.find? Turn.isCubic, ∃ stop, t.Names v m.pen.control stop
  /-- Before the first cubic curve it knows none. -/
  uncontrolled : m.turns.find? Turn.isCubic = none → m.pen.control = (.whole 0, .whole 0)
  /-- Right behind a cubic curve it is at the curve's end. -/
  behindCubic : ∀ t ∈ m.turns.head?, t.isCubic → t.Names v m.pen.control m.pen.position
  /-- It knows the name of the last command. -/
  previous : m.pen.previous = (m.turns.head?.map fun t => t.token.upper).getD []

theorem remembers_start (v : Viewport) (tokens : List Text) : (start tokens).Remembers v where
  start := rfl
  closed t ht := by cases ht
  control t ht := by cases ht
  uncontrolled _ := rfl
  behindCubic t ht := by cases ht
  previous := rfl

/-- **A turn keeps the pen right.** -/
theorem remembers_step (h : Step v steps m m') (hm : m.Remembers v) : m'.Remembers v := by
  rcases h with @⟨t, rest, hcomes⟩
  obtain ⟨hbefore, ht⟩ := hcomes.keepsUp
  constructor
  · dsimp only
    rw [ht.start, hbefore, List.find?_cons]
    cases t.isMove with
    | true => rfl
    | false => exact hm.start
  · rintro u ⟨⟩ hclose
    exact ht.closed hclose
  · intro u hu
    dsimp only at hu ⊢
    rw [List.find?_cons] at hu
    cases hcubic : t.isCubic with
    | true =>
      rw [hcubic] at hu
      cases hu
      exact ⟨_, ht.cubic hcubic⟩
    | false =>
      rw [hcubic] at hu
      rw [ht.notCubic hcubic, hbefore]
      exact hm.control u hu
  · dsimp only
    rw [List.find?_cons]
    cases hcubic : t.isCubic with
    | true => exact fun hnone => nomatch hnone
    | false =>
      rw [ht.notCubic hcubic, hbefore]
      exact hm.uncontrolled
  · rintro u ⟨⟩ hcubic
    exact ht.cubic hcubic
  · exact ht.previous

/-- **The pen is right at every moment.** -/
theorem remembers_of_reaches (h : m.Reaches v steps m') (hm : m.Remembers v) : m'.Remembers v := by
  induction h with
  | refl => exact hm
  | tail _ hstep ih => exact remembers_step hstep ih

/-- The command right before a moment was a cubic curve, smooth or not. -/
def FollowsCubic (m : Pause) : Prop := ∃ t ∈ m.turns.head?, t.isCubic

/-- The pen asks for the name of the last command, and so it asks whether that was a cubic
curve. -/
theorem Remembers.previous_iff (hm : m.Remembers v) :
    m.pen.previous = ['C'] ∨ m.pen.previous = ['S'] ↔ m.FollowsCubic := by
  rw [hm.previous, FollowsCubic]
  cases m.turns.head? with
  | none => simp
  | some t => simp [Turn.isCubic_iff]

/-- A turn is a cubic curve from the pen, with a first control point that is seen from the other
side of the pen right behind a cubic curve, and is the pen's position otherwise. -/
structure DrawsSmooth (v : Viewport) (steps : Int) (m : Pause) (t : Turn) (p1 p2 stop : Point) :
    Prop where
  names : t.Names v p2 stop
  curve : ∃ points, Curve.cubic m.pen.position p1 p2 stop steps = .ok points ∧
    t.segments = Curve.chain m.pen.position points
  mirrored : m.FollowsCubic → m.pen.mirrored = .ok p1
  notMirrored : ¬ m.FollowsCubic → p1 = m.pen.position

/-- **A smooth curve looks at the control point exactly behind a cubic curve.** -/
theorem exists_drawsSmooth (hm : m.Remembers v) {t : Turn} {rest : List Text}
    (h : t.Comes v steps m.taken m.pen m.rest rest) (hsmooth : t.command? = some .smooth) :
    ∃ p1 p2 stop, m.DrawsSmooth v steps t p1 p2 stop := by
  obtain ⟨turns, taken, pen, tokens⟩ := m
  dsimp only at h
  cases h with
  | unsupported hname =>
    simp only [Turn.command?, hname] at hsmooth
    cases hsmooth
  | command hname hdraw =>
    simp only [Turn.command?, hname, Option.some.injEq] at hsmooth
    subst hsmooth
    have hplace : Command.smooth.controlPlace? = some 0 := rfl
    obtain ⟨p1, p2, stop, points, hp2, hstop, hpoints, hsegments, -, hp1⟩ :=
      Command.draw_cubic hplace hdraw
    have hreflected : Pen.reflected pen = .ok p1 := hp1 rfl
    refine ⟨p1, p2, stop, ⟨0, ?_, hp2, hstop⟩, ⟨points, hpoints, hsegments⟩, fun hfollows => ?_,
      fun hnot => ?_⟩
    · rw [Turn.command?, hname]
      rfl
    · unfold Pen.reflected at hreflected
      rwa [if_pos (hm.previous_iff.mpr hfollows)] at hreflected
    · unfold Pen.reflected at hreflected
      rw [if_neg (mt hm.previous_iff.mp hnot)] at hreflected
      exact (Except.ok.inj hreflected).symm

end Pause

/-! ## 5. Every moment of every run -/

/-- **The pen holds what it is meant to hold, at every moment of every run.**  A run without a fault
comes to its end turn by turn.  At each moment that a run reaches, it is what its turns have left
and the run from there on, and the pen holds where the last move ended, or the origin; right behind
a close it is at that point.  Its control point is the second one of the last cubic curve, smooth
or not, as the numbers of that curve name it, or the origin.  And a smooth curve that comes next
has its first control point at twice the position less the control point exactly if the command
right before it, supported or not, was a cubic curve, whose end and second control point these two
then are; otherwise its first control point is the position. -/
theorem pen_remembers (v : Viewport) (steps : Int) (data : Text) :
    (∀ p, (run v steps data).outcome = .ok p →
      ∃ m, (Pause.start (tokens data)).Reaches v steps m ∧ m.rest = [] ∧ m.pen = p.pen) ∧
    ∀ m, (Pause.start (tokens data)).Reaches v steps m →
      run v steps data = (do
        Journal.enterAll m.events
        m.run v steps) ∧
      m.Remembers v ∧
      ∀ t rest, t.Comes v steps m.taken m.pen m.rest rest → t.command? = some .smooth →
        ∃ p1 p2 stop, m.DrawsSmooth v steps t p1 p2 stop := by
  refine ⟨fun p hp => ?_, fun m hm => ⟨Pause.run_of_reaches hm, ?_, fun t rest ht hsmooth => ?_⟩⟩
  · obtain ⟨m, hreaches, hrest, hpen, -⟩ :=
      Pause.exists_end (m := Pause.start (tokens data)) hp
    exact ⟨m, hreaches, hrest, hpen⟩
  · exact Pause.remembers_of_reaches hm (Pause.remembers_start v _)
  · exact Pause.exists_drawsSmooth
      (Pause.remembers_of_reaches hm (Pause.remembers_start v _)) ht hsmooth

/-- A move, a curve, a line, two smooth curves, a command that is not supported, and a close. -/
def smoothPath : Text := "M 1 2 C 0 0 3 4 5 6 L 7 7 s 1 1 2 2 S 3 3 4 4 t 9 z".toList

theorem pen_remembers_smoothPath :
    ∃ m, (Pause.start (tokens smoothPath)).Reaches ⟨160, 120, 160.0, 120.0⟩ 2 m ∧ m.rest = [] ∧
      m.Remembers ⟨160, 120, 160.0, 120.0⟩ ∧ m.pen.previous = ['Z'] ∧
      m.pen.position = (.whole 1, .whole 2) ∧ m.pen.control = (.whole 3, .whole 3) := by
  have hpen : (run ⟨160, 120, 160.0, 120.0⟩ 2 smoothPath).outcome.toOption.map (·.pen) =
      some ⟨.whole 1, .whole 2, .whole 1, .whole 2, .whole 3, .whole 3, ['Z']⟩ := by
    decide +kernel
  cases hrun : (run ⟨160, 120, 160.0, 120.0⟩ 2 smoothPath).outcome with
  | error fault =>
    rw [hrun] at hpen
    cases hpen
  | ok p =>
    rw [hrun] at hpen
    obtain ⟨hend, hmoments⟩ := pen_remembers ⟨160, 120, 160.0, 120.0⟩ 2 smoothPath
    obtain ⟨m, hreaches, hrest, hm⟩ := hend p hrun
    refine ⟨m, hreaches, hrest, (hmoments m hreaches).2.1, ?_⟩
    rw [hm.trans (Option.some.inj hpen)]
    exact ⟨rfl, rfl, rfl⟩

end VectorPaint.Path
