/-
# Paths run one command after the other

A run moves through the tokens of a path in steps of different sizes.  A command takes as many
tokens as it has numbers, an arc takes three more that nobody reads, a command at the end takes
tokens that are not there, and a command that is not supported takes all tokens up to the next one
that looks like a command.  In spite of this a run has no memory of its tokens: what it does with
the rest follows from the rest and from the pen.

So a path can be cut wherever a run through the first part ends exactly at the cut.  The run
through both parts is the run through the first part, and behind it the run through the second
part with the pen that the first one left (`run_sequential`).  The cut must not fall into the
tokens that are skipped behind a command that is not supported.
-/
import VectorPaint.Path.Run

namespace VectorPaint

/-- What follows a computation matters only for the value that it has. -/
theorem Journal.bind_congr {ε α β : Type} {j : Journal ε α} {f g : α → Journal ε β}
    (h : ∀ a, j.outcome = .ok a → f a = g a) : j >>= f = j >>= g := by
  obtain ⟨es, r⟩ := j
  cases r with
  | error fault => rfl
  | ok a => rw [Journal.bind_ok, Journal.bind_ok, h a rfl]

namespace Path

variable {v : Viewport} {steps : Int}

/-! ## 1. A command and its numbers -/

theorem argument_append {rest : List Text} {place : Nat} (h : place < rest.length)
    (more : List Text) : argument (rest ++ more) place = argument rest place := by
  unfold argument
  rw [List.getElem?_append_left h]

/-- A command reads no more numbers than it takes tokens. -/
theorem Command.draw_congr (pen : Pen) (relative : Bool) {f g : Nat → Float} (command : Command)
    (h : ∀ place < command.arity, f place = g place) :
    command.draw v steps pen relative f = command.draw v steps pen relative g := by
  cases command with
  | close => rfl
  | horizontal | vertical => simp only [draw, h 0 (by decide)]
  | move | line => simp only [draw, h 0 (by decide), h 1 (by decide)]
  | smooth | quadratic =>
    simp only [draw, h 0 (by decide), h 1 (by decide), h 2 (by decide), h 3 (by decide)]
  | cubic =>
    simp only [draw, h 0 (by decide), h 1 (by decide), h 2 (by decide), h 3 (by decide),
      h 4 (by decide), h 5 (by decide)]
  | arc =>
    simp only [draw, h 0 (by decide), h 1 (by decide), h 5 (by decide), h 6 (by decide)]

/-- A command leaves what it draws, and then its own entry. -/
theorem Command.run_of_draw {pen next : Pen} {relative : Bool} {arg : Nat → Float}
    {command : Command} {segments : List Curve.Segment}
    (h : command.draw v steps pen relative arg = .ok (segments, next)) (taken : Nat) :
    command.run v steps pen relative taken arg =
      ⟨segments.map .drawn ++ [.done command relative taken next], .ok next⟩ := by
  unfold run
  rw [h]
  rfl

theorem Command.run_of_fault {pen : Pen} {relative : Bool} {arg : Nat → Float}
    {command : Command} {fault : Fault}
    (h : command.draw v steps pen relative arg = .error fault) (taken : Nat) :
    command.run v steps pen relative taken arg = ⟨[], .error fault⟩ := by
  unfold run
  rw [h]
  rfl

/-- A command whose tokens are all there does not depend on what follows them. -/
theorem Command.run_append (pen : Pen) (relative : Bool) (taken : Nat) {command : Command}
    {rest : List Text} (h : command.arity ≤ rest.length) (more : List Text) :
    command.run v steps pen relative taken (argument (rest ++ more)) =
      command.run v steps pen relative taken (argument rest) := by
  unfold run
  rw [draw_congr pen relative command fun place hplace =>
    argument_append (Nat.lt_of_lt_of_le hplace h) more]

/-! ## 2. Runs from token to token -/

theorem interpret_nil (taken : Nat) (pen : Pen) :
    interpret v steps taken pen [] = pure ⟨pen, taken⟩ := by
  rw [interpret]

theorem interpret_unsupported {token : Text} (h : Command.ofName? token.upper = none)
    (taken : Nat) (pen : Pen) (rest : List Text) :
    interpret v steps taken pen (token :: rest) = (do
      Journal.enter (.unsupported token.upper)
      interpret v steps (taken + 1 + (rest.length - (skip rest).length))
        { pen with previous := token.upper } (skip rest)) := by
  rw [interpret]
  dsimp only
  rw [h]

theorem interpret_command {token : Text} {command : Command}
    (h : Command.ofName? token.upper = some command) (taken : Nat) (pen : Pen)
    (rest : List Text) :
    interpret v steps taken pen (token :: rest) = (do
      let pen ← command.run v steps pen (isRelative token) (taken + 1 + command.arity)
        (argument rest)
      interpret v steps (taken + 1 + command.arity) { pen with previous := token.upper }
        (rest.drop command.arity)) := by
  rw [interpret]
  dsimp only
  rw [h]

/-- A run ends behind its last token or later, when numbers are missing. -/
theorem length_le_taken {taken : Nat} {pen : Pen} {tokens : List Text} {p : Progress}
    (h : (interpret v steps taken pen tokens).outcome = .ok p) :
    taken + tokens.length ≤ p.taken := by
  fun_induction interpret v steps taken pen tokens with
  | case1 taken pen =>
    cases h
    exact Nat.le_refl _
  | case2 taken pen token rest name hname ih =>
    obtain ⟨_, _, h⟩ := Journal.outcome_bind_eq_ok.mp h
    have hrest := ih h
    have hskip := length_skip_le rest
    rw [List.length_cons]
    omega
  | case3 taken pen token rest name command hname taken' ih =>
    obtain ⟨next, _, h⟩ := Journal.outcome_bind_eq_ok.mp h
    have hrest := ih next h
    rw [List.length_drop] at hrest
    rw [List.length_cons]
    omega

/-! ## 3. Cutting a run in two -/

/-- What is skipped ends in the first part, unless the first part is skipped as a whole. -/
theorem skip_append {rest : List Text} (h : skip rest ≠ []) (more : List Text) :
    skip (rest ++ more) = skip rest ++ more := by
  unfold skip at h ⊢
  rw [List.dropWhile_append, if_neg (by simpa using h)]

/-- The second part starts where skipping ends: it is empty or starts like a command. -/
def StartsAtCommand (tokens : List Text) : Prop := ∀ token ∈ tokens.head?, isCommandToken token

theorem skip_of_startsAtCommand {tokens : List Text} (h : StartsAtCommand tokens) :
    skip tokens = tokens := by
  cases tokens with
  | nil => rfl
  | cons token rest =>
    have htoken : isCommandToken token = true := h token rfl
    unfold skip
    rw [List.dropWhile_cons_of_neg (by simp [htoken])]

theorem skip_append_of_startsAtCommand (rest : List Text) {more : List Text}
    (h : StartsAtCommand more) : skip (rest ++ more) = skip rest ++ more := by
  by_cases hrest : skip rest = []
  · have hmore := skip_of_startsAtCommand h
    unfold skip at hrest hmore ⊢
    rw [List.dropWhile_append, hrest, List.isEmpty_nil, if_pos rfl, hmore, List.nil_append]
  · exact skip_append hrest more

/-- Two parts of a path meet between commands: the last command of the first part, which is the
one that the pen names at its end, is supported, or the second part is empty or starts like a
command. -/
def MeetBetweenCommands (left : Pen) (second : List Text) : Prop :=
  (Command.ofName? left.previous).isSome ∨ StartsAtCommand second

/-- **A run that ends exactly behind the first tokens goes on with the others.** -/
theorem interpret_append {taken : Nat} {pen left : Pen} {a b : List Text}
    (hrun : (interpret v steps taken pen a).outcome = .ok ⟨left, taken + a.length⟩)
    (hmeet : a = [] ∨ MeetBetweenCommands left b) :
    interpret v steps taken pen (a ++ b) =
      interpret v steps taken pen a >>= fun p => interpret v steps p.taken p.pen b := by
  fun_induction interpret v steps taken pen a with
  | case1 taken pen => rfl
  | case2 taken pen token rest name hname ih =>
    replace hmeet := hmeet.resolve_left (List.cons_ne_nil _ _)
    obtain ⟨_, _, hrest⟩ := Journal.outcome_bind_eq_ok.mp hrun
    have hskip : skip (rest ++ b) = skip rest ++ b := by
      by_cases hall : skip rest = []
      · -- The last command of the first part is this one, which is not supported.
        rw [hall, interpret_nil] at hrest
        have hleft : { pen with previous := name } = left :=
          congrArg Progress.pen (Except.ok.inj hrest)
        refine skip_append_of_startsAtCommand rest (hmeet.resolve_left ?_)
        rw [← hleft, hname]
        decide
      · exact skip_append hall b
    have hlength := length_skip_le rest
    have htaken : taken + 1 + ((rest ++ b).length - (skip rest ++ b).length) =
        taken + 1 + (rest.length - (skip rest).length) := by
      rw [List.length_append, List.length_append]
      omega
    rw [List.cons_append, interpret_unsupported hname, hskip, htaken, Journal.bind_assoc]
    refine Journal.bind_congr fun _ _ => ih ?_ (Or.inr hmeet)
    rw [hrest, List.length_cons]
    congr 2
    omega
  | case3 taken pen token rest name command hname taken' ih =>
    replace hmeet := hmeet.resolve_left (List.cons_ne_nil _ _)
    obtain ⟨next, hnext, hrest⟩ := Journal.outcome_bind_eq_ok.mp hrun
    -- All numbers of the command are there, for otherwise the run would end too far behind.
    have harity : command.arity ≤ rest.length := by
      have hend := length_le_taken hrest
      rw [List.length_drop, List.length_cons] at hend
      dsimp only at hend
      omega
    rw [List.cons_append, interpret_command hname, Command.run_append _ _ _ harity,
      List.drop_append_of_le_length harity, Journal.bind_assoc]
    refine Journal.bind_congr fun next' hnext' => ih next' ?_ (Or.inr hmeet)
    cases hnext.symm.trans hnext'
    rw [hrest, List.length_cons, List.length_drop]
    congr 2
    omega

/-! ## 4. Counting from elsewhere -/

/-- An event with so many tokens taken before. -/
def Event.countedFrom (n : Nat) : Event → Event
  | .done command relative taken pen => .done command relative (n + taken) pen
  | .drawn segment => .drawn segment
  | .unsupported name => .unsupported name

/-- The end of a run with so many tokens taken before. -/
def Progress.countedFrom (n : Nat) (p : Progress) : Progress := ⟨p.pen, n + p.taken⟩

theorem Command.run_countedFrom (pen : Pen) (relative : Bool) (n taken : Nat)
    (arg : Nat → Float) (command : Command) :
    command.run v steps pen relative (n + taken) arg =
      (command.run v steps pen relative taken arg).mapEntries (Event.countedFrom n) := by
  cases h : command.draw v steps pen relative arg with
  | error fault =>
    rw [run_of_fault h, run_of_fault h]
    rfl
  | ok r =>
    obtain ⟨segments, next⟩ := r
    rw [run_of_draw h, run_of_draw h, Journal.mapEntries, List.map_append, List.map_map]
    rfl

/-- **A run counts its tokens and does nothing else with their number.** -/
theorem interpret_countedFrom (n taken : Nat) (pen : Pen) (tokens : List Text) :
    interpret v steps (n + taken) pen tokens =
      ⟨(interpret v steps taken pen tokens).entries.map (Event.countedFrom n),
        (interpret v steps taken pen tokens).outcome.map (Progress.countedFrom n)⟩ := by
  fun_induction interpret v steps taken pen tokens with
  | case1 taken pen =>
    rw [interpret_nil]
    rfl
  | case2 taken pen token rest name hname ih =>
    rw [interpret_unsupported hname, Nat.add_assoc n, Nat.add_assoc n, ih]
    rfl
  | case3 taken pen token rest name command hname taken' ih =>
    rw [interpret_command hname, Nat.add_assoc n, Nat.add_assoc n, Command.run_countedFrom]
    cases command.run v steps pen (isRelative token) taken' (argument rest) with
    | mk events r =>
      cases r with
      | error fault => rfl
      | ok next =>
        rw [Journal.mapEntries, Journal.bind_ok, ih next, Journal.bind_ok, List.map_append]

/-! ## 5. Two runs in sequence -/

/-- **A path is drawn one command after the other.**  Let a run through some tokens, with any pen,
meet no fault and end exactly behind the last of them, and let what follows them not start inside
of what a command that is not supported skips.  Then the run through all tokens leaves the lines,
notes and pens of the first run, and behind them those of a run of its own through the tokens that
follow, with the pen that the first run left.  It ends with the pen of that run, or by its
fault. -/
theorem run_sequential (v : Viewport) (steps : Int) (pen left : Pen) (a b : List Text)
    (hrun : (interpret v steps 0 pen a).outcome = .ok ⟨left, a.length⟩)
    (hmeet : a = [] ∨ MeetBetweenCommands left b) :
    let first := interpret v steps 0 pen a
    let second := interpret v steps 0 left b
    interpret v steps 0 pen (a ++ b) =
      ⟨first.entries ++ second.entries.map (Event.countedFrom a.length),
        second.outcome.map (Progress.countedFrom a.length)⟩ := by
  intro first second
  have hfirst : interpret v steps 0 pen a = ⟨first.entries, .ok ⟨left, a.length⟩⟩ := by
    rw [← hrun]
  have hsecond : interpret v steps a.length left b = _ := interpret_countedFrom a.length 0 left b
  rw [interpret_append (hrun.trans (by rw [Nat.zero_add])) hmeet, hfirst, Journal.bind_ok]
  dsimp only
  rw [hsecond]

/-- A move, an arc whose flags are no numbers, and a command that is not supported. -/
def arcTokens : List Text :=
  [['M'], ['1'], ['2'], ['A'], ['3'], ['3'], ['x'], ['L'], ['y'], ['4'], ['2'], ['t'], ['5']]

/-- A smooth curve that lacks its numbers. -/
def smoothTokens : List Text := [['s'], ['6']]

/-- A run that skips tokens at its end is followed by one that runs out of tokens. -/
theorem run_sequential_arcTokens :
    ∃ left, (interpret ⟨160, 120, 160.0, 120.0⟩ 2 0 Pen.initial arcTokens).outcome =
        .ok ⟨left, 13⟩ ∧ MeetBetweenCommands left smoothTokens ∧
      (interpret ⟨160, 120, 160.0, 120.0⟩ 2 0 Pen.initial (arcTokens ++ smoothTokens)).outcome =
        (interpret ⟨160, 120, 160.0, 120.0⟩ 2 0 left smoothTokens).outcome.map
          (Progress.countedFrom 13) := by
  have htaken : (interpret ⟨160, 120, 160.0, 120.0⟩ 2 0 Pen.initial arcTokens).outcome.toOption.map
      (·.taken) = some 13 := by
    decide +kernel
  have hmeet : StartsAtCommand smoothTokens := by
    intro token htoken
    cases htoken
    decide
  cases hrun : (interpret ⟨160, 120, 160.0, 120.0⟩ 2 0 Pen.initial arcTokens).outcome with
  | error fault =>
    rw [hrun] at htaken
    cases htaken
  | ok p =>
    obtain ⟨left, taken⟩ := p
    rw [hrun] at htaken
    cases htaken
    refine ⟨left, rfl, Or.inr hmeet, ?_⟩
    have hsequence := run_sequential _ 2 Pen.initial left arcTokens smoothTokens hrun
      (Or.inr (Or.inr hmeet))
    exact congrArg Journal.outcome hsequence

end Path

end VectorPaint
