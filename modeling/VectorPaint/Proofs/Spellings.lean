/-
# Upper and lower case in paths

A small letter asks a command to take its numbers as distances from the pen.  Only moves and the
three kinds of straight lines do as they are asked.  Curves, arcs and closes take their numbers
as they are (`Command.draw_of_isAbsolute`), so their letters can be written either way.

Such a letter need not stand where a command is read.  It can be taken for a number, and then it
is none in either case.  It can stand among the tokens that are passed over behind a command that
is not supported, and then it ends them in either case.  So a path is the same path, whatever the
case of these letters, wherever they stand (`case_ignored`).
-/
import VectorPaint.Proofs.Turns
import VectorPaint.Scene.Element

namespace VectorPaint

/-- Entries can be put differently part by part. -/
theorem Journal.mapEntries_bind {ε δ α β : Type} (g : ε → δ) (j : Journal ε α)
    (f : α → Journal ε β) :
    (j >>= f).mapEntries g = j.mapEntries g >>= fun a => (f a).mapEntries g := by
  obtain ⟨es, r⟩ := j
  cases r with
  | error fault => rfl
  | ok a => rw [bind_ok, mapEntries, mapEntries, bind_ok, List.map_append]; rfl

namespace Path

variable {v : Viewport} {steps : Int} {pen : Pen} {command : Command} {token token' : Text}
  {a b : List Text}

/-! ## 1. Commands without a case -/

/-- Whether a command takes its numbers as they are, in upper and in lower case. -/
def Command.isAbsolute : Command → Bool
  | .move | .line | .horizontal | .vertical => false
  | .close | .cubic | .smooth | .quadratic | .arc => true

/-- **Such a command does the same in either case.** -/
theorem Command.draw_of_isAbsolute (h : command.isAbsolute = true) (relative relative' : Bool)
    (arg : Nat → Float) :
    command.draw v steps pen relative arg = command.draw v steps pen relative' arg := by
  cases command with
  | move | line | horizontal | vertical => cases h
  | close | cubic | smooth | quadratic | arc => rfl

/-- The two ways to write a command's letter. -/
def Command.spellings (command : Command) : List Text :=
  [[command.letter], [command.letter.toLower]]

theorem upper_of_mem_spellings (h : token ∈ command.spellings) :
    token.upper = [command.letter] := by
  have hall : ∀ command : Command, ∀ token ∈ command.spellings,
      token.upper = [command.letter] := by
    intro command
    cases command <;> decide
  exact hall command token h

/-- A command's letter is no number. -/
theorem read_of_mem_spellings (h : token ∈ command.spellings) :
    Number.read token = Number.nan := by
  rcases List.mem_pair.mp h with rfl | rfl <;> cases command <;> rfl

theorem isCommandToken_of_mem_spellings (h : token ∈ command.spellings) :
    isCommandToken token = true := by
  have hall : ∀ command : Command, ∀ token ∈ command.spellings, isCommandToken token = true := by
    intro command
    cases command <;> decide
  exact hall command token h

theorem Command.ofName?_singleton (command : Command) :
    Command.ofName? [command.letter] = some command := by
  cases command <;> rfl

/-! ## 2. Tokens written differently -/

/-- Two tokens are the same, or both are the letter of one command that has no case. -/
inductive Respelled : Text → Text → Prop
  | same (token : Text) : Respelled token token
  | letter {command : Command} {token token' : Text} (h : command.isAbsolute = true)
    (htoken : token ∈ command.spellings) (htoken' : token' ∈ command.spellings) :
    Respelled token token'

namespace Respelled

theorem upper (h : Respelled token token') : token.upper = token'.upper := by
  cases h with
  | same => rfl
  | letter _ htoken htoken' =>
    rw [upper_of_mem_spellings htoken, upper_of_mem_spellings htoken']

theorem read (h : Respelled token token') : Number.read token = Number.read token' := by
  cases h with
  | same => rfl
  | letter _ htoken htoken' =>
    rw [read_of_mem_spellings htoken, read_of_mem_spellings htoken']

theorem isCommandToken (h : Respelled token token') :
    isCommandToken token = isCommandToken token' := by
  cases h with
  | same => rfl
  | letter _ htoken htoken' =>
    rw [isCommandToken_of_mem_spellings htoken, isCommandToken_of_mem_spellings htoken']

/-- Where the two ask for different things the command does not listen. -/
theorem isRelative_or (h : Respelled token token')
    (hname : Command.ofName? token.upper = some command) :
    isRelative token = isRelative token' ∨ command.isAbsolute = true := by
  cases h with
  | same => exact Or.inl rfl
  | letter habsolute htoken _ =>
    rw [upper_of_mem_spellings htoken, Command.ofName?_singleton] at hname
    cases hname
    exact Or.inr habsolute

theorem argument (h : List.Forall₂ Respelled a b) : argument a = argument b := by
  funext place
  induction h generalizing place with
  | nil => rfl
  | cons htoken _ ih =>
    cases place with
    | zero => exact htoken.read
    | succ place => exact ih place

/-- What is passed over is as long in both. -/
theorem skip (h : List.Forall₂ Respelled a b) : List.Forall₂ Respelled (skip a) (skip b) := by
  unfold Path.skip
  induction h with
  | nil => exact .nil
  | cons htoken hrest ih =>
    rw [List.dropWhile_cons, List.dropWhile_cons, htoken.isCommandToken]
    split
    · exact ih
    · exact .cons htoken hrest

end Respelled

/-! ## 3. Two runs -/

/-- An entry without the case of a command that has none. -/
def Event.caseless : Event → Event
  | .done command relative taken pen =>
    .done command (relative && !command.isAbsolute) taken pen
  | .drawn segment => .drawn segment
  | .unsupported name => .unsupported name

theorem Command.run_caseless (h : Respelled token token')
    (hname : Command.ofName? token.upper = some command) (taken : Nat) (arg : Nat → Float) :
    (command.run v steps pen (isRelative token) taken arg).mapEntries Event.caseless =
      (command.run v steps pen (isRelative token') taken arg).mapEntries Event.caseless := by
  rcases h.isRelative_or hname with hcase | habsolute
  · rw [hcase]
  · have hsame : command.draw v steps pen (isRelative token) arg =
        command.draw v steps pen (isRelative token') arg := draw_of_isAbsolute habsolute _ _ arg
    cases hdraw : command.draw v steps pen (isRelative token) arg with
    | error fault => rw [run_of_fault hdraw, run_of_fault (hsame.symm.trans hdraw)]
    | ok r =>
      obtain ⟨segments, next⟩ := r
      rw [run_of_draw hdraw, run_of_draw (hsame.symm.trans hdraw)]
      simp [Journal.mapEntries, Event.caseless, habsolute]

/-- **Runs through tokens that are written differently do the same.**  The induction is along the
first run; the other one takes the same number of tokens at every turn. -/
theorem interpret_respelled (taken : Nat) (pen : Pen) (a b : List Text)
    (h : List.Forall₂ Respelled a b) :
    (interpret v steps taken pen a).mapEntries Event.caseless =
      (interpret v steps taken pen b).mapEntries Event.caseless := by
  fun_induction interpret v steps taken pen a generalizing b with
  | case1 taken pen =>
    cases h
    rw [interpret_nil]
  | case2 taken pen token rest name hname ih =>
    obtain ⟨token', rest', htoken, hrest, rfl⟩ := List.forall₂_cons_left_iff.mp h
    have hname' : Command.ofName? token'.upper = none := htoken.upper ▸ hname
    have hskip := Respelled.skip hrest
    rw [interpret_unsupported hname', Journal.mapEntries_bind, Journal.mapEntries_bind,
      ← htoken.upper, ← hrest.length_eq, ← hskip.length_eq]
    exact Journal.bind_congr fun _ _ => ih _ hskip
  | case3 taken pen token rest name command hname taken' ih =>
    obtain ⟨token', rest', htoken, hrest, rfl⟩ := List.forall₂_cons_left_iff.mp h
    have hname' : Command.ofName? token'.upper = some command := htoken.upper ▸ hname
    rw [interpret_command hname', Journal.mapEntries_bind, Journal.mapEntries_bind,
      Command.run_caseless htoken hname, ← htoken.upper, Respelled.argument hrest]
    exact Journal.bind_congr fun next _ => ih next _ (List.forall₂_drop _ hrest)

/-! ## 4. What is painted -/

/-- In a color, the ends of commands are left out. -/
theorem ofRun_caseless (color : Int) (j : Journal Event Progress) :
    Element.ofRun color (j.mapEntries Event.caseless) = Element.ofRun color j := by
  have hact : ∀ event : Event,
      Element.actOfEvent color event.caseless = Element.actOfEvent color event := by
    intro event
    cases event <;> rfl
  simp only [Element.ofRun, Journal.mapEntries, List.filterMap_map, Function.comp_def, hact]

/-- **Only moves and straight lines have a case.**  Let two lists of tokens be the same but for
the case of tokens that are the letter C, S, Q, A or Z, wherever these stand.  Then the two runs
leave the same lines in any color and the same notes, and end with the same pen and after the same
number of tokens, or by the same fault.  Their commands are the same too, with the same tokens
taken and the same pen behind each; the letters are all that they differ in. -/
theorem case_ignored (v : Viewport) (steps : Int) (taken : Nat) (pen : Pen) (a b : List Text)
    (h : List.Forall₂ Respelled a b) :
    let first := interpret v steps taken pen a
    let second := interpret v steps taken pen b
    (∀ color, Element.ofRun color second = Element.ofRun color first) ∧
      second.outcome = first.outcome ∧
      second.entries.map Event.caseless = first.entries.map Event.caseless := by
  intro first second
  have hsame : first.mapEntries Event.caseless = second.mapEntries Event.caseless :=
    interpret_respelled taken pen a b h
  refine ⟨fun color => ?_, (congrArg Journal.outcome hsame).symm,
    (congrArg Journal.entries hsame).symm⟩
  rw [← ofRun_caseless color first, hsame, ofRun_caseless]

/-- A smooth curve with a letter among its numbers, a command that is not supported, and a close
that ends what is passed over with it. -/
def largeLetters : List Text := [['S'], ['Q'], ['8'], ['9'], ['1'], ['T'], ['7'], ['Z'], ['A']]

/-- The same in small letters, the T left as it was. -/
def smallLetters : List Text := [['s'], ['q'], ['8'], ['9'], ['1'], ['T'], ['7'], ['z'], ['a']]

theorem case_ignored_smallLetters :
    List.Forall₂ Respelled largeLetters smallLetters ∧
      (interpret ⟨160, 120, 160.0, 120.0⟩ 2 0 Pen.initial smallLetters).outcome =
        (interpret ⟨160, 120, 160.0, 120.0⟩ 2 0 Pen.initial largeLetters).outcome := by
  have hlower : ∀ command : Command, command.isAbsolute = true →
      Respelled [command.letter] [command.letter.toLower] :=
    fun command h => .letter h List.mem_cons_self (List.mem_cons_of_mem _ List.mem_cons_self)
  have h : List.Forall₂ Respelled largeLetters smallLetters :=
    .cons (hlower .smooth rfl) (.cons (hlower .quadratic rfl) (.cons (.same _) (.cons (.same _)
      (.cons (.same _) (.cons (.same _) (.cons (.same _) (.cons (hlower .close rfl)
        (.cons (hlower .arc rfl) .nil))))))))
  exact ⟨h, (case_ignored ⟨160, 120, 160.0, 120.0⟩ 2 0 Pen.initial _ _ h).2.1⟩

end Path

end VectorPaint
