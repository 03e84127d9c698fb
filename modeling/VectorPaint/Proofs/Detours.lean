/-
# Commands that are not supported

A command that is not supported is noted and passed over, with all tokens behind it that do not
look like a command.  Nothing that is supported is passed over with it: a token whose upper case
names a supported command is one code point long and looks like a command
(`isCommandToken_of_ofName?`).

All that such a command does to the pen is to leave its name there.  The next command to read a
name is the one right behind it, and only a smooth curve reads one.  So a command that is not
supported can be put between two parts of a path without a difference but for its note, unless a
smooth curve follows (`detour_noted`).
-/
import VectorPaint.Proofs.Turns

namespace VectorPaint

/-! ## 1. What is passed over -/

/-- No upper case is empty. -/
theorem Text.upperChar_ne_nil (c : Char) : upperChar c ≠ [] := by
  have hexpansions : ∀ e ∈ upperExpansions, e.2.map Char.ofNat ≠ [] := by decide
  unfold upperChar
  split
  · rename_i n expansion hfind
    exact hexpansions _ (List.mem_of_find?_eq_some hfind)
  · exact List.cons_ne_nil _ _

namespace Path

variable {v : Viewport} {steps : Int} {pen : Pen} {relative : Bool} {arg : Nat → Float}
  {command : Command}

/-- **A token that names a supported command looks like a command.** -/
theorem isCommandToken_of_ofName? {token : Text}
    (h : Command.ofName? token.upper = some command) : isCommandToken token = true := by
  have hletter := Command.ofName?_letter h
  cases token with
  | nil => cases hletter
  | cons c rest =>
    rw [Text.upper, List.flatMap_cons] at hletter
    obtain ⟨u, us, hu⟩ := List.exists_cons_of_ne_nil (Text.upperChar_ne_nil c)
    cases rest with
    | nil =>
      rw [List.flatMap_nil, List.append_nil] at hletter
      rw [isCommandToken, hletter]
      cases command <;> decide
    | cons d rest =>
      -- Two code points have an upper case of at least two.
      obtain ⟨w, ws, hw⟩ := List.exists_cons_of_ne_nil (Text.upperChar_ne_nil d)
      rw [List.flatMap_cons, hu, hw] at hletter
      simp at hletter

/-- **Nothing that is supported is passed over.** -/
theorem exists_passed (rest : List Text) :
    ∃ passed, passed ++ skip rest = rest ∧
      ∀ token ∈ passed, Command.ofName? token.upper = none := by
  refine ⟨rest.takeWhile fun token => !isCommandToken token,
    List.takeWhile_append_dropWhile, fun token htoken => ?_⟩
  have hpassed := List.mem_takeWhile_imp htoken
  cases hname : Command.ofName? token.upper with
  | none => rfl
  | some command => simp [isCommandToken_of_ofName? hname] at hpassed

/-- Tokens that do not look like a command are passed over up to one that does. -/
theorem skip_of_forall {args b : List Text} (hargs : ∀ token ∈ args, isCommandToken token = false)
    (hb : StartsAtCommand b) : skip (args ++ b) = b := by
  have hall : skip args = [] := by
    rw [skip, List.dropWhile_eq_nil_iff]
    intro token htoken
    rw [hargs token htoken, Bool.not_false]
  rw [skip_append_of_startsAtCommand args hb, hall, List.nil_append]

/-! ## 2. What can be seen of a run -/

/-- Whether an entry can be seen: a line or a note, but not the end of a command. -/
def Event.isVisible : Event → Bool
  | .done _ _ _ _ => false
  | _ => true

/-- The lines and the notes of a run, in order. -/
def visible (events : List Event) : List Event := events.filter Event.isVisible

/-- What can be seen of the end of a run: the points that the pen holds, which are its position,
where the last move went and the control point, and how many tokens were taken. -/
def Progress.sight (p : Progress) : (Point × Point × Point) × Nat :=
  ((p.pen.position, p.pen.start, p.pen.control), p.taken)

/-- Two runs look the same: they leave the same lines and notes, and come to an end that looks the
same, or stop by the same fault. -/
structure LookSame (first second : Journal Event Progress) : Prop where
  entries : visible second.entries = visible first.entries
  outcome : second.outcome.map Progress.sight = first.outcome.map Progress.sight

theorem visible_append (events more : List Event) :
    visible (events ++ more) = visible events ++ visible more := List.filter_append _ _

/-- Counting tokens from elsewhere cannot be seen. -/
theorem visible_countedFrom (n : Nat) (events : List Event) :
    visible (events.map (Event.countedFrom n)) = visible events := by
  induction events with
  | nil => rfl
  | cons event rest ih =>
    cases event with
    | done => exact ih
    | drawn segment => exact congrArg (.drawn segment :: ·) ih
    | unsupported name => exact congrArg (.unsupported name :: ·) ih

/-! ## 3. The name that the pen holds -/

/-- What is done with a value can be done at the end of a computation. -/
theorem map_bind {α β γ : Type} (r : Except Fault α) (f : α → Except Fault β) (g : β → γ) :
    (r >>= f).map g = r >>= fun a => (f a).map g := by
  cases r <;> rfl

/-- **Only a smooth curve reads the name of the last command.** -/
theorem Command.draw_renamed (hsmooth : command ≠ .smooth) (name : Text) :
    command.draw v steps { pen with previous := name } relative arg =
      (command.draw v steps pen relative arg).map fun r =>
        (r.1, { r.2 with previous := name }) := by
  cases command with
  | smooth => exact absurd rfl hsmooth
  | _ =>
    simp only [draw, drawCubic, map_bind]
    rfl

/-- **A run forgets the name that the pen holds with its first command,** unless this is a smooth
curve. -/
theorem interpret_renamed (v : Viewport) (steps : Int) {tokens : List Text}
    (h : ∀ token ∈ tokens.head?, Command.ofName? token.upper ≠ some .smooth) (taken : Nat)
    (pen : Pen) (name : Text) :
    LookSame (interpret v steps taken pen tokens)
      (interpret v steps taken { pen with previous := name } tokens) := by
  cases tokens with
  | nil =>
    rw [interpret_nil, interpret_nil]
    exact ⟨rfl, rfl⟩
  | cons token rest =>
    cases hname : Command.ofName? token.upper with
    | none =>
      rw [interpret_unsupported hname, interpret_unsupported hname]
      exact ⟨rfl, rfl⟩
    | some command =>
      have hsmooth : command ≠ .smooth := fun he => h token rfl (he ▸ hname)
      have hrenamed : command.draw v steps { pen with previous := name } (isRelative token)
          (argument rest) = (command.draw v steps pen (isRelative token) (argument rest)).map
            fun r => (r.1, { r.2 with previous := name }) := Command.draw_renamed hsmooth name
      rw [interpret_command hname, interpret_command hname]
      cases hdraw : command.draw v steps pen (isRelative token) (argument rest) with
      | error fault =>
        rw [hdraw] at hrenamed
        rw [Command.run_of_fault hdraw, Command.run_of_fault hrenamed]
        exact ⟨rfl, rfl⟩
      | ok r =>
        obtain ⟨segments, next⟩ := r
        rw [hdraw] at hrenamed
        rw [Command.run_of_draw hdraw, Command.run_of_draw hrenamed, Journal.bind_ok,
          Journal.bind_ok]
        -- Both runs go on with the name of this command.
        refine ⟨?_, rfl⟩
        simp only [visible_append]
        rfl

/-! ## 4. Detours -/

/-- A run of a command that is not supported, and of what is passed over with it, in front of more
tokens: a note, and the run of those tokens. -/
theorem interpret_detour {u : Text} {args b : List Text} (hname : Command.ofName? u.upper = none)
    (hargs : ∀ token ∈ args, isCommandToken token = false) (hb : StartsAtCommand b) (taken : Nat)
    (pen : Pen) :
    interpret v steps taken pen (u :: args ++ b) = (do
      Journal.enter (.unsupported u.upper)
      interpret v steps (1 + args.length + taken) { pen with previous := u.upper } b) := by
  have htaken : taken + 1 + ((args ++ b).length - b.length) = 1 + args.length + taken := by
    rw [List.length_append]
    omega
  rw [List.cons_append, interpret_unsupported hname, skip_of_forall hargs hb, htaken]

/-- Beside the run of those tokens alone there is one more note, and more tokens are taken. -/
theorem look_detour (v : Viewport) (steps : Int) {u : Text} {args b : List Text}
    (hname : Command.ofName? u.upper = none)
    (hargs : ∀ token ∈ args, isCommandToken token = false) (hb : StartsAtCommand b)
    (hsmooth : ∀ token ∈ b.head?, Command.ofName? token.upper ≠ some .smooth) (taken : Nat)
    (pen : Pen) :
    let direct := interpret v steps taken pen b
    let detour := interpret v steps taken pen (u :: args ++ b)
    visible detour.entries = .unsupported u.upper :: visible direct.entries ∧
      detour.outcome.map Progress.sight =
        direct.outcome.map fun p => (p.countedFrom (1 + args.length)).sight := by
  intro direct detour
  have hsame := interpret_renamed v steps hsmooth (1 + args.length + taken) pen u.upper
  have hcounted : interpret v steps (1 + args.length + taken) pen b =
      ⟨direct.entries.map (Event.countedFrom (1 + args.length)),
        direct.outcome.map (Progress.countedFrom (1 + args.length))⟩ :=
    interpret_countedFrom (1 + args.length) taken pen b
  have hdetour : detour = _ := interpret_detour hname hargs hb taken pen
  rw [hcounted] at hsame
  rw [hdetour]
  constructor
  · calc visible (.unsupported u.upper :: _)
        = .unsupported u.upper :: visible (direct.entries.map
          (Event.countedFrom (1 + args.length))) := congrArg _ hsame.entries
      _ = .unsupported u.upper :: visible direct.entries := by rw [visible_countedFrom]
  · refine hsame.outcome.trans ?_
    cases direct.outcome <;> rfl

/-- **A command that is not supported leaves nothing but a note.**  Let a run through some tokens
meet no fault and end exactly behind the last of them, and let the tokens that follow start with a
command other than a smooth curve, supported or not, if there are any.  Then a command that is not
supported, with any tokens behind it that do not look like commands, can be put between the two:
the run draws the same lines and leaves the same notes, with one more between those of the two
parts, and comes to an end with the same points and so many more tokens taken, or stops by the
same fault.  And no token that names a supported command is ever passed over. -/
theorem detour_noted (v : Viewport) (steps : Int) (pen left : Pen) (a args b : List Text) (u : Text)
    (hrun : (interpret v steps 0 pen a).outcome = .ok ⟨left, a.length⟩)
    (hu : isCommandToken u = true) (hname : Command.ofName? u.upper = none)
    (hargs : ∀ token ∈ args, isCommandToken token = false)
    (hb : ∀ token ∈ b.head?, isCommandToken token = true ∧ token.upper ≠ ['S']) :
    let first := interpret v steps 0 pen a
    let direct := interpret v steps 0 pen (a ++ b)
    let detour := interpret v steps 0 pen (a ++ (u :: args ++ b))
    (∃ later, visible direct.entries = visible first.entries ++ later ∧
      visible detour.entries = visible first.entries ++ .unsupported u.upper :: later) ∧
    (detour.outcome.map Progress.sight =
      direct.outcome.map fun p => (p.countedFrom (1 + args.length)).sight) ∧
    ∀ rest, ∃ passed, passed ++ skip rest = rest ∧
      ∀ token ∈ passed, Command.ofName? token.upper = none := by
  intro first direct detour
  have hstarts : StartsAtCommand b := fun token htoken => (hb token htoken).1
  have hsmooth : ∀ token ∈ b.head?, Command.ofName? token.upper ≠ some .smooth :=
    fun token htoken he => (hb token htoken).2 (Command.ofName?_letter he)
  -- Both runs are cut where the first tokens end.
  have hcut : ∀ rest, StartsAtCommand rest → interpret v steps 0 pen (a ++ rest) =
      ⟨first.entries ++ (interpret v steps a.length left rest).entries,
        (interpret v steps a.length left rest).outcome⟩ := by
    intro rest hrest
    have hfirst : interpret v steps 0 pen a = ⟨first.entries, .ok ⟨left, a.length⟩⟩ := by
      rw [← hrun]
    rw [interpret_append (hrun.trans (by rw [Nat.zero_add])) (Or.inr (Or.inr hrest)), hfirst,
      Journal.bind_ok]
  have hdirect : direct = _ := hcut b hstarts
  have hdetour : detour = _ := hcut (u :: args ++ b) (by rintro token ⟨⟩; exact hu)
  obtain ⟨hentries, houtcome⟩ := look_detour v steps hname hargs hstarts hsmooth a.length left
  refine ⟨⟨visible (interpret v steps a.length left b).entries, ?_, ?_⟩, ?_, exists_passed⟩
  · rw [hdirect, visible_append]
  · rw [hdetour, visible_append, hentries]
  · rw [hdetour, hdirect]
    exact houtcome

/-- A move and a smooth curve. -/
def smoothStart : List Text := [['M'], ['1'], ['2'], ['s'], ['3'], ['4'], ['5'], ['6']]

/-- A relative line, and a smooth curve that lacks its numbers. -/
def lineRest : List Text := [['l'], ['7'], ['8'], ['S'], ['9']]

/-- A sharp s is passed by with two numbers and a word. -/
theorem detour_noted_sharpS :
    let v : Viewport := ⟨160, 120, 160.0, 120.0⟩
    let sharp : Text := [Char.ofNat 0xDF]
    let args : List Text := [['1'], ['2'], ['M', 'L']]
    ∃ left, (interpret v 2 0 Pen.initial smoothStart).outcome = .ok ⟨left, smoothStart.length⟩ ∧
      ∃ later, visible (interpret v 2 0 Pen.initial
          (smoothStart ++ (sharp :: args ++ lineRest))).entries =
        visible (interpret v 2 0 Pen.initial smoothStart).entries ++
          .unsupported ['S', 'S'] :: later := by
  intro v sharp args
  have hend : (interpret v 2 0 Pen.initial smoothStart).outcome.toOption.map (·.taken) =
      some 8 := by
    decide +kernel
  cases hrun : (interpret v 2 0 Pen.initial smoothStart).outcome with
  | error fault =>
    rw [hrun] at hend
    cases hend
  | ok p =>
    obtain ⟨left, taken⟩ := p
    rw [hrun] at hend
    cases hend
    have hdetour := detour_noted v 2 Pen.initial left smoothStart args lineRest sharp hrun
      (by decide) (by decide) (by decide) (by decide)
    obtain ⟨⟨later, -, hlater⟩, -⟩ := hdetour
    exact ⟨left, rfl, later, hlater⟩

end Path

end VectorPaint
