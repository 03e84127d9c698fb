/-
# What arguments say, and what is wrong with them

The arguments of a session are good or bad as a whole, and that is settled before a drawing is
looked at.  To say which are bad without saying how they are read, the arguments are taken as
phrases first: an argument that spells the option for verbosity is a phrase, one that spells
another option is a phrase together with the argument behind it, whatever that looks like, and
any other argument is a phrase of its own (`Says`).  Then something is wrong with a phrase or
not (`Phrase.Wrong`).

**The first phrase that something is wrong with decides.**  Reading ends there with the complaint
about it, whatever comes before and behind (`readFrom_of_firstWrong`).  If all phrases are good,
reading gets to the end and the drawings are the ones that they name (`readFrom_of_good`).
-/
import VectorPaint.Session.Run

namespace VectorPaint

/-! ## 1. Spellings -/

/-- An argument spells an option. -/
def Flag.Spelled (flag : Flag) (argument : Text) : Prop :=
  argument = flag.short ∨ argument = flag.long

theorem Flag.mem_all (flag : Flag) : flag ∈ Flag.all := by
  cases flag <;> decide

theorem Flag.Spelled.ofArgument? {flag : Flag} {argument : Text} (h : flag.Spelled argument) :
    Flag.ofArgument? argument = some flag := by
  rcases h with rfl | rfl <;> cases flag <;> decide

/-- **An argument is taken for the option that it spells.** -/
theorem Flag.ofArgument?_eq_some_iff {flag : Flag} {argument : Text} :
    Flag.ofArgument? argument = some flag ↔ flag.Spelled argument := by
  refine ⟨fun h => ?_, Flag.Spelled.ofArgument?⟩
  simpa [Flag.Spelled] using List.find?_some h

theorem Flag.ofArgument?_eq_none_iff {argument : Text} :
    Flag.ofArgument? argument = none ↔ ∀ flag : Flag, ¬ flag.Spelled argument := by
  simp [Flag.ofArgument?, List.find?_eq_none, Flag.Spelled, Flag.mem_all]

/-- No argument spells two options. -/
theorem Flag.Spelled.unique {flag other : Flag} {argument : Text} (h : flag.Spelled argument)
    (ho : other.Spelled argument) : flag = other :=
  Option.some.inj (h.ofArgument?.symm.trans ho.ofArgument?)

/-! ## 2. Phrases -/

/-- What one or two arguments say together. -/
inductive Phrase where
  | drawing (path : Text)
  | verbose
  /-- An option and the argument behind it. -/
  | setting (flag : Flag) (value : Text)
  /-- An option that has no argument behind it. -/
  | unfinished (argument : Text)
  /-- An argument that starts like an option and spells none. -/
  | unknown (argument : Text)
  deriving DecidableEq, Repr

/-- The arguments, taken from the front, say these phrases. -/
inductive Says : List Text → List Phrase → Prop where
  | nil : Says [] []
  | drawing {argument : Text} {rest : List Text} {ps : List Phrase}
      (hspells : ∀ flag : Flag, ¬ flag.Spelled argument) (hdash : argument.head? ≠ some '-')
      (hrest : Says rest ps) : Says (argument :: rest) (.drawing argument :: ps)
  | unknown {argument : Text} {rest : List Text} {ps : List Phrase}
      (hspells : ∀ flag : Flag, ¬ flag.Spelled argument) (hdash : argument.head? = some '-')
      (hrest : Says rest ps) : Says (argument :: rest) (.unknown argument :: ps)
  | verbose {argument : Text} {rest : List Text} {ps : List Phrase}
      (hspells : Flag.verbose.Spelled argument) (hrest : Says rest ps) :
      Says (argument :: rest) (.verbose :: ps)
  | unfinished {argument : Text} {flag : Flag} (hspells : flag.Spelled argument)
      (hflag : flag ≠ .verbose) : Says [argument] [.unfinished argument]
  | setting {argument value : Text} {flag : Flag} {rest : List Text} {ps : List Phrase}
      (hspells : flag.Spelled argument) (hflag : flag ≠ .verbose) (hrest : Says rest ps) :
      Says (argument :: value :: rest) (.setting flag value :: ps)

/-- All arguments say something. -/
theorem exists_says : ∀ arguments : List Text, ∃ ps, Says arguments ps
  | [] => ⟨[], .nil⟩
  | [argument] => by
    cases hflag : Flag.ofArgument? argument with
    | none =>
      have hspells := Flag.ofArgument?_eq_none_iff.mp hflag
      by_cases hdash : argument.head? = some '-'
      · exact ⟨_, .unknown hspells hdash .nil⟩
      · exact ⟨_, .drawing hspells hdash .nil⟩
    | some flag =>
      have hspells := Flag.ofArgument?_eq_some_iff.mp hflag
      by_cases hv : flag = .verbose
      · exact ⟨_, .verbose (hv ▸ hspells) .nil⟩
      · exact ⟨_, .unfinished hspells hv⟩
  | argument :: value :: rest => by
    -- The phrase takes one argument or two, so what follows is needed in both cases.
    obtain ⟨ps, hps⟩ := exists_says (value :: rest)
    obtain ⟨qs, hqs⟩ := exists_says rest
    cases hflag : Flag.ofArgument? argument with
    | none =>
      have hspells := Flag.ofArgument?_eq_none_iff.mp hflag
      by_cases hdash : argument.head? = some '-'
      · exact ⟨_, .unknown hspells hdash hps⟩
      · exact ⟨_, .drawing hspells hdash hps⟩
    | some flag =>
      have hspells := Flag.ofArgument?_eq_some_iff.mp hflag
      by_cases hv : flag = .verbose
      · exact ⟨_, .verbose (hv ▸ hspells) hps⟩
      · exact ⟨_, .setting hspells hv hqs⟩

/-- Arguments say nothing else besides. -/
theorem Says.unique {arguments : List Text} {ps qs : List Phrase} (hp : Says arguments ps)
    (hq : Says arguments qs) : ps = qs := by
  induction hp generalizing qs with
  | nil => cases hq; rfl
  | drawing hspells hdash _ ih =>
    cases hq with
    | drawing _ _ hrest => rw [ih hrest]
    | _ => simp_all
  | unknown hspells hdash _ ih =>
    cases hq with
    | unknown _ _ hrest => rw [ih hrest]
    | _ => simp_all
  | verbose hspells _ ih =>
    cases hq with
    | verbose _ hrest => rw [ih hrest]
    | unfinished h hflag | setting h hflag _ => exact absurd (h.unique hspells) hflag
    | _ => simp_all
  | unfinished hspells hflag =>
    cases hq with
    | unfinished _ _ => rfl
    | verbose h _ => exact absurd (hspells.unique h) hflag
    | _ => simp_all
  | setting hspells hflag _ ih =>
    cases hq with
    | setting h _ hrest => rw [ih hrest, hspells.unique h]
    | verbose h _ => exact absurd (hspells.unique h) hflag
    | _ => simp_all

/-! ## 3. What is wrong with a phrase -/

/-- What a complaint calls an option whose value is a count. -/
def Flag.count? : Flag → Option Text
  | .width => some "Width".toList
  | .height => some "Height".toList
  | .steps => some "Steps".toList
  | .verbose | .output | .background => none

/-- A value writes three whole numbers between commas, blanks around them aside. -/
def WritesColor (value : Text) : Prop :=
  ∃ r g b : Int, (Text.pieces ',' value).map (fun part => Number.readWhole? part.trim) =
    [some r, some g, some b]

/-- What is wrong with a phrase.  A whole number is what is read as one. -/
inductive Phrase.Wrong : Phrase → Complaint → Prop where
  | unknown (argument : Text) : Wrong (.unknown argument) (.unknownOption argument)
  | unfinished (argument : Text) : Wrong (.unfinished argument) (.missingValue argument)
  | notInteger {flag : Flag} {name value : Text} (hflag : flag.count? = some name)
      (hvalue : Number.readWhole? value = none) : Wrong (.setting flag value) (.notInteger name)
  | notPositive {flag : Flag} {name value : Text} {n : Int} (hflag : flag.count? = some name)
      (hvalue : Number.readWhole? value = some n) (hn : n ≤ 0) :
      Wrong (.setting flag value) (.notPositive name)
  | background {value : Text} (hvalue : ¬ WritesColor value) :
      Wrong (.setting .background value) .badBackground

/-- Nothing is wrong with a phrase. -/
def Phrase.Good (p : Phrase) : Prop := ∀ complaint, ¬ p.Wrong complaint

theorem mapM_eq_some_iff {α β : Type} {f : α → Option β} {xs : List α} {ys : List β} :
    xs.mapM f = some ys ↔ xs.map f = ys.map some := by
  induction xs generalizing ys with
  | nil => cases ys <;> simp
  | cons x xs ih =>
    simp only [List.mapM_cons, Option.bind_eq_bind, Option.bind_eq_some_iff, Option.pure_def]
    cases ys with
    | nil => simp
    | cons y ys => simp [← ih]

namespace Options

theorem positive_eq_error_iff {name value : Text} {complaint : Complaint} :
    positive name value = .error complaint ↔
      (Number.readWhole? value = none ∧ complaint = .notInteger name) ∨
        ∃ n, Number.readWhole? value = some n ∧ n ≤ 0 ∧ complaint = .notPositive name := by
  unfold positive
  cases Number.readWhole? value with
  | none => simp [eq_comm]
  | some n =>
    by_cases hn : n ≤ 0
    · simp [hn, eq_comm]
    · simp [hn]

theorem color_eq_error_iff {value : Text} {complaint : Complaint} :
    color value = .error complaint ↔ ¬ WritesColor value ∧ complaint = .badBackground := by
  have hwrites : WritesColor value ↔ ∃ r g b : Int,
      ((Text.pieces ',' value).mapM fun part => Number.readWhole? part.trim) = some [r, g, b] := by
    simp only [mapM_eq_some_iff]
    rfl
  rw [hwrites]
  unfold color
  split
  · rename_i r g b hparts
    simp [hparts]
  · rename_i hparts
    rw [Except.error.injEq, eq_comm]
    exact ⟨fun h => ⟨fun ⟨r, g, b, hrgb⟩ => hparts r g b hrgb, h⟩, And.right⟩

/-- **A count goes to its own place among the options,** and only a positive one does. -/
theorem set_count (o : Options) {flag : Flag} {name : Text} (hflag : flag.count? = some name)
    (value : Text) :
    ∃ place : Int → Options, (∀ n, (place n).drawings = o.drawings) ∧
      o.set flag value = (positive name value).map place := by
  cases flag with
  | width =>
    cases hflag
    exact ⟨fun n => { o with frame := { o.frame with width := n } }, fun _ => rfl, rfl⟩
  | height =>
    cases hflag
    exact ⟨fun n => { o with frame := { o.frame with height := n } }, fun _ => rfl, rfl⟩
  | steps =>
    cases hflag
    exact ⟨fun n => { o with frame := { o.frame with steps := n } }, fun _ => rfl, rfl⟩
  | verbose | output | background => cases hflag

theorem of_map_eq_ok {ε α β : Type} {r : Except ε α} {f : α → β} {b : β} (h : r.map f = .ok b) :
    ∃ a, f a = b := by
  cases r with
  | error e => cases h
  | ok a => exact ⟨a, Except.ok.inj h⟩

theorem map_eq_error_iff {ε α β : Type} {r : Except ε α} {f : α → β} {e : ε} :
    r.map f = .error e ↔ r = .error e := by
  cases r <;> simp [Except.map]

/-- **An option refuses its value exactly if something is wrong with the two together.** -/
theorem set_eq_error_iff {o : Options} {flag : Flag} {value : Text} {complaint : Complaint} :
    o.set flag value = .error complaint ↔ (Phrase.setting flag value).Wrong complaint := by
  cases hflag : flag.count? with
  | some name =>
    obtain ⟨place, -, hset⟩ := set_count o hflag value
    rw [hset, map_eq_error_iff, positive_eq_error_iff]
    constructor
    · rintro (⟨hvalue, rfl⟩ | ⟨n, hvalue, hn, rfl⟩)
      · exact .notInteger hflag hvalue
      · exact .notPositive hflag hvalue hn
    · intro h
      cases h with
      | notInteger h hvalue =>
        cases hflag.symm.trans h
        exact .inl ⟨hvalue, rfl⟩
      | notPositive h hvalue hn =>
        cases hflag.symm.trans h
        exact .inr ⟨_, hvalue, hn, rfl⟩
      | background => cases hflag
  | none =>
    constructor
    · intro h
      cases flag with
      | verbose | output => cases h
      | width | height | steps => cases hflag
      | background =>
        obtain ⟨hvalue, rfl⟩ := color_eq_error_iff.mp (map_eq_error_iff.mp h)
        exact .background hvalue
    · intro h
      cases h with
      | notInteger h | notPositive h => cases hflag.symm.trans h
      | background hvalue => exact map_eq_error_iff.mpr (color_eq_error_iff.mpr ⟨hvalue, rfl⟩)

/-- Setting an option names no drawing. -/
theorem drawings_of_set {o next : Options} {flag : Flag} {value : Text}
    (h : o.set flag value = .ok next) : next.drawings = o.drawings := by
  cases hflag : flag.count? with
  | some name =>
    obtain ⟨place, hplace, hset⟩ := set_count o hflag value
    obtain ⟨n, rfl⟩ := of_map_eq_ok (hset.symm.trans h)
    exact hplace n
  | none =>
    cases flag with
    | verbose | output => cases h; rfl
    | width | height | steps => cases hflag
    | background => obtain ⟨c, rfl⟩ := of_map_eq_ok h; rfl

end Options

/-! ## 4. Reading -/

/-- A complaint about the first phrase that something is wrong with. -/
inductive FirstWrong : List Phrase → Complaint → Prop where
  | here {p : Phrase} {ps : List Phrase} {complaint : Complaint} (hp : p.Wrong complaint) :
      FirstWrong (p :: ps) complaint
  | later {p : Phrase} {ps : List Phrase} {complaint : Complaint} (hp : p.Good)
      (hps : FirstWrong ps complaint) : FirstWrong (p :: ps) complaint

/-- All phrases are good, or there is a first one that something is wrong with. -/
theorem good_or_firstWrong (ps : List Phrase) :
    (∀ p ∈ ps, p.Good) ∨ ∃ complaint, FirstWrong ps complaint := by
  induction ps with
  | nil => exact .inl (by simp)
  | cons p ps ih =>
    by_cases hwrong : ∃ complaint, p.Wrong complaint
    · obtain ⟨complaint, hp⟩ := hwrong
      exact .inr ⟨complaint, .here hp⟩
    · have hp : p.Good := fun complaint h => hwrong ⟨complaint, h⟩
      rcases ih with hps | ⟨complaint, hps⟩
      · exact .inl (List.forall_mem_cons.mpr ⟨hp, hps⟩)
      · exact .inr ⟨complaint, .later hp hps⟩

/-- The drawings that phrases name. -/
def named (ps : List Phrase) : List Text :=
  ps.filterMap fun
    | .drawing path => some path
    | _ => none

/-- The complaint about arguments that say these phrases. -/
inductive Refused : List Phrase → Complaint → Prop where
  | firstWrong {ps : List Phrase} {complaint : Complaint} (h : FirstWrong ps complaint) :
      Refused ps complaint
  | noDrawing {ps : List Phrase} (hgood : ∀ p ∈ ps, p.Good) (hnamed : named ps = []) :
      Refused ps .noDrawing

namespace Options

section Equations

variable (o : Options) {flag : Flag} {argument value : Text} {rest : List Text}

theorem readFrom_drawing (hspells : ∀ flag : Flag, ¬ flag.Spelled argument)
    (hdash : argument.head? ≠ some '-') :
    o.readFrom (argument :: rest) =
      { o with drawings := o.drawings ++ [argument] }.readFrom rest := by
  rw [readFrom, Flag.ofArgument?_eq_none_iff.mpr hspells]
  exact if_neg hdash

theorem readFrom_unknown (hspells : ∀ flag : Flag, ¬ flag.Spelled argument)
    (hdash : argument.head? = some '-') :
    o.readFrom (argument :: rest) = .error (.unknownOption argument) := by
  rw [readFrom, Flag.ofArgument?_eq_none_iff.mpr hspells]
  exact if_pos hdash

theorem readFrom_verbose (hspells : Flag.verbose.Spelled argument) :
    o.readFrom (argument :: rest) = { o with verbose := true }.readFrom rest := by
  rw [readFrom, hspells.ofArgument?]

theorem readFrom_unfinished (hspells : flag.Spelled argument) (hflag : flag ≠ .verbose) :
    o.readFrom [argument] = .error (.missingValue argument) := by
  rw [readFrom, hspells.ofArgument?]
  cases flag with
  | verbose => exact absurd rfl hflag
  | _ => rfl

theorem readFrom_setting (hspells : flag.Spelled argument) (hflag : flag ≠ .verbose) :
    o.readFrom (argument :: value :: rest) = o.set flag value >>= fun o => o.readFrom rest := by
  rw [readFrom, hspells.ofArgument?]
  cases flag with
  | verbose => exact absurd rfl hflag
  | _ => dsimp only; split <;> (rename_i hset; rw [hset]; rfl)

end Equations

/-- **Reading stops at the first phrase that something is wrong with.** -/
theorem readFrom_of_firstWrong {arguments : List Text} {ps : List Phrase} {complaint : Complaint}
    (hsaid : Says arguments ps) (hwrong : FirstWrong ps complaint) (o : Options) :
    o.readFrom arguments = .error complaint := by
  induction hsaid generalizing o with
  | nil => cases hwrong
  | drawing hspells hdash _ ih =>
    rw [readFrom_drawing o hspells hdash]
    cases hwrong with
    | here hp => cases hp
    | later _ hps => exact ih hps _
  | unknown hspells hdash _ ih =>
    rw [readFrom_unknown o hspells hdash]
    cases hwrong with
    | here hp => cases hp; rfl
    | later hp _ => exact absurd (.unknown _) (hp _)
  | verbose hspells _ ih =>
    rw [readFrom_verbose o hspells]
    cases hwrong with
    | here hp => cases hp
    | later _ hps => exact ih hps _
  | unfinished hspells hflag =>
    rw [readFrom_unfinished o hspells hflag]
    cases hwrong with
    | here hp => cases hp; rfl
    | later hp _ => exact absurd (.unfinished _) (hp _)
  | @setting _ value flag _ _ hspells hflag _ ih =>
    rw [readFrom_setting o hspells hflag]
    cases hwrong with
    | here hp => rw [set_eq_error_iff.mpr hp]; rfl
    | later hp hps =>
      cases hset : o.set flag value with
      | error complaint => exact absurd (set_eq_error_iff.mp hset) (hp _)
      | ok next => exact ih hps next

/-- **Good arguments are read to the end,** and the drawings are the ones that they name. -/
theorem readFrom_of_good {arguments : List Text} {ps : List Phrase} (hsaid : Says arguments ps)
    (hgood : ∀ p ∈ ps, p.Good) (o : Options) :
    ∃ last, o.readFrom arguments = .ok last ∧ last.drawings = o.drawings ++ named ps := by
  induction hsaid generalizing o with
  | nil => exact ⟨o, rfl, by simp [named]⟩
  | drawing hspells hdash _ ih =>
    obtain ⟨last, hlast, hdrawings⟩ := ih (List.forall_mem_cons.mp hgood).2 _
    exact ⟨last, (readFrom_drawing o hspells hdash).trans hlast, by simp [hdrawings, named]⟩
  | unknown => exact absurd (.unknown _) ((List.forall_mem_cons.mp hgood).1 _)
  | verbose hspells _ ih =>
    obtain ⟨last, hlast, hdrawings⟩ := ih (List.forall_mem_cons.mp hgood).2 _
    exact ⟨last, (readFrom_verbose o hspells).trans hlast, by simp [hdrawings, named]⟩
  | unfinished => exact absurd (.unfinished _) ((List.forall_mem_cons.mp hgood).1 _)
  | @setting _ value flag _ _ hspells hflag _ ih =>
    obtain ⟨hp, hps⟩ := List.forall_mem_cons.mp hgood
    rw [readFrom_setting o hspells hflag]
    cases hset : o.set flag value with
    | error complaint => exact absurd (set_eq_error_iff.mp hset) (hp _)
    | ok next =>
      obtain ⟨last, hlast, hdrawings⟩ := ih hps next
      exact ⟨last, hlast, by simp [hdrawings, drawings_of_set hset, named]⟩

theorem read_of_refused {arguments : List Text} {ps : List Phrase} {complaint : Complaint}
    (hsaid : Says arguments ps) (h : Refused ps complaint) : read arguments = .error complaint := by
  unfold read
  cases h with
  | firstWrong h => rw [readFrom_of_firstWrong hsaid h]; rfl
  | noDrawing hgood hnamed =>
    obtain ⟨last, hlast, hdrawings⟩ := readFrom_of_good hsaid hgood standard
    rw [hnamed] at hdrawings
    rw [hlast]
    exact if_pos (by rw [hdrawings]; rfl)

theorem read_of_good {arguments : List Text} {ps : List Phrase} (hsaid : Says arguments ps)
    (hgood : ∀ p ∈ ps, p.Good) (hnamed : named ps ≠ []) :
    ∃ o, read arguments = .ok o ∧ o.drawings = named ps := by
  obtain ⟨last, hlast, hdrawings⟩ := readFrom_of_good hsaid hgood standard
  have hsome : last.drawings = named ps := hdrawings
  refine ⟨last, ?_, hsome⟩
  unfold read
  rw [hlast]
  exact if_neg (by simpa [hsome] using hnamed)

end Options

end VectorPaint
