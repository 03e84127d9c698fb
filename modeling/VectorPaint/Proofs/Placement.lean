/-
# Where options stand does not matter

Arguments that are read to their end come in clauses: a drawing, the option for verbosity, or
another option with the value behind it, whatever the value looks like.  A clause about an option
writes to the place of this option among what is asked for, reads nothing of the other places, and
overwrites what was there.

So what is asked for depends on two things only: the drawings in order, and of each option the last
clause about it (`foldlM_unique`).  Neither changes when a clause about an option is moved past
drawings and clauses about other options, when an option is spelled the other way, or when a clause
is left out that a later one overwrites (`Rearranges`).  A session does the same with the arguments
before and after (`placement_free`).
-/
import VectorPaint.Proofs.Conversions
import Mathlib.Data.List.Induction
import Mathlib.Logic.Relation

namespace VectorPaint

/-! ## 1. What a phrase does -/

/-- The option that a phrase is about. -/
def Phrase.option? : Phrase → Option Flag
  | .verbose => some .verbose
  | .setting flag _ => some flag
  | .drawing _ | .unfinished _ | .unknown _ => none

namespace Options

variable {o p a b last : Options} {flag other : Flag} {value : Text}

/-- The options after one more phrase. -/
def after (o : Options) : Phrase → Except Complaint Options
  | .drawing path => .ok { o with drawings := o.drawings ++ [path] }
  | .verbose => .ok { o with verbose := true }
  | .setting flag value => o.set flag value
  | .unfinished argument => .error (.missingValue argument)
  | .unknown argument => .error (.unknownOption argument)

/-- **Reading arguments is doing what their phrases say,** one after the other. -/
theorem readFrom_eq_foldlM {arguments : List Text} {ps : List Phrase} (hsaid : Says arguments ps)
    (o : Options) : o.readFrom arguments = ps.foldlM after o := by
  induction hsaid generalizing o with
  | nil => rfl
  | drawing hspells hdash _ ih =>
    rw [readFrom_drawing o hspells hdash, ih]
    rfl
  | unknown hspells hdash _ _ =>
    rw [readFrom_unknown o hspells hdash]
    rfl
  | verbose hspells _ ih =>
    rw [readFrom_verbose o hspells, ih]
    rfl
  | unfinished hspells hflag =>
    rw [readFrom_unfinished o hspells hflag]
    rfl
  | setting hspells hflag _ ih =>
    rw [readFrom_setting o hspells hflag, List.foldlM_cons]
    simp only [ih]
    rfl

/-- Both ask for the same as far as one option goes. -/
def AgreeOn (o p : Options) : Flag → Prop
  | .verbose => o.verbose = p.verbose
  | .output => o.output = p.output
  | .width => o.frame.width = p.frame.width
  | .height => o.frame.height = p.frame.height
  | .steps => o.frame.steps = p.frame.steps
  | .background => o.background = p.background

theorem AgreeOn.refl (o : Options) (flag : Flag) : o.AgreeOn o flag := by
  cases flag <;> rfl

theorem AgreeOn.trans (h : o.AgreeOn a flag) (h' : a.AgreeOn p flag) : o.AgreeOn p flag := by
  cases flag <;> exact Eq.trans h h'

theorem AgreeOn.symm (h : o.AgreeOn p flag) : p.AgreeOn o flag := by
  cases flag <;> exact Eq.symm h

/-- There is nothing else to ask for besides the options and the drawings. -/
theorem eq_of_agreeOn (hdrawings : o.drawings = p.drawings) (h : ∀ flag, o.AgreeOn p flag) :
    o = p := by
  obtain ⟨verbose, output, ⟨width, height, steps⟩, background, drawings⟩ := o
  obtain ⟨verbose', output', ⟨width', height', steps'⟩, background', drawings'⟩ := p
  obtain rfl : verbose = verbose' := h .verbose
  obtain rfl : output = output' := h .output
  obtain rfl : width = width' := h .width
  obtain rfl : height = height' := h .height
  obtain rfl : steps = steps' := h .steps
  obtain rfl : background = background' := h .background
  obtain rfl : drawings = drawings' := hdrawings
  rfl

/-- Both results come from the same value. -/
theorem of_maps_eq_ok {ε α β γ : Type} {r : Except ε α} {f : α → β} {g : α → γ} {b : β} {c : γ}
    (hb : r.map f = .ok b) (hc : r.map g = .ok c) : ∃ x, f x = b ∧ g x = c := by
  cases r with
  | error e => cases hb
  | ok x => exact ⟨x, Except.ok.inj hb, Except.ok.inj hc⟩

/-- **An option is overwritten,** whatever it was. -/
theorem agreeOn_of_sets (ha : o.set flag value = .ok a) (hb : p.set flag value = .ok b) :
    a.AgreeOn b flag := by
  cases flag with
  | verbose | output =>
    cases ha
    cases hb
    rfl
  | width | height | steps | background =>
    obtain ⟨_, rfl, rfl⟩ := of_maps_eq_ok ha hb
    rfl

/-- **Setting an option leaves the others as they are.** -/
theorem agreeOn_of_set (h : o.set flag value = .ok a) (hother : other ≠ flag) :
    a.AgreeOn o other := by
  cases flag with
  | verbose | output =>
    cases h
    cases other <;> trivial
  | width | height | steps | background =>
    obtain ⟨_, rfl⟩ := of_map_eq_ok h
    cases other <;> trivial

/-! ## 2. What counts of many phrases -/

variable {ph : Phrase}

theorem agreeOn_of_afters (hph : ph.option? = some flag) (ha : o.after ph = .ok a)
    (hb : p.after ph = .ok b) : a.AgreeOn b flag := by
  cases ph with
  | verbose =>
    cases hph
    cases ha
    cases hb
    rfl
  | setting =>
    cases hph
    exact agreeOn_of_sets ha hb
  | drawing | unfinished | unknown => cases hph

theorem agreeOn_of_after (hph : ph.option? ≠ some flag) (ha : o.after ph = .ok a) :
    a.AgreeOn o flag := by
  cases ph with
  | drawing =>
    cases ha
    cases flag <;> rfl
  | verbose =>
    have hset : o.set .verbose [] = .ok a := ha
    refine agreeOn_of_set hset ?_
    rintro rfl
    exact hph rfl
  | setting =>
    refine agreeOn_of_set ha ?_
    rintro rfl
    exact hph rfl
  | unfinished | unknown => cases ha

end Options

/-- The phrases about an option, or those about none. -/
def about (topic : Option Flag) (ps : List Phrase) : List Phrase :=
  ps.filter fun ph => ph.option? = topic

theorem about_append (topic : Option Flag) (ps qs : List Phrase) :
    about topic (ps ++ qs) = about topic ps ++ about topic qs := List.filter_append _ _

theorem about_cons_of_eq {topic : Option Flag} {ph : Phrase} (h : ph.option? = topic)
    (ps : List Phrase) : about topic (ph :: ps) = ph :: about topic ps :=
  List.filter_cons_of_pos (decide_eq_true h)

theorem about_cons_of_ne {topic : Option Flag} {ph : Phrase} (h : ph.option? ≠ topic)
    (ps : List Phrase) : about topic (ph :: ps) = about topic ps :=
  List.filter_cons_of_neg (by simpa using h)

theorem about_eq_nil {topic : Option Flag} {ps : List Phrase}
    (h : ∀ ph ∈ ps, ph.option? ≠ topic) : about topic ps = [] :=
  List.filter_eq_nil_iff.mpr fun ph hph => by simpa using h ph hph

/-- The drawings are named by phrases that are about no option. -/
theorem named_about (ps : List Phrase) : named (about none ps) = named ps := by
  induction ps with
  | nil => rfl
  | cons ph ps ih =>
    cases ph with
    | drawing path => exact congrArg (path :: ·) ih
    | verbose | setting | unfinished | unknown => exact ih

/-- The phrases ask for the same: they are the same as far as they are about no option, and end in
the same phrase about each option. -/
structure AskAlike (ps qs : List Phrase) : Prop where
  drawings : about none ps = about none qs
  options : ∀ flag : Flag, (about (some flag) ps).getLast? = (about (some flag) qs).getLast?

namespace Options

/-- **Of an option that is given more than once the last value counts,** and one that is not given
is what it was. -/
theorem agreeOn_of_foldlM {ps : List Phrase} {o last : Options} (h : ps.foldlM after o = .ok last)
    (flag : Flag) :
    match (about (some flag) ps).getLast? with
    | none => last.AgreeOn o flag
    | some ph => ∃ before behind : Options,
        before.after ph = .ok behind ∧ last.AgreeOn behind flag := by
  -- The induction takes phrases off at the end: the last one counts, or it is about another option.
  induction ps using List.reverseRecOn generalizing last with
  | nil =>
    cases h
    exact .refl _ _
  | append_singleton ps ph ih =>
    rw [List.foldlM_append] at h
    cases hbefore : ps.foldlM after o with
    | error complaint =>
      rw [hbefore] at h
      cases h
    | ok before =>
      rw [hbefore] at h
      have hafter : before.after ph >>= pure = .ok last := h
      rw [bind_pure] at hafter
      rw [about_append]
      by_cases hph : ph.option? = some flag
      · rw [about_cons_of_eq hph, List.getLast?_append]
        exact ⟨before, last, hafter, .refl _ _⟩
      · have hnothing : about (some flag) [] = [] := rfl
        rw [about_cons_of_ne hph, hnothing, List.append_nil]
        have hkept := agreeOn_of_after hph hafter
        have hsofar := ih hbefore
        split at hsofar
        · exact hkept.trans hsofar
        · obtain ⟨b, c, hb, hc⟩ := hsofar
          exact ⟨b, c, hb, hkept.trans hc⟩

/-- Arguments that are read to their end say nothing wrong. -/
theorem good_of_readFrom {arguments : List Text} {ps : List Phrase} {o last : Options}
    (hsaid : Says arguments ps) (h : o.readFrom arguments = .ok last) : ∀ ph ∈ ps, ph.Good := by
  rcases good_or_firstWrong ps with hgood | ⟨complaint, hwrong⟩
  · exact hgood
  · rw [readFrom_of_firstWrong hsaid hwrong] at h
    cases h

/-- **What is asked for is the drawings in order and the last value of each option.** -/
theorem readFrom_congr {arguments rewritten : List Text} {ps qs : List Phrase} {o last : Options}
    (hps : Says arguments ps) (hqs : Says rewritten qs) (halike : AskAlike ps qs)
    (hgood : ∀ ph ∈ qs, ph.Good) (h : o.readFrom arguments = .ok last) :
    o.readFrom rewritten = .ok last := by
  obtain ⟨other, hother, hnamed⟩ := readFrom_of_good hqs hgood o
  obtain ⟨same, hsame, hnamed'⟩ := readFrom_of_good hps (good_of_readFrom hps h) o
  obtain rfl : last = same := Except.ok.inj (h.symm.trans hsame)
  rw [hother]
  refine congrArg Except.ok (eq_of_agreeOn ?_ fun flag => ?_)
  · rw [hnamed, hnamed', ← named_about qs, ← halike.drawings, named_about]
  · rw [readFrom_eq_foldlM hps] at h
    rw [readFrom_eq_foldlM hqs] at hother
    have hlast := agreeOn_of_foldlM h flag
    have hlast' := agreeOn_of_foldlM hother flag
    rw [← halike.options flag] at hlast'
    cases hend : (about (some flag) ps).getLast? with
    | none =>
      rw [hend] at hlast hlast'
      exact hlast'.trans hlast.symm
    | some ph =>
      rw [hend] at hlast hlast'
      obtain ⟨b, c, hc, hlastc⟩ := hlast
      obtain ⟨b', c', hc', hlastc'⟩ := hlast'
      have hph : ph.option? = some flag := by
        have := List.mem_of_getLast? hend
        simpa [about] using (List.mem_filter.mp this).2
      exact (hlastc'.trans (agreeOn_of_afters hph hc' hc)).trans hlastc.symm

end Options

/-! ## 3. Clauses -/

/-- The ways to spell an option. -/
inductive Spelling where
  | short | long
  deriving DecidableEq, Repr

/-- An option as it is spelled. -/
def Flag.spelled (flag : Flag) : Spelling → Text
  | .short => flag.short
  | .long => flag.long

theorem Flag.spelled_spelled (flag : Flag) (spelling : Spelling) :
    flag.Spelled (flag.spelled spelling) := by
  cases spelling
  · exact .inl rfl
  · exact .inr rfl

/-- Arguments that are read together, as they are written. -/
inductive Clause where
  | drawing (path : Text) (hspells : ∀ flag : Flag, ¬ flag.Spelled path)
      (hdash : path.head? ≠ some '-')
  | verbose (spelling : Spelling)
  | setting (flag : Flag) (hflag : flag ≠ .verbose) (spelling : Spelling) (value : Text)

namespace Clause

/-- The arguments of a clause. -/
def arguments : Clause → List Text
  | .drawing path _ _ => [path]
  | .verbose spelling => [Flag.verbose.spelled spelling]
  | .setting flag _ spelling value => [flag.spelled spelling, value]

/-- What a clause says, however it is spelled. -/
def phrase : Clause → Phrase
  | .drawing path _ _ => .drawing path
  | .verbose _ => .verbose
  | .setting flag _ _ value => .setting flag value

/-- The option that a clause is about. -/
def option? (c : Clause) : Option Flag := c.phrase.option?

/-- A clause with its option spelled in a given way. -/
def respelled (spelling : Spelling) : Clause → Clause
  | .drawing path hspells hdash => .drawing path hspells hdash
  | .verbose _ => .verbose spelling
  | .setting flag hflag _ value => .setting flag hflag spelling value

theorem phrase_respelled (spelling : Spelling) (c : Clause) :
    (c.respelled spelling).phrase = c.phrase := by
  cases c <;> rfl

/-- **Clauses are read as what they say.** -/
theorem says_arguments (cs : List Clause) : Says (cs.flatMap arguments) (cs.map phrase) := by
  induction cs with
  | nil => exact .nil
  | cons c cs ih =>
    cases c with
    | drawing path hspells hdash => exact .drawing hspells hdash ih
    | verbose spelling => exact .verbose (Flag.verbose.spelled_spelled spelling) ih
    | setting flag hflag spelling value =>
      exact .setting (flag.spelled_spelled spelling) hflag ih

theorem exists_spelled {flag : Flag} {argument : Text} (h : flag.Spelled argument) :
    ∃ spelling, flag.spelled spelling = argument := by
  rcases h with rfl | rfl
  · exact ⟨.short, rfl⟩
  · exact ⟨.long, rfl⟩

/-- **Arguments without a complaint are clauses.** -/
theorem exists_clauses {arguments : List Text} {ps : List Phrase} (hsaid : Says arguments ps)
    (hgood : ∀ ph ∈ ps, ph.Good) : ∃ cs : List Clause, cs.flatMap Clause.arguments = arguments := by
  induction hsaid with
  | nil => exact ⟨[], rfl⟩
  | drawing hspells hdash _ ih =>
    obtain ⟨cs, rfl⟩ := ih (List.forall_mem_cons.mp hgood).2
    exact ⟨.drawing _ hspells hdash :: cs, rfl⟩
  | unknown => exact absurd (.unknown _) ((List.forall_mem_cons.mp hgood).1 _)
  | verbose hspells _ ih =>
    obtain ⟨cs, rfl⟩ := ih (List.forall_mem_cons.mp hgood).2
    obtain ⟨spelling, rfl⟩ := exists_spelled hspells
    exact ⟨.verbose spelling :: cs, rfl⟩
  | unfinished => exact absurd (.unfinished _) ((List.forall_mem_cons.mp hgood).1 _)
  | setting hspells hflag _ ih =>
    obtain ⟨cs, rfl⟩ := ih (List.forall_mem_cons.mp hgood).2
    obtain ⟨spelling, rfl⟩ := exists_spelled hspells
    exact ⟨.setting _ hflag spelling _ :: cs, rfl⟩

end Clause

/-! ## 4. Rearranged clauses -/

/-- One change to a list of clauses that changes nothing of what is asked for. -/
inductive Rearranges : List Clause → List Clause → Prop where
  /-- A clause about an option is moved back, over clauses that are not about this option. -/
  | back {before passed behind : List Clause} {c : Clause} {flag : Flag}
      (hflag : c.option? = some flag) (hpassed : ∀ d ∈ passed, d.option? ≠ some flag) :
      Rearranges (before ++ c :: (passed ++ behind)) (before ++ (passed ++ c :: behind))
  /-- It is moved to the front. -/
  | front {before passed behind : List Clause} {c : Clause} {flag : Flag}
      (hflag : c.option? = some flag) (hpassed : ∀ d ∈ passed, d.option? ≠ some flag) :
      Rearranges (before ++ (passed ++ c :: behind)) (before ++ c :: (passed ++ behind))
  /-- The option of a clause is spelled in the other way. -/
  | respelled {before behind : List Clause} (c : Clause) (spelling : Spelling) :
      Rearranges (before ++ c :: behind) (before ++ c.respelled spelling :: behind)
  /-- A value is left out where the same option has another one later. -/
  | dropped {before behind : List Clause} {flag : Flag} {hflag : flag ≠ .verbose}
      {spelling : Spelling} {value : Text} (hlater : ∃ d ∈ behind, d.option? = some flag) :
      Rearranges (before ++ .setting flag hflag spelling value :: behind) (before ++ behind)

namespace AskAlike

variable {ps qs : List Phrase} {ph : Phrase} {flag : Flag}

theorem refl (ps : List Phrase) : AskAlike ps ps := ⟨rfl, fun _ => rfl⟩

theorem symm (h : AskAlike ps qs) : AskAlike qs ps :=
  ⟨h.drawings.symm, fun flag => (h.options flag).symm⟩

/-- What stands before does not matter. -/
theorem append_left (h : AskAlike ps qs) (before : List Phrase) :
    AskAlike (before ++ ps) (before ++ qs) := by
  refine ⟨?_, fun flag => ?_⟩
  · rw [about_append, about_append, h.drawings]
  · rw [about_append, about_append, List.getLast?_append, List.getLast?_append, h.options]

/-- **Phrases about different options can change places,** and so can drawings and options. -/
theorem moved (hph : ph.option? = some flag) (passed behind : List Phrase)
    (hpassed : ∀ d ∈ passed, d.option? ≠ some flag) :
    AskAlike (ph :: (passed ++ behind)) (passed ++ ph :: behind) := by
  -- Seen through the phrases about one topic, there is no difference: either those that are passed
  -- are not there or the one that is moved.
  have htopic : ∀ topic, about topic (ph :: (passed ++ behind)) =
      about topic (passed ++ ph :: behind) := by
    intro topic
    rw [about_append]
    by_cases h : ph.option? = topic
    · have hnone : about topic passed = [] := by
        refine about_eq_nil fun d hd => ?_
        rw [← h, hph]
        exact hpassed d hd
      rw [about_cons_of_eq h, about_cons_of_eq h, about_append, hnone]
      rfl
    · rw [about_cons_of_ne h, about_cons_of_ne h, about_append]
  exact ⟨htopic none, fun flag => congrArg List.getLast? (htopic (some flag))⟩

/-- **A phrase about an option does not count where a later one is about it as well.** -/
theorem dropped (hph : ph.option? = some flag) {behind : List Phrase}
    (hlater : ∃ d ∈ behind, d.option? = some flag) : AskAlike (ph :: behind) behind := by
  refine ⟨about_cons_of_ne (by simp [hph]) behind, fun other => ?_⟩
  by_cases h : ph.option? = some other
  · obtain ⟨d, hd, hoption⟩ := hlater
    have hmem : d ∈ about (some other) behind := by
      rw [about, List.mem_filter]
      exact ⟨hd, decide_eq_true (hoption.trans (hph.symm.trans h))⟩
    rw [about_cons_of_eq h, List.getLast?_cons]
    cases hrest : (about (some other) behind).getLast? with
    | none => simp [List.getLast?_eq_none_iff.mp hrest] at hmem
    | some last => rfl
  · rw [about_cons_of_ne h]

end AskAlike

namespace Rearranges

variable {cs ds : List Clause}

/-- **Rearranged clauses ask for the same.** -/
theorem askAlike (h : Rearranges cs ds) :
    AskAlike (cs.map Clause.phrase) (ds.map Clause.phrase) := by
  have hphrases : ∀ {passed : List Clause} {flag : Flag},
      (∀ d ∈ passed, d.option? ≠ some flag) →
        ∀ ph ∈ passed.map Clause.phrase, ph.option? ≠ some flag := by
    intro passed flag hpassed ph hph
    obtain ⟨d, hd, rfl⟩ := List.mem_map.mp hph
    exact hpassed d hd
  cases h with
  | back hflag hpassed =>
    simp only [List.map_append, List.map_cons]
    exact (AskAlike.moved hflag _ _ (hphrases hpassed)).append_left _
  | front hflag hpassed =>
    simp only [List.map_append, List.map_cons]
    exact (AskAlike.moved hflag _ _ (hphrases hpassed)).symm.append_left _
  | respelled c spelling =>
    simp only [List.map_append, List.map_cons, c.phrase_respelled]
    exact .refl _
  | dropped hlater =>
    simp only [List.map_append, List.map_cons]
    obtain ⟨d, hd, hoption⟩ := hlater
    exact (AskAlike.dropped rfl ⟨_, List.mem_map_of_mem hd, hoption⟩).append_left _

/-- Rearranging adds nothing to what the clauses say. -/
theorem phrase_subset (h : Rearranges cs ds) : ds.map Clause.phrase ⊆ cs.map Clause.phrase := by
  cases h with
  | back | front | dropped =>
    refine List.map_subset _ fun d hd => ?_
    simp only [List.mem_append, List.mem_cons] at hd ⊢
    tauto
  | respelled c spelling =>
    simp only [List.map_append, List.map_cons, c.phrase_respelled]
    exact List.Subset.refl _

/-- **Rearranged clauses are read alike.** -/
theorem read_eq (h : Rearranges cs ds) {o : Options}
    (hread : Options.read (cs.flatMap Clause.arguments) = .ok o) :
    Options.read (ds.flatMap Clause.arguments) = .ok o := by
  have hcs := Clause.says_arguments cs
  have hds := Clause.says_arguments ds
  unfold Options.read at hread ⊢
  cases hlast : Options.standard.readFrom (cs.flatMap Clause.arguments) with
  | error complaint =>
    rw [hlast] at hread
    cases hread
  | ok last =>
    have hgood := Options.good_of_readFrom hcs hlast
    rw [Options.readFrom_congr hcs hds h.askAlike (fun ph hph => hgood ph (h.phrase_subset hph))
      hlast]
    rwa [hlast] at hread

end Rearranges

/-! ## 5. Sessions -/

namespace Session

/-- **Where the options stand, how they are spelled and what they were before does not matter.**
Arguments without a complaint are a list of clauses.  However often this list is rearranged, the
session is the same, with letters of any form and with any saver: it ends with the same result,
prints the same lines, keeps the same records and saves the same pictures. -/
theorem placement_free (letters : Lettering) (saver : Saver) {arguments : List Text} {o : Options}
    (hread : Options.read arguments = .ok o) :
    (∃ cs : List Clause, cs.flatMap Clause.arguments = arguments) ∧
      ∀ cs ds : List Clause, cs.flatMap Clause.arguments = arguments →
        Relation.ReflTransGen Rearranges cs ds →
          ∀ disk, runWith letters saver (ds.flatMap Clause.arguments) disk =
            runWith letters saver arguments disk := by
  have hne : ∀ {as : List Text}, Options.read as = .ok o → as ≠ [] := by
    rintro as has rfl
    cases has
  constructor
  · obtain ⟨ps, hps⟩ := exists_says arguments
    rcases good_or_firstWrong ps with hgood | ⟨complaint, hwrong⟩
    · exact Clause.exists_clauses hps hgood
    · rw [Options.read_of_refused hps (.firstWrong hwrong)] at hread
      cases hread
  · rintro cs ds rfl hrearranged disk
    have hrearranges : Options.read (ds.flatMap Clause.arguments) = .ok o := by
      induction hrearranged with
      | refl => exact hread
      | tail _ hstep ih => exact hstep.read_eq ih
    rw [run_of_options (hne hread) hread, run_of_options (hne hrearranges) hrearranges]

/-- A drawing among the clauses. -/
def anyDrawing : Clause :=
  .drawing "a.svg".toList (Flag.ofArgument?_eq_none_iff.mp (by decide)) (by decide)

/-- An output that looks like an option. -/
def dashedOutput (spelling : Spelling) : Clause := .setting .output (by decide) spelling ['-', 'v']

/-- A width. -/
def someWidth (spelling : Spelling) (value : Text) : Clause :=
  .setting .width (by decide) spelling value

/-- The first of two widths is left out and the second one spelled shorter, and verbosity and the
output, which is spelled longer, move to the front. -/
theorem placement_free_dashedOutput :
    Options.read ["a.svg".toList, ['-', 'o'], ['-', 'v'], ['-', 'w'], ['1'], ['-', 'v'],
        "--width".toList, ['2']] =
      .ok ⟨true, ['-', 'v'], { Frame.standard with width := 2 }, ⟨0, 0, 0⟩, ["a.svg".toList]⟩ ∧
    runWith .blocks .png [['-', 'v'], "--output".toList, ['-', 'v'], "a.svg".toList, ['-', 'w'],
        ['2']] halfReadable =
      runWith .blocks .png ["a.svg".toList, ['-', 'o'], ['-', 'v'], ['-', 'w'], ['1'], ['-', 'v'],
        "--width".toList, ['2']] halfReadable := by
  have hread : Options.read ["a.svg".toList, ['-', 'o'], ['-', 'v'], ['-', 'w'], ['1'],
      ['-', 'v'], "--width".toList, ['2']] =
        .ok ⟨true, ['-', 'v'], { Frame.standard with width := 2 }, ⟨0, 0, 0⟩,
          ["a.svg".toList]⟩ := by rfl
  have hdropped : Rearranges
      [anyDrawing, dashedOutput .short, someWidth .short ['1'], .verbose .short,
        someWidth .long ['2']]
      [anyDrawing, dashedOutput .short, .verbose .short, someWidth .long ['2']] :=
    @Rearranges.dropped [anyDrawing, dashedOutput .short] _ _ _ _ _
      ⟨someWidth .long ['2'], by simp, rfl⟩
  have hverbose : Rearranges
      [anyDrawing, dashedOutput .short, .verbose .short, someWidth .long ['2']]
      [.verbose .short, anyDrawing, dashedOutput .short, someWidth .long ['2']] :=
    @Rearranges.front [] [anyDrawing, dashedOutput .short] _ _ _ rfl (by simp; decide)
  have houtput : Rearranges
      [.verbose .short, anyDrawing, dashedOutput .short, someWidth .long ['2']]
      [.verbose .short, dashedOutput .short, anyDrawing, someWidth .long ['2']] :=
    @Rearranges.front [.verbose .short] [anyDrawing] _ _ _ rfl (by simp; decide)
  have hlonger : Rearranges
      [.verbose .short, dashedOutput .short, anyDrawing, someWidth .long ['2']]
      [.verbose .short, dashedOutput .long, anyDrawing, someWidth .long ['2']] :=
    @Rearranges.respelled [.verbose .short] _ (dashedOutput .short) .long
  have hshorter : Rearranges
      [.verbose .short, dashedOutput .long, anyDrawing, someWidth .long ['2']]
      [.verbose .short, dashedOutput .long, anyDrawing, someWidth .short ['2']] :=
    @Rearranges.respelled [.verbose .short, dashedOutput .long, anyDrawing] []
      (someWidth .long ['2']) .short
  have hall := ((((Relation.ReflTransGen.single hdropped).tail hverbose).tail houtput).tail
    hlonger).tail hshorter
  exact ⟨hread, (placement_free .blocks .png hread).2 _ _ rfl hall halfReadable⟩

end Session

end VectorPaint
