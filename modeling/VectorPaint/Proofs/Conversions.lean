/-
# How a session goes on and ends

Each drawing is converted on its own.  It can be missing, unreadable, no text, or its picture can
be refused by the saver, and then the session says so and turns to the next one; only a fault ends
it.  So a conversion that comes to its end is of three kinds (`Conversion`): one picture was saved at
the chosen path, one was refused, or there was none and the disk is as it was.

Put one after the other, the conversions tell what the session as a whole does (`Converts`), and
the count that it keeps is the number of drawings that left a picture.  With what is known about
good and bad arguments this is all that a session can do (`session_answers`), whatever its letters
look like and whatever its saver does.
-/
import VectorPaint.Proofs.Arguments

namespace VectorPaint.Session

variable {letters : Lettering} {saver : Saver} {o : Options} {disk next last : Disk} {output : Text}
  {part : List Output}

/-! ## 1. Pictures among what is left -/

/-- The pictures among what a session leaves, with their paths. -/
def pictures (outputs : List Output) : List (Text × Picture) :=
  outputs.filterMap fun
    | .saved path p => some (path, p)
    | .line _ => none
    | .record _ => none

@[simp] theorem pictures_nil : pictures [] = [] := rfl

@[simp] theorem pictures_cons_line (t : Text) (outputs : List Output) :
    pictures (.line t :: outputs) = pictures outputs := rfl

@[simp] theorem pictures_append (outputs more : List Output) :
    pictures (outputs ++ more) = pictures outputs ++ pictures more :=
  List.filterMap_append

@[simp] theorem pictures_lines (ts : List Text) : pictures (ts.map .line) = [] := by
  simp [pictures, List.filterMap_map]

@[simp] theorem pictures_records (rs : List Record) : pictures (rs.map .record) = [] := by
  simp [pictures, List.filterMap_map]

/-! ## 2. One drawing -/

/-- What converting a drawing to a path leaves when it comes to its end: one picture, which was
saved at the path, or none, because it was refused or because there was nothing to save. -/
inductive Conversion (saver : Saver) (disk : Disk) (output : Text) (part : List Output) :
    Bool → Disk → Prop where
  | saved {p : Picture} {next : Disk} (hpart : pictures part = [(output, p)])
      (hsave : saver disk output p = .ok (.saved next)) :
    Conversion saver disk output part true next
  | refused {p : Picture} {message : Text} {next : Disk} (hpart : pictures part = [])
      (hsave : saver disk output p = .ok (.refused message next)) :
    Conversion saver disk output part false next
  | failed (hpart : pictures part = []) : Conversion saver disk output part false disk

theorem Conversion.prepend {choosing : List Output} {isSaved : Bool}
    (h : Conversion saver disk output part isSaved next) (hchoosing : pictures choosing = []) :
    Conversion saver disk output (choosing ++ part) isSaved next := by
  cases h with
  | saved hpart hsave => exact .saved (by rw [pictures_append, hchoosing, hpart]; rfl) hsave
  | refused hpart hsave => exact .refused (by rw [pictures_append, hchoosing, hpart]; rfl) hsave
  | failed hpart => exact .failed (by rw [pictures_append, hchoosing, hpart]; rfl)

/-- A computation that converts a drawing to a path, unless a fault stops it. -/
def Converting (saver : Saver) (disk : Disk) (output : Text) (j : Journal Output (Bool × Disk)) :
    Prop :=
  ∀ isSaved next, j.outcome = .ok (isSaved, next) →
    Conversion saver disk output j.entries isSaved next

/-- What goes before a conversion may print lines and keep records. -/
theorem Converting.bind {α : Type} {j : Journal Output α} {f : α → Journal Output (Bool × Disk)}
    (hj : pictures j.entries = []) (hf : ∀ a, Converting saver disk output (f a)) :
    Converting saver disk output (j >>= f) := by
  intro isSaved next h
  obtain ⟨es, r⟩ := j
  cases r with
  | error fault => cases h
  | ok a =>
    exact (hf a isSaved next h).prepend hj

/-- A drawing that is given up leaves no picture. -/
theorem converting_given_up (t : Text) :
    Converting saver disk output (do say t; return (false, disk)) := by
  intro isSaved next h
  cases h
  exact .failed rfl

/-- Lines that are printed in some cases only do not matter to a conversion. -/
theorem Converting.ite {c : Prop} [Decidable c] {j : Journal Output Unit}
    {f : Unit → Journal Output (Bool × Disk)} (hj : pictures j.entries = [])
    (hf : ∀ u, Converting saver disk output (f u)) :
    Converting saver disk output (if c then j >>= f else f ()) := by
  split
  · exact Converting.bind hj hf
  · exact hf ()

/-- **A conversion that comes to its end has saved one picture or none.** -/
theorem convert_converting (letters : Lettering) (saver : Saver) (o : Options) (disk : Disk)
    (drawing output : Text) :
    Converting saver disk output (convert letters saver o disk drawing output) := by
  -- Lines and records do not matter, so what counts are the two places where a drawing is given
  -- up, and the one where its picture is given to the saver.
  unfold convert
  split
  · exact converting_given_up _
  · split
    · exact Converting.ite rfl fun _ => converting_given_up _
    · refine Converting.ite rfl fun _ => Converting.bind rfl fun doc => ?_
      refine Converting.ite (pictures_lines _) fun _ => Converting.bind rfl fun rendering => ?_
      refine Converting.bind (pictures_records _) fun _ => Converting.bind rfl fun p => ?_
      intro isSaved next h
      cases hsave : saver disk output p with
      | error fault =>
        rw [hsave] at h
        cases h
      | ok saving =>
        rw [hsave] at h
        cases saving with
        | saved next =>
          cases h
          exact .saved rfl hsave
        | refused message next =>
          cases h
          exact .refused rfl hsave

/-! ## 3. All drawings -/

/-- Drawings converted one after the other, each on the disk that the ones before it left, with
what each of them left and the disk behind them all. -/
inductive Converts (letters : Lettering) (saver : Saver) (o : Options) :
    Disk → List Text → List (List Output) → Disk → Prop where
  | nil (disk : Disk) : Converts letters saver o disk [] [] disk
  | cons {disk next last : Disk} {drawing output : Text} {drawings : List Text}
      {choosing converting : List Output} {parts : List (List Output)} {isSaved : Bool}
      (hchosen : outputFor o disk drawing = ⟨choosing, .ok output⟩)
      (hconverted : convert letters saver o disk drawing output =
        ⟨converting, .ok (isSaved, next)⟩)
      (hpart : Conversion saver disk output (choosing ++ converting) isSaved next)
      (hrest : Converts letters saver o next drawings parts last) :
      Converts letters saver o disk (drawing :: drawings) ((choosing ++ converting) :: parts) last

/-- How many of the drawings left a picture. -/
def savedAmong (parts : List (List Output)) : Nat :=
  parts.countP fun part => !(pictures part).isEmpty

/-- Choosing a path comes to its end and saves nothing. -/
theorem exists_outputFor (o : Options) (disk : Disk) (drawing : Text) :
    ∃ choosing output, outputFor o disk drawing = ⟨choosing, .ok output⟩ ∧
      pictures choosing = [] := by
  unfold outputFor
  split
  · exact ⟨[], _, rfl, rfl⟩
  · split
    · exact ⟨[], _, rfl, rfl⟩
    · split
      · exact ⟨[], _, rfl, rfl⟩
      · exact ⟨_, _, rfl, rfl⟩

theorem savedAmong_cons {isSaved : Bool} (h : Conversion saver disk output part isSaved next)
    (parts : List (List Output)) :
    savedAmong (part :: parts) = (if isSaved then 1 else 0) + savedAmong parts := by
  cases h with
  | saved hpart _ => simp [savedAmong, hpart, Nat.add_comm]
  | refused hpart _ => simp [savedAmong, hpart]
  | failed hpart => simp [savedAmong, hpart]

/-- **Unless a fault stops it, a session gets through all drawings,** and counts the ones that
left a picture. -/
theorem converts_of_convertAll {drawings : List Text} {saved total : Nat}
    (h : (convertAll letters saver o disk saved drawings).outcome = .ok (total, last)) :
    ∃ parts, Converts letters saver o disk drawings parts last ∧
      convertAll letters saver o disk saved drawings =
        ⟨parts.flatten, .ok (saved + savedAmong parts, last)⟩ := by
  induction drawings generalizing disk saved with
  | nil =>
    cases h
    exact ⟨[], .nil _, rfl⟩
  | cons drawing drawings ih =>
    obtain ⟨choosing, output, hchosen, hquiet⟩ := exists_outputFor o disk drawing
    have hanswer := convert_converting letters saver o disk drawing output
    rw [convertAll, hchosen, Journal.bind_ok] at h ⊢
    generalize hconverted : convert letters saver o disk drawing output = j at h hanswer ⊢
    obtain ⟨converting, r⟩ := j
    cases r with
    | error fault => cases h
    | ok answer =>
      obtain ⟨isSaved, next⟩ := answer
      have hpart := (hanswer isSaved next rfl).prepend hquiet
      obtain ⟨parts, hparts, hall⟩ := ih h
      refine ⟨_, .cons hchosen hconverted hpart hparts, ?_⟩
      dsimp only [Journal.bind_ok]
      rw [hall, savedAmong_cons hpart]
      cases isSaved <;> simp [Nat.add_assoc]

/-- Each drawing leaves one picture at most, so the pictures count the drawings that left one. -/
theorem Converts.length_pictures {drawings : List Text} {parts : List (List Output)}
    (h : Converts letters saver o disk drawings parts last) :
    (pictures parts.flatten).length = savedAmong parts := by
  induction h with
  | nil => rfl
  | cons _ _ hpart _ ih =>
    rw [List.flatten_cons, pictures_append, List.length_append, savedAmong_cons hpart, ih]
    cases hpart with
    | saved hp _ => rw [hp]; rfl
    | refused hp _ => rw [hp]; rfl
    | failed hp => rw [hp]; rfl

theorem runOptions_of_convertAll {es : List Output} {total : Nat}
    (h : convertAll letters saver o disk 0 o.drawings = ⟨es, .ok (total, last)⟩) :
    runOptions letters saver o disk = ⟨es ++ [.line [], .line (tally total o.drawings.length)],
      .ok ⟨if total = o.drawings.length then 0 else 1, last⟩⟩ := by
  rw [runOptions, h]
  rfl

/-! ## 4. The whole session -/

theorem run_of_complaint {arguments : List Text} {complaint : Complaint} (h : arguments ≠ [])
    (hread : Options.read arguments = .error complaint) (disk : Disk) :
    runWith letters saver arguments disk = ⟨[.line complaint.message], .ok ⟨2, disk⟩⟩ := by
  rw [runWith, if_neg (by simpa using h), hread]
  rfl

theorem run_of_options {arguments : List Text} (h : arguments ≠ [])
    (hread : Options.read arguments = .ok o) (disk : Disk) :
    runWith letters saver arguments disk = runOptions letters saver o disk := by
  rw [runWith, if_neg (by simpa using h), hread]

/-- **Bad arguments touch nothing, and good ones are carried out to the end,** with letters of any
form and with any saver.  The arguments say some phrases and nothing else.  If something is wrong
with one of these, or none names a drawing, then the session prints one line, the complaint, and
ends with 2; it saves nothing and leaves the disk as it is.  If not, then a session that no fault
stops has converted all named drawings in order, its last line counts those that left a picture, and
it ends with 0 if that are all of them and with 1 if not. -/
theorem session_answers (letters : Lettering) (saver : Saver) {arguments : List Text}
    (h : arguments ≠ []) (disk : Disk) :
    ∃ ps, (∀ qs, Says arguments qs ↔ qs = ps) ∧
      ((∃ p ∈ ps, ¬ p.Good) ∨ named ps = [] →
        ∃ complaint, Refused ps complaint ∧
          runWith letters saver arguments disk =
            ⟨[.line complaint.message], .ok ⟨2, disk⟩⟩) ∧
      ((∀ p ∈ ps, p.Good) → named ps ≠ [] →
        ∃ o, Options.read arguments = .ok o ∧
          ∀ finish, (runWith letters saver arguments disk).outcome = .ok finish →
            ∃ parts, Converts letters saver o disk (named ps) parts finish.disk ∧
              (runWith letters saver arguments disk).entries = parts.flatten ++
                [.line [], .line (tally (savedAmong parts) (named ps).length)] ∧
              finish.code = if savedAmong parts = (named ps).length then 0 else 1) := by
  obtain ⟨ps, hps⟩ := exists_says arguments
  refine ⟨ps, fun qs => ⟨fun hqs => hqs.unique hps, fun hqs => hqs ▸ hps⟩, ?_, ?_⟩
  · intro hbad
    obtain ⟨complaint, hrefused⟩ : ∃ complaint, Refused ps complaint := by
      rcases good_or_firstWrong ps with hgood | ⟨complaint, hwrong⟩
      · rcases hbad with ⟨p, hp, hbad⟩ | hnamed
        · exact absurd (hgood p hp) hbad
        · exact ⟨_, .noDrawing hgood hnamed⟩
      · exact ⟨complaint, .firstWrong hwrong⟩
    exact ⟨complaint, hrefused, run_of_complaint h (Options.read_of_refused hps hrefused) disk⟩
  · intro hgood hnamed
    obtain ⟨o, hread, hdrawings⟩ := Options.read_of_good hps hgood hnamed
    refine ⟨o, hread, fun finish hfinish => ?_⟩
    rw [run_of_options h hread] at hfinish ⊢
    obtain ⟨⟨total, last⟩, htotal, -⟩ := Journal.outcome_bind_eq_ok.mp hfinish
    obtain ⟨parts, hparts, hall⟩ := converts_of_convertAll htotal
    rw [Nat.zero_add] at hall
    rw [runOptions_of_convertAll hall, hdrawings] at hfinish ⊢
    cases hfinish
    exact ⟨parts, hdrawings ▸ hparts, rfl, rfl⟩

/-- Three drawings with options between them. -/
def threeDrawings : List Text :=
  ["a.svg".toList, ['-', 'w'], ['1'], "b.svg".toList, "--height".toList, ['1'], "c.svg".toList]

/-- The first of three drawings is a square, the second is not there, and the third holds a byte
that starts no code point. -/
def halfReadable : Disk :=
  let square := "<rect width=\"9\" height=\"9\"/>".toList
  ⟨[], [(["a.svg".toList], .file (square.map fun c => c.val.toUInt8)),
    (["c.svg".toList], .file [255])]⟩

/-- With a bad option behind them the three drawings are not touched; without it all three are
converted, one is saved and counted, and the session ends with 1. -/
theorem session_answers_threeDrawings :
    (threeDrawings ++ [['-', 's'], ['0']] ≠ [] ∧
      runWith .blocks .png (threeDrawings ++ [['-', 's'], ['0']]) halfReadable =
        ⟨[.line "Error: Steps must be positive".toList], .ok ⟨2, halfReadable⟩⟩) ∧
    threeDrawings ≠ [] ∧
      ∃ o parts finish, (runWith .blocks .png threeDrawings halfReadable).outcome = .ok finish ∧
        Converts .blocks .png o halfReadable ["a.svg".toList, "b.svg".toList, "c.svg".toList] parts
          finish.disk ∧
        (runWith .blocks .png threeDrawings halfReadable).entries = parts.flatten ++
          [.line [], .line "Processed 1/3 file(s) successfully".toList] ∧
        finish.code = 1 := by
  have hv : ∀ {argument : Text}, Flag.ofArgument? argument = none →
      ∀ flag : Flag, ¬ flag.Spelled argument := Flag.ofArgument?_eq_none_iff.mp
  have hsaid : ∀ {rest : List Text} {ps : List Phrase}, Says rest ps →
      Says (threeDrawings ++ rest) (.drawing "a.svg".toList :: .setting .width ['1'] ::
        .drawing "b.svg".toList :: .setting .height ['1'] :: .drawing "c.svg".toList :: ps) :=
    fun hrest => .drawing (hv (by decide)) (by decide) <| .setting (.inl rfl) (by decide) <|
      .drawing (hv (by decide)) (by decide) <| .setting (.inr rfl) (by decide) <|
      .drawing (hv (by decide)) (by decide) hrest
  have hbadly : threeDrawings ++ [['-', 's'], ['0']] ≠ [] := by decide
  have hwell : threeDrawings ≠ [] := by decide
  refine ⟨⟨hbadly, ?_⟩, hwell, ?_⟩
  · obtain ⟨ps, hps, hbad, -⟩ := session_answers .blocks .png hbadly halfReadable
    have htail : Says [['-', 's'], ['0']] [.setting .steps ['0']] :=
      .setting (.inl rfl) (by decide) .nil
    have hphrases := hsaid htail
    obtain rfl := (hps _).mp hphrases
    have hzero : Number.readWhole? ['0'] = some 0 := by decide
    have hwrong : (Phrase.setting .steps ['0']).Wrong (.notPositive "Steps".toList) :=
      .notPositive rfl hzero (Int.le_refl 0)
    obtain ⟨complaint, hrefused, hrun⟩ :=
      hbad (.inl ⟨.setting .steps ['0'], by simp, fun hgood => hgood _ hwrong⟩)
    have hread : Options.read (threeDrawings ++ [['-', 's'], ['0']]) =
        .error (.notPositive "Steps".toList) := by rfl
    cases hread.symm.trans (Options.read_of_refused hphrases hrefused)
    exact hrun
  · obtain ⟨ps, hps, -, hgood⟩ := session_answers .blocks .png hwell halfReadable
    have hphrases := hsaid .nil
    rw [List.append_nil] at hphrases
    obtain rfl := (hps _).mp hphrases
    have hone : Number.readWhole? ['1'] = some 1 := by decide
    have hset : ∀ flag, flag = .width ∨ flag = .height → (Phrase.setting flag ['1']).Good := by
      intro flag hflag complaint hwrong
      cases hwrong with
      | notInteger _ hvalue => cases hone.symm.trans hvalue
      | notPositive _ hvalue hn =>
        cases hone.symm.trans hvalue
        exact absurd hn (by decide)
      | background => simp at hflag
    have hdrawing : ∀ path, (Phrase.drawing path).Good := fun _ _ h => nomatch h
    have hphrasesGood := List.forall_mem_cons.mpr ⟨hdrawing "a.svg".toList,
      List.forall_mem_cons.mpr ⟨hset .width (.inl rfl), List.forall_mem_cons.mpr
        ⟨hdrawing "b.svg".toList, List.forall_mem_cons.mpr ⟨hset .height (.inr rfl),
          List.forall_mem_singleton.mpr (hdrawing "c.svg".toList)⟩⟩⟩⟩
    obtain ⟨o, -, hall⟩ := hgood hphrasesGood (by decide)
    have hends : (runWith .blocks .png threeDrawings halfReadable).outcome.toOption.map (·.code) = some 1 := by
      decide +kernel
    have hsaved : (pictures (runWith .blocks .png threeDrawings halfReadable).entries).length = 1 := by
      decide +kernel
    cases hfinish : (runWith .blocks .png threeDrawings halfReadable).outcome with
    | error fault => rw [hfinish] at hends; cases hends
    | ok finish =>
      rw [hfinish] at hends
      obtain ⟨parts, hparts, hentries, -⟩ := hall finish hfinish
      have hlength : savedAmong parts = 1 := by
        rw [hentries] at hsaved
        rw [← hparts.length_pictures, ← hsaved]
        simp
      rw [hlength] at hentries
      exact ⟨o, parts, finish, rfl, hparts, hentries, Option.some.inj hends⟩

end VectorPaint.Session
