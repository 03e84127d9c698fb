/-
# Pictures of several drawings

A session that ends with 0 has reported a saved picture for each of its drawings.  What a drawing
leaves is its own picture, painted from the text that was there at the start: PNG files that were
saved before it are no texts, so it cannot be one of them (`pictureOf?_withFiles`).  All this is
said of a saver that is faithful, and of letters of any form.

Only the name of the picture decides where it is saved, and different names lead to different
places.  So what is found at a path in the end is the picture of the last drawing of that name
(`last_picture_stays`).  The name leaves out the folder that the drawing is in, and nothing looks
whether an earlier drawing has had the same name: there the earlier picture is lost, with no word
about it (`picture_lost`).
-/
import VectorPaint.Proofs.Conversions
import VectorPaint.Proofs.Savers

namespace VectorPaint

/-- A composed journal with a value is made of two that have one. -/
theorem Journal.bind_eq_ok {ε α β : Type} {j : Journal ε α} {f : α → Journal ε β} {es : List ε}
    {b : β} (h : j >>= f = ⟨es, .ok b⟩) :
    ∃ es₁ a es₂, j = ⟨es₁, .ok a⟩ ∧ f a = ⟨es₂, .ok b⟩ ∧ es = es₁ ++ es₂ := by
  obtain ⟨es₁, r⟩ := j
  cases r with
  | error fault => cases h
  | ok a =>
    rw [bind_ok] at h
    generalize hrest : f a = rest at h
    obtain ⟨es₂, r⟩ := rest
    cases h
    exact ⟨es₁, a, es₂, rfl, hrest, rfl⟩

/-- What is only done in some cases and has no value of its own comes before the rest. -/
theorem Journal.ite_eq_ok {ε β : Type} {c : Prop} [Decidable c] {j : Journal ε Unit}
    {f : Unit → Journal ε β} {es : List ε} {b : β}
    (h : (if c then j >>= f else f ()) = ⟨es, .ok b⟩) :
    ∃ es₁ es₂, f () = ⟨es₂, .ok b⟩ ∧ es = es₁ ++ es₂ := by
  split at h
  · obtain ⟨es₁, _, es₂, -, hrest, hes⟩ := bind_eq_ok h
    exact ⟨es₁, es₂, hrest, hes⟩
  · exact ⟨[], es, h, rfl⟩

/-- A lifted computation with a value. -/
theorem Journal.lift_eq_ok {ε α : Type} {r : Except Fault α} {es : List ε} {a : α}
    (h : (liftM r : Journal ε α) = ⟨es, .ok a⟩) : r = .ok a := congrArg Journal.outcome h

/-- What some members of a list have, some last member has. -/
theorem exists_last {α : Type} {l : List α} {has : α → Prop} (h : ∃ x ∈ l, has x) :
    ∃ before x behind, l = before ++ x :: behind ∧ has x ∧ ∀ y ∈ behind, ¬ has y := by
  induction l with
  | nil => simp at h
  | cons a l ih =>
    by_cases hlater : ∃ x ∈ l, has x
    · obtain ⟨before, x, behind, rfl, hx⟩ := ih hlater
      exact ⟨a :: before, x, behind, rfl, hx⟩
    · obtain ⟨x, hx, hhas⟩ := h
      rcases List.mem_cons.mp hx with rfl | hx
      · exact ⟨[], x, l, rfl, hhas, fun y hy hy' => hlater ⟨y, hy, hy'⟩⟩
      · exact absurd ⟨x, hx, hhas⟩ hlater

namespace Session

variable {letters : Lettering} {saver : Saver} {opened : List UInt8 → Option Picture} {o : Options}
  {disk next last : Disk} {drawing output : Text}

/-! ## 1. The picture of a drawing -/

/-- A drawing's own picture, if the drawing can be read and painted. -/
def pictureOf? (letters : Lettering) (o : Options) (disk : Disk) (drawing : Text) :
    Option Picture :=
  match readDrawing disk drawing with
  | .error _ => none
  | .ok source =>
    ((Rendering.ofTextWith letters o.frame source).bind fun r =>
      r.canvas.picture o.background).toOption

/-- A drawing's own picture is proper. -/
theorem isProper_pictureOf? {p : Picture} (h : pictureOf? letters o disk drawing = some p) :
    p.IsProper := by
  unfold pictureOf? at h
  split at h
  · cases h
  · rename_i source _
    cases hr : (Rendering.ofTextWith letters o.frame source).bind fun r =>
        r.canvas.picture o.background with
    | error fault =>
      rw [hr] at h
      cases h
    | ok q =>
      rw [hr] at h
      cases h
      obtain ⟨rendering, -, hpicture⟩ := of_bind_ok hr
      exact Canvas.isProper_picture hpicture

theorem convert_saved {es : List Output}
    (h : convert letters saver o disk drawing output = ⟨es, .ok (true, next)⟩) :
    ∃ p, pictureOf? letters o disk drawing = some p ∧ saver disk output p = .ok (.saved next) ∧
      .line (report o drawing output) ∈ es := by
  unfold convert at h
  split at h
  · cases h
  · obtain ⟨es₁, es₂, hread, rfl⟩ := Journal.ite_eq_ok h
    cases hsource : readDrawing disk drawing with
    | error message =>
      rw [hsource] at hread
      cases hread
    | ok source =>
      rw [hsource] at hread
      obtain ⟨_, doc, es₃, -, hdocument, rfl⟩ := Journal.bind_eq_ok hread
      obtain ⟨_, es₄, hdescribed, rfl⟩ := Journal.ite_eq_ok hdocument
      obtain ⟨_, rendering, es₅, hrendering, hpainted, rfl⟩ := Journal.bind_eq_ok hdescribed
      obtain ⟨_, _, es₆, -, hrecorded, rfl⟩ := Journal.bind_eq_ok hpainted
      obtain ⟨_, p, es₇, hp, hsaved, rfl⟩ := Journal.bind_eq_ok hrecorded
      obtain ⟨_, saving, es₈, hsave, hreported, rfl⟩ := Journal.bind_eq_ok hsaved
      cases saving with
      | refused message behind => cases hreported
      | saved behind =>
        cases hreported
        refine ⟨p, ?_, Journal.lift_eq_ok hsave, by simp [say, Journal.enter]⟩
        rw [pictureOf?, hsource]
        dsimp only
        rw [Journal.lift_eq_ok hrendering]
        exact congrArg Except.toOption (Journal.lift_eq_ok hp)

/-- Drawings that are read behind PNG files were there before these. -/
theorem pictureOf?_withFiles {saves : List (Place × Entry)} (hfiles : disk.TakesFiles saves)
    (hsigned : ∀ s ∈ saves, ∃ bytes, s.2.bytes? = some bytes ∧ Png.signature <+: bytes)
    {p : Picture} (h : pictureOf? letters o (disk.withFiles saves) drawing = some p) :
    pictureOf? letters o disk drawing = some p := by
  have hread : ∀ source, readDrawing (disk.withFiles saves) drawing = .ok source →
      readDrawing disk drawing = .ok source := by
    intro source hsource
    unfold readDrawing at hsource ⊢
    cases hbytes : (disk.withFiles saves).read drawing with
    | error trouble =>
      rw [hbytes] at hsource
      cases hsource
    | ok bytes =>
      rw [hbytes] at hsource
      rcases Disk.read_withFiles hfiles hbytes with hbefore | ⟨s, hs, hs'⟩
      · rwa [hbefore]
      · obtain ⟨bytes', hbytes', hsignature⟩ := hsigned s hs
        cases hs'.symm.trans hbytes'
        obtain ⟨flaw, hflaw⟩ := Disk.decodeUtf8_of_signature hsignature
        dsimp only at hsource
        rw [hflaw] at hsource
        cases hsource
  unfold pictureOf? at h ⊢
  cases hsource : readDrawing (disk.withFiles saves) drawing with
  | error message =>
    rw [hsource] at h
    cases h
  | ok source =>
    rw [hsource] at h
    rwa [hread source hsource]

/-! ## 2. The place of a picture -/

/-- The path of the picture with a name. -/
def outputPath (o : Options) (disk : Disk) (name : Text) : Text :=
  if o.output.isEmpty then name
  else if disk.isFolder o.output then FileName.inside o.output name
  else if o.drawings.length = 1 then o.output
  else name

/-- Only the name of its picture decides where a drawing goes. -/
theorem outputFor_outcome (o : Options) (disk : Disk) (drawing : Text) :
    (outputFor o disk drawing).outcome = .ok (outputPath o disk (FileName.picture drawing)) := by
  unfold outputFor outputPath
  split
  · rfl
  · split
    · rfl
    · split <;> rfl

theorem outputPath_withFiles {saves : List (Place × Entry)} (hfiles : disk.TakesFiles saves)
    (name : Text) : outputPath o (disk.withFiles saves) name = outputPath o disk name := by
  rw [outputPath, outputPath, Disk.isFolder_withFiles hfiles]

/-- **Of several drawings only PNG files are saved,** unless a name has no extension. -/
theorem extension_outputPath (hseveral : o.drawings.length ≠ 1)
    (h : FileName.extension (outputPath o disk (FileName.picture drawing)) ≠ []) :
    FileName.extension (outputPath o disk (FileName.picture drawing)) =
      FileName.pictureExtension := by
  have hname : FileName.extension (outputPath o disk (FileName.picture drawing)) =
      FileName.extension (FileName.picture drawing) := by
    unfold outputPath
    split
    · rfl
    · rename_i houtput
      split
      · exact FileName.extension_inside (by simpa using houtput)
          (FileName.slash_not_mem_picture drawing)
      · rfl
  rw [hname] at h ⊢
  exact (FileName.extension_picture drawing).resolve_left h

/-- The place of the picture with a name. -/
def placeOf (o : Options) (disk : Disk) (name : Text) : Place :=
  (disk.locate (outputPath o disk name)).toOption.getD []

theorem placeOf_eq {name : Text} {place : Place}
    (h : disk.locate (outputPath o disk name) = .ok place) : placeOf o disk name = place := by
  rw [placeOf, h]
  rfl

/-- **Pictures of different names have different places,** if there are several of them. -/
theorem picture_eq_of_placeOf {other : Text} (hseveral : o.drawings.length ≠ 1)
    (h : disk.locate (outputPath o disk (FileName.picture drawing)) =
      .ok (placeOf o disk (FileName.picture drawing)))
    (h' : disk.locate (outputPath o disk (FileName.picture other)) =
      .ok (placeOf o disk (FileName.picture other)))
    (hsame : placeOf o disk (FileName.picture drawing) =
      placeOf o disk (FileName.picture other)) :
    FileName.picture drawing = FileName.picture other := by
  rw [hsame] at h
  generalize placeOf o disk (FileName.picture other) = place at h h'
  by_cases hinside : ¬ o.output.isEmpty ∧ disk.isFolder o.output
  · -- Both names stand behind the place that the one folder leads to.
    have hpath : ∀ name, outputPath o disk name = FileName.inside o.output name := fun name => by
      rw [outputPath, if_neg hinside.1, if_pos hinside.2]
    have hfolder : o.output ≠ [] := by simpa using hinside.1
    rw [hpath] at h h'
    obtain ⟨folder, hled, hplace⟩ := Disk.locate_inside hfolder h
    obtain ⟨folder', hled', hplace'⟩ := Disk.locate_inside hfolder h'
    cases hled.symm.trans hled'
    simpa using hplace.symm.trans hplace'
  · have hpath : ∀ name, outputPath o disk name = name := fun name => by
      unfold outputPath
      split
      · rfl
      · rename_i hsome
        have hfile : ¬ disk.isFolder o.output = true := fun hfolder => hinside ⟨hsome, hfolder⟩
        simp [hfile]
    rw [hpath] at h h'
    simpa using (Disk.locate_picture h).symm.trans (Disk.locate_picture h')

/-! ## 3. Pictures that are all saved -/

/-- A drawing with its picture, and the file that was saved for it. -/
structure Print where
  drawing : Text
  picture : Picture
  file : Entry

namespace Print

/-- The path of a print. -/
def path (o : Options) (disk : Disk) (s : Print) : Text :=
  outputPath o disk (FileName.picture s.drawing)

/-- The place of a print. -/
def place (o : Options) (disk : Disk) (s : Print) : Place :=
  placeOf o disk (FileName.picture s.drawing)

end Print

/-- The file of a drawing's own picture, at the place of its name. -/
structure IsPrint (letters : Lettering) (opened : List UInt8 → Option Picture) (o : Options)
    (disk : Disk) (s : Print) : Prop where
  painted : pictureOf? letters o disk s.drawing = some s.picture
  leads : disk.locate (s.path o disk) = .ok (s.place o disk)
  free : disk.entry? (s.place o disk) ≠ some .folder
  noFolder : Disk.asksForFolder (s.path o disk) = false
  extension_ne_nil : FileName.extension (s.path o disk) ≠ []
  file : ∃ bytes, s.file.bytes? = some bytes ∧
    (FileName.extension (s.path o disk) = FileName.pictureExtension →
      Png.signature <+: bytes ∧ opened bytes = some s.picture)

/-- The files of prints with the places that they are saved at. -/
def placed (o : Options) (disk : Disk) (batch : List Print) : List (Place × Entry) :=
  batch.map fun s => (s.place o disk, s.file)

section Batch

variable {batch : List Print} (hbatch : ∀ s ∈ batch, IsPrint letters opened o disk s)

include hbatch

theorem takesFiles_placed : disk.TakesFiles (placed o disk batch) := by
  intro e he
  obtain ⟨s, hs, rfl⟩ := List.mem_map.mp he
  obtain ⟨bytes, hbytes, -⟩ := (hbatch s hs).file
  exact ⟨(hbatch s hs).free, Entry.ne_folder hbytes⟩

/-- Where there are other drawings, prints are PNG files. -/
theorem signed_placed (hseveral : batch ≠ [] → o.drawings.length ≠ 1) :
    ∀ e ∈ placed o disk batch, ∃ bytes, e.2.bytes? = some bytes ∧ Png.signature <+: bytes := by
  intro e he
  obtain ⟨s, hs, rfl⟩ := List.mem_map.mp he
  obtain ⟨bytes, hbytes, hpng⟩ := (hbatch s hs).file
  have hpath := extension_outputPath (hseveral (List.ne_nil_of_mem hs))
    (hbatch s hs).extension_ne_nil
  exact ⟨bytes, hbytes, (hpng hpath).1⟩

/-- **One more picture.**  What a drawing leaves behind other prints is a print of its own, as the
last one at the place of its name. -/
theorem convert_placed (hsaver : saver.IsFaithful opened)
    (hseveral : batch ≠ [] → o.drawings.length ≠ 1) {es : List Output}
    (h : convert letters saver o (disk.withFiles (placed o disk batch)) drawing
      (outputPath o disk (FileName.picture drawing)) = ⟨es, .ok (true, next)⟩) :
    ∃ s : Print, s.drawing = drawing ∧ IsPrint letters opened o disk s ∧
      next = disk.withFiles (placed o disk (batch ++ [s])) ∧
      .line (report o drawing (s.path o disk)) ∈ es := by
  have hfiles := takesFiles_placed hbatch
  obtain ⟨p, hpicture, hsave, hreport⟩ := convert_saved h
  obtain ⟨place, e, bytes, hplace, hentry, hasks, hbytes, rfl, hpng⟩ := hsaver.exists_file hsave
  rw [Disk.locate_withFiles hfiles] at hplace
  rw [Ne, Disk.entry?_folder_iff hfiles] at hentry
  obtain rfl := placeOf_eq hplace
  refine ⟨⟨drawing, p, e⟩, rfl, ?_, ?_, hreport⟩
  · exact ⟨pictureOf?_withFiles hfiles (signed_placed hbatch hseveral) hpicture, hplace, hentry,
      hasks, hsaver.extension_ne_nil hsave, bytes, hbytes, fun hpath =>
        ⟨(hpng hpath).1, (hpng hpath).2 (isProper_pictureOf? hpicture)⟩⟩
  · rw [Disk.write_withFiles, placed, placed, List.map_append]
    rfl

end Batch

theorem Converts.savedAmong_le {drawings : List Text} {parts : List (List Output)}
    (h : Converts letters saver o disk drawings parts last) :
    savedAmong parts ≤ drawings.length := by
  induction h with
  | nil => exact Nat.le_refl 0
  | @cons _ _ _ _ _ drawings _ _ _ isSaved _ _ hpart _ ih =>
    rw [savedAmong_cons hpart, List.length_cons]
    cases isSaved <;> simp <;> omega

/-- **All pictures.**  Drawings that all leave a picture leave their own pictures, each at the
place of its name and in order. -/
theorem Converts.all_placed (hsaver : saver.IsFaithful opened) {batch : List Print}
    {drawings : List Text} {parts : List (List Output)}
    (hbatch : ∀ s ∈ batch, IsPrint letters opened o disk s)
    (hnamed : batch.length + drawings.length = o.drawings.length)
    (h : Converts letters saver o (disk.withFiles (placed o disk batch)) drawings parts last)
    (hall : savedAmong parts = drawings.length) :
    ∃ rest, rest.map Print.drawing = drawings ∧
      (∀ s ∈ rest, IsPrint letters opened o disk s) ∧
      last = disk.withFiles (placed o disk (batch ++ rest)) ∧
      ∀ s ∈ rest, .line (report o s.drawing (s.path o disk)) ∈ parts.flatten := by
  induction drawings generalizing batch parts with
  | nil =>
    cases h
    exact ⟨[], rfl, by simp, by simp, by simp⟩
  | cons drawing drawings ih =>
    cases h with
    | @cons _ next _ _ output _ choosing converting parts isSaved hchosen hconverted hpart hrest =>
      have hcount := hrest.savedAmong_le
      rw [savedAmong_cons hpart, List.length_cons] at hall
      rw [List.length_cons] at hnamed
      obtain rfl : isSaved = true := by
        cases isSaved
        · simp at hall
          omega
        · rfl
      have hseveral : batch ≠ [] → o.drawings.length ≠ 1 := by
        intro hne
        have := List.length_pos_iff.mpr hne
        omega
      have houtput := (congrArg Journal.outcome hchosen).symm.trans (outputFor_outcome _ _ _)
      cases houtput.trans (congrArg _ (outputPath_withFiles (takesFiles_placed hbatch) _))
      obtain ⟨s, rfl, hs, rfl, hreport⟩ := convert_placed hbatch hsaver hseveral hconverted
      obtain ⟨rest, hnames, hsaved, hlast, hreports⟩ := ih
        (fun e he => (List.mem_append.mp he).elim (hbatch e) fun he =>
          List.mem_singleton.mp he ▸ hs) (by simp; omega) hrest (by simp at hall; omega)
      refine ⟨s :: rest, by rw [List.map_cons, hnames], ?_, ?_, ?_⟩
      · exact List.forall_mem_cons.mpr ⟨hs, hsaved⟩
      · rw [hlast, List.append_assoc]
        rfl
      · rw [List.forall_mem_cons, List.flatten_cons]
        exact ⟨List.mem_append_left _ (List.mem_append_right _ hreport), fun d hd =>
          List.mem_append_right _ (hreports d hd)⟩

/-! ## 4. The last picture of a name -/

/-- What a path leads to is a file with a picture in it. -/
def Finds (opened : List UInt8 → Option Picture) (disk : Disk) (path : Text) (p : Picture) : Prop :=
  ∃ bytes, disk.read path = .ok bytes ∧ opened bytes = some p

theorem Finds.unique {path : Text} {p q : Picture} (hp : Finds opened disk path p)
    (hq : Finds opened disk path q) : p = q := by
  obtain ⟨bytes, hread, hp⟩ := hp
  obtain ⟨bytes', hread', hq⟩ := hq
  cases hread.symm.trans hread'
  exact Option.some.inj (hp.symm.trans hq)

/-- **The last picture of a name is the one that is found at its path.** -/
theorem finds_placed {before behind : List Print} {s : Print}
    (hdrawings : o.drawings = (before ++ s :: behind).map Print.drawing)
    (hbatch : ∀ t ∈ before ++ s :: behind, IsPrint letters opened o disk t)
    (hlast : ∀ t ∈ behind, FileName.picture t.drawing ≠ FileName.picture s.drawing)
    (hpath : FileName.extension (s.path o disk) = FileName.pictureExtension) :
    Finds opened (disk.withFiles (placed o disk (before ++ s :: behind))) (s.path o disk)
      s.picture := by
  have hs := hbatch s (by simp)
  have hlater : ∀ e ∈ placed o disk behind, e.1 ≠ s.place o disk := by
    intro e he hplace
    obtain ⟨later, hbehind, rfl⟩ := List.mem_map.mp he
    have hseveral : o.drawings.length ≠ 1 := by
      have := List.length_pos_of_mem hbehind
      rw [hdrawings]
      simp
      omega
    exact hlast later hbehind (picture_eq_of_placeOf hseveral
      (hbatch later (by simp [hbehind])).leads hs.leads hplace)
  obtain ⟨bytes, hbytes, hpng⟩ := hs.file
  refine ⟨bytes, Disk.read_ok_iff.mpr ⟨s.file, Disk.look_ok_iff.mpr
    ⟨_, (Disk.locate_withFiles (takesFiles_placed hbatch)).mpr hs.leads, ?_, .inr hs.noFolder⟩,
    hbytes⟩, (hpng hpath).2⟩
  have hprefix : ¬ (s.place o disk).isPrefixOf disk.here = true :=
    fun hprefix => hs.free (Disk.entry?_of_isPrefixOf hprefix)
  have hplaced : placed o disk (before ++ s :: behind) = placed o disk before ++
      (s.place o disk, s.file) :: placed o disk behind := List.map_append
  rw [Disk.entry?_withFiles, if_neg hprefix, hplaced, Disk.lastAt?_append_cons hlater]
  rfl

/-- Every name has a last print, and that is the one which is found at the path of the name. -/
theorem exists_last_print {batch : List Print} (hdrawings : o.drawings = batch.map Print.drawing)
    (hbatch : ∀ s ∈ batch, IsPrint letters opened o disk s) {own : Print} (hown : own ∈ batch) :
    ∃ before s behind, batch = before ++ s :: behind ∧
      FileName.picture s.drawing = FileName.picture own.drawing ∧
      (∀ later ∈ behind, FileName.picture later.drawing ≠ FileName.picture own.drawing) ∧
      (FileName.extension (own.path o disk) = FileName.pictureExtension →
        Finds opened (disk.withFiles (placed o disk batch)) (own.path o disk) s.picture) := by
  have hnamed : ∃ s ∈ batch, FileName.picture s.drawing = FileName.picture own.drawing :=
    ⟨own, hown, rfl⟩
  obtain ⟨before, s, behind, rfl, hname, hlater⟩ := exists_last hnamed
  have hpath : own.path o disk = s.path o disk := congrArg (outputPath o disk) hname.symm
  refine ⟨before, s, behind, rfl, hname, hlater, ?_⟩
  rw [hpath]
  exact finds_placed hdrawings hbatch fun t ht hsame => hlater t ht (hsame.trans hname)

/-! ## 5. A whole session -/

/-- If a drawing's path asks for a PNG file, the drawing's own picture is in that file in the end. -/
def IsKept (letters : Lettering) (opened : List UInt8 → Option Picture) (o : Options)
    (disk last : Disk) (drawing : Text) : Prop :=
  ∃ output p, (outputFor o disk drawing).outcome = .ok output ∧
    pictureOf? letters o disk drawing = some p ∧
    (FileName.extension output = FileName.pictureExtension → Finds opened last output p)

/-- Two pictures that are kept in one PNG file are one picture. -/
theorem IsKept.pictureOf?_eq {other : Text} (h : IsKept letters opened o disk last drawing)
    (h' : IsKept letters opened o disk last other)
    (hname : FileName.picture drawing = FileName.picture other)
    (hpath : FileName.extension (outputPath o disk (FileName.picture drawing)) =
      FileName.pictureExtension) :
    pictureOf? letters o disk drawing = pictureOf? letters o disk other := by
  obtain ⟨output, p, houtput, hp, hfound⟩ := h
  obtain ⟨output', q, houtput', hq, hfound'⟩ := h'
  rw [outputFor_outcome] at houtput houtput'
  rw [← hname] at houtput'
  cases houtput
  cases houtput'
  rw [hp, hq, (hfound hpath).unique (hfound' hpath)]

/-- **A session that ends with 0 has saved a picture of every drawing.** -/
theorem run_placed (hsaver : saver.IsFaithful opened) {arguments : List Text} {finish : Finish}
    (hrun : (runWith letters saver arguments disk).outcome = .ok finish)
    (hcode : finish.code = 0) :
    ∃ o batch, Options.read arguments = .ok o ∧ o.drawings = batch.map Print.drawing ∧
      (∀ s ∈ batch, IsPrint letters opened o disk s) ∧
      finish.disk = disk.withFiles (placed o disk batch) ∧
      ∀ s ∈ batch, .line (report o s.drawing (s.path o disk)) ∈
        (runWith letters saver arguments disk).entries := by
  have harguments : arguments ≠ [] := by
    rintro rfl
    cases hrun
    cases hcode
  cases hread : Options.read arguments with
  | error complaint =>
    rw [run_of_complaint harguments hread] at hrun
    cases hrun
    cases hcode
  | ok o =>
    rw [run_of_options harguments hread] at hrun ⊢
    obtain ⟨⟨total, last⟩, htotal, -⟩ := Journal.outcome_bind_eq_ok.mp hrun
    obtain ⟨parts, hparts, hconverted⟩ := converts_of_convertAll htotal
    rw [Nat.zero_add] at hconverted
    rw [runOptions_of_convertAll hconverted] at hrun ⊢
    cases hrun
    have hall : savedAmong parts = o.drawings.length := by
      by_cases hall : savedAmong parts = o.drawings.length
      · exact hall
      · rw [if_neg hall] at hcode
        cases hcode
    have hnone : ∀ s ∈ ([] : List Print), IsPrint letters opened o disk s := by simp
    obtain ⟨batch, hdrawings, hbatch, hlast, hreports⟩ :=
      hparts.all_placed hsaver hnone (Nat.zero_add _) hall
    exact ⟨o, batch, rfl, hdrawings.symm, hbatch, hlast, fun s hs =>
      List.mem_append_left _ (hreports s hs)⟩

/-- **What a session that ends with 0 keeps,** with letters of any form and a faithful saver.  It
has reported a path for every drawing, and the PNG file that is found there holds the picture of the
last of the drawings whose pictures have the same name; of several drawings only PNG files are
saved.  So no drawing's own picture is lost if, and only if, drawings whose pictures have the same
name have the same picture. -/
theorem last_picture_stays (hsaver : saver.IsFaithful opened) {arguments : List Text}
    {finish : Finish} (hrun : (runWith letters saver arguments disk).outcome = .ok finish)
    (hcode : finish.code = 0) :
    ∃ o, Options.read arguments = .ok o ∧
      (∀ drawing ∈ o.drawings, ∃ output before lastOne behind q,
        (outputFor o disk drawing).outcome = .ok output ∧
          .line (report o drawing output) ∈ (runWith letters saver arguments disk).entries ∧
          (o.drawings.length ≠ 1 → FileName.extension output = FileName.pictureExtension) ∧
          o.drawings = before ++ lastOne :: behind ∧
          FileName.picture lastOne = FileName.picture drawing ∧
          (∀ later ∈ behind, FileName.picture later ≠ FileName.picture drawing) ∧
          pictureOf? letters o disk lastOne = some q ∧
          (FileName.extension output = FileName.pictureExtension →
            Finds opened finish.disk output q)) ∧
      ((∀ drawing ∈ o.drawings, IsKept letters opened o disk finish.disk drawing) ↔
        ∀ drawing ∈ o.drawings, ∀ other ∈ o.drawings,
          FileName.picture drawing = FileName.picture other →
            pictureOf? letters o disk drawing = pictureOf? letters o disk other) := by
  obtain ⟨o, batch, hread, hdrawings, hbatch, hlast, hreports⟩ := run_placed hsaver hrun hcode
  have hstays : ∀ drawing ∈ o.drawings, ∃ output before lastOne behind q,
      (outputFor o disk drawing).outcome = .ok output ∧
        .line (report o drawing output) ∈ (runWith letters saver arguments disk).entries ∧
        (o.drawings.length ≠ 1 → FileName.extension output = FileName.pictureExtension) ∧
        o.drawings = before ++ lastOne :: behind ∧
        FileName.picture lastOne = FileName.picture drawing ∧
        (∀ later ∈ behind, FileName.picture later ≠ FileName.picture drawing) ∧
        pictureOf? letters o disk lastOne = some q ∧
        (FileName.extension output = FileName.pictureExtension →
          Finds opened finish.disk output q) := by
    intro drawing hdrawing
    obtain ⟨own, hown, rfl⟩ := List.mem_map.mp (hdrawings ▸ hdrawing)
    obtain ⟨before, s, behind, rfl, hname, hlater, hfound⟩ :=
      exists_last_print hdrawings hbatch hown
    exact ⟨own.path o disk, before.map Print.drawing, s.drawing, behind.map Print.drawing,
      s.picture, outputFor_outcome o disk _, hreports own hown,
      fun hseveral => extension_outputPath hseveral (hbatch own hown).extension_ne_nil,
      by simp [hdrawings], hname, by simpa using hlater, (hbatch s (by simp)).painted,
      hlast ▸ hfound⟩
  refine ⟨o, hread, hstays, ?_, ?_⟩
  · intro hkept drawing hdrawing other hother hname
    by_cases hseveral : o.drawings.length = 1
    · obtain ⟨only, honly⟩ := List.length_eq_one_iff.mp hseveral
      rw [honly, List.mem_singleton] at hdrawing hother
      rw [hdrawing, hother]
    · obtain ⟨output, _, _, _, _, houtput, -, hpng, -⟩ := hstays drawing hdrawing
      cases (outputFor_outcome o disk drawing).symm.trans houtput
      exact (hkept drawing hdrawing).pictureOf?_eq (hkept other hother) hname (hpng hseveral)
  · intro hsame drawing hdrawing
    obtain ⟨output, before, lastOne, behind, q, houtput, -, -, hsplit, hname, -, hq, hfound⟩ :=
      hstays drawing hdrawing
    have hlastOne : lastOne ∈ o.drawings := by simp [hsplit]
    exact ⟨output, q, houtput, (hsame drawing hdrawing lastOne hlastOne hname.symm).trans hq,
      hfound⟩

/-- Two folders with a square and two empty drawings, one of them named like the square. -/
def twoFolders : Disk :=
  let square := "<rect width=\"9\" height=\"9\"/>".toList
  ⟨[], [([['a']], .folder), ([['b']], .folder),
    ([['a'], "x.svg".toList], .file (square.map fun c => c.val.toUInt8)),
    ([['b'], "x.svg".toList], .file []), ([['b'], "y.svg".toList], .file [])]⟩

/-- Arguments that ask for pictures of one pixel. -/
def onePixel (drawings : List Text) : List Text :=
  drawings ++ [['-', 'w'], ['1'], ['-', 'h'], ['1']]

/-- The options that go with these arguments. -/
def onePixelOptions (drawings : List Text) : Options :=
  let frame : Frame := { Options.standard.frame with width := 1, height := 1 }
  { Options.standard with frame := frame, drawings := drawings }

/-- The square, and an empty drawing of another name. -/
def differentNames : List Text := ["a/x.svg".toList, "b/y.svg".toList]

/-- The square, and an empty drawing of the same name. -/
def sameNames : List Text := ["a/x.svg".toList, "b/x.svg".toList]

/-- A square and an empty drawing of different names are both kept. -/
theorem last_picture_stays_differentNames :
    ∃ finish, (runWith .blocks .png (onePixel differentNames) twoFolders).outcome = .ok finish ∧
      Saver.png.IsFaithful Png.decode? ∧ finish.code = 0 ∧
      ∀ drawing ∈ differentNames,
        IsKept .blocks Png.decode? (onePixelOptions differentNames) twoFolders finish.disk
          drawing := by
  have hends : (runWith .blocks .png (onePixel differentNames) twoFolders).outcome.toOption.map
      (·.code) = some 0 := by
    decide +kernel
  cases hfinish : (runWith .blocks .png (onePixel differentNames) twoFolders).outcome with
  | error fault => rw [hfinish] at hends; cases hends
  | ok finish =>
    rw [hfinish] at hends
    have hcode : finish.code = 0 := Option.some.inj hends
    obtain ⟨o, hread, -, hkept⟩ := last_picture_stays Saver.isFaithful_png hfinish hcode
    have hoptions : Options.read (onePixel differentNames) =
        .ok (onePixelOptions differentNames) := rfl
    cases hoptions.symm.trans hread
    have hnames : ∀ drawing ∈ differentNames, ∀ other ∈ differentNames,
        FileName.picture drawing = FileName.picture other → drawing = other := by
      decide
    exact ⟨finish, rfl, Saver.isFaithful_png, hcode, hkept.mpr fun drawing h other h' hname =>
      congrArg _ (hnames drawing h other h' hname)⟩

/-- A picture of one pixel. -/
def dot (c : Rgb) : Picture := ⟨1, 1, #[c]⟩

/-- **A picture that is lost.**  A square and an empty drawing of one name, in different folders,
are both reported as saved at one path by a faithful saver, and the session ends with 0.  Neither
drawing is at that path; but what is found there is the empty picture, and the square is lost. -/
theorem picture_lost :
    ∃ finish, Options.read (onePixel sameNames) = .ok (onePixelOptions sameNames) ∧
      (runWith .blocks .png (onePixel sameNames) twoFolders).outcome = .ok finish ∧
      Saver.png.IsFaithful Png.decode? ∧ finish.code = 0 ∧
      (∀ drawing ∈ sameNames, drawing ≠ "x.png".toList ∧
        (outputFor (onePixelOptions sameNames) twoFolders drawing).outcome =
          .ok "x.png".toList) ∧
      .line "[OK] a/x.svg -> x.png".toList ∈
        (runWith .blocks .png (onePixel sameNames) twoFolders).entries ∧
      Finds Png.decode? finish.disk "x.png".toList (dot ⟨0, 0, 0⟩) ∧
      pictureOf? .blocks (onePixelOptions sameNames) twoFolders "a/x.svg".toList =
        some (dot ⟨255, 255, 255⟩) ∧
      "a/x.svg".toList ∈ sameNames ∧
      ¬ IsKept .blocks Png.decode? (onePixelOptions sameNames) twoFolders finish.disk
        "a/x.svg".toList := by
  have hpath : ∀ drawing ∈ sameNames, drawing ≠ "x.png".toList ∧
      outputPath (onePixelOptions sameNames) twoFolders (FileName.picture drawing) =
        "x.png".toList := by
    decide +kernel
  have hpictures : pictureOf? .blocks (onePixelOptions sameNames) twoFolders "a/x.svg".toList =
      some (dot ⟨255, 255, 255⟩) ∧
      pictureOf? .blocks (onePixelOptions sameNames) twoFolders "b/x.svg".toList =
        some (dot ⟨0, 0, 0⟩) := by
    decide +kernel
  have hends : (runWith .blocks .png (onePixel sameNames) twoFolders).outcome.toOption.map
      (·.code) = some 0 := by
    decide +kernel
  cases hfinish : (runWith .blocks .png (onePixel sameNames) twoFolders).outcome with
  | error fault => rw [hfinish] at hends; cases hends
  | ok finish =>
    rw [hfinish] at hends
    have hcode : finish.code = 0 := Option.some.inj hends
    obtain ⟨o, batch, hread, hdrawings, hbatch, hlast, hreports⟩ :=
      run_placed Saver.isFaithful_png hfinish hcode
    have hoptions : Options.read (onePixel sameNames) = .ok (onePixelOptions sameNames) := rfl
    cases hoptions.symm.trans hread
    obtain ⟨square, _, rfl, hsquare, hothers⟩ := List.map_eq_cons_iff.mp hdrawings.symm
    obtain ⟨empty, _, rfl, hempty, hnone⟩ := List.map_eq_cons_iff.mp hothers
    cases List.map_eq_nil_iff.mp hnone
    have hsquarePath : square.path (onePixelOptions sameNames) twoFolders = "x.png".toList := by
      rw [Print.path, hsquare]
      exact (hpath _ List.mem_cons_self).2
    have hemptyPath : empty.path (onePixelOptions sameNames) twoFolders = "x.png".toList := by
      rw [Print.path, hempty]
      exact (hpath _ (List.mem_cons_of_mem _ List.mem_cons_self)).2
    have hreport := hreports square List.mem_cons_self
    rw [hsquarePath, hsquare] at hreport
    have hfound : Finds Png.decode? finish.disk "x.png".toList (dot ⟨0, 0, 0⟩) := by
      have hpainted := (hbatch empty (by simp)).painted
      rw [hempty, hpictures.2, Option.some.injEq] at hpainted
      rw [hlast, hpainted, ← hemptyPath]
      exact @finds_placed _ _ _ _ [square] [] empty hdrawings hbatch (by simp)
        (congrArg FileName.extension hemptyPath)
    refine ⟨finish, rfl, rfl, Saver.isFaithful_png, hcode, fun drawing hdrawing => ?_, hreport,
      hfound, hpictures.1, List.mem_cons_self, ?_⟩
    · obtain ⟨hne, hname⟩ := hpath drawing hdrawing
      exact ⟨hne, (outputFor_outcome _ _ _).trans (congrArg _ hname)⟩
    · rintro ⟨output, p, houtput, hp, hkept⟩
      rw [outputFor_outcome, (hpath _ List.mem_cons_self).2] at houtput
      cases houtput
      cases hpictures.1.symm.trans hp
      cases (hkept rfl).unique hfound

end Session

end VectorPaint
