/-
# Places of pictures

Saving a picture puts a file at a place where no folder is.  So it makes no folder and takes none
away, and since a path leads only through folders, every path that led somewhere still leads there
(`locate_withFiles`).  What changes is what the place holds, and of several files saved at it the
last one counts (`entry?_withFiles`).

A PNG file is no text: its first byte starts no code point (`decodeUtf8_of_signature`).  So a path
whose text can still be read has not had such a file saved at its place.
-/
import VectorPaint.Disk

namespace VectorPaint

/-! ## 1. Names in paths -/

namespace Text

theorem pieces_of_not_mem {separator : Char} {t : Text} (h : separator ∉ t) :
    pieces separator t = [t] := by
  induction t with
  | nil => rfl
  | cons c t ih =>
    rw [List.mem_cons, not_or] at h
    rw [pieces, if_neg (Ne.symm h.1), ih h.2]

/-- A separator ends a piece. -/
theorem pieces_append_cons (separator : Char) (t rest : Text) :
    pieces separator (t ++ separator :: rest) = pieces separator t ++ pieces separator rest := by
  induction t with
  | nil => simp [pieces]
  | cons c t ih =>
    rw [List.cons_append, pieces, pieces, ih]
    by_cases hc : c = separator
    · rw [if_pos hc, if_pos hc, List.cons_append]
    · rw [if_neg hc, if_neg hc]
      cases hp : pieces separator t with
      | nil => exact absurd hp (pieces_ne_nil separator t)
      | cons p ps => rfl

end Text

namespace FileName

variable {path : Text}

theorem slash_not_mem_base (path : Text) : '/' ∉ base path := by
  intro h
  have := List.all_eq_true.mp List.all_takeWhile '/' (List.mem_reverse.mp h)
  simp at this

/-- A name without a slash belongs to the base name as a whole. -/
theorem takeWhile_reverse_append {name : Text} (h : '/' ∉ name) (rest : Text) :
    (name.reverse ++ rest).takeWhile (· != '/') = name.reverse ++ rest.takeWhile (· != '/') := by
  refine List.takeWhile_append_of_pos fun c hc => ?_
  rw [bne_iff_ne]
  rintro rfl
  exact h (List.mem_reverse.mp hc)

theorem base_append_slash {front name : Text} (h : '/' ∉ name) :
    base (front ++ '/' :: name) = name := by
  simp [base, takeWhile_reverse_append h]

theorem base_of_not_mem {name : Text} (h : '/' ∉ name) : base name = name := by
  have hall := takeWhile_reverse_append h []
  rw [List.append_nil] at hall
  simp [base, hall]

/-- The extension of a path is that of its base name. -/
theorem extension_base (path : Text) : extension (base path) = extension path := by
  have hbase : base (base path) = base path := base_of_not_mem (slash_not_mem_base path)
  unfold extension splitExtension
  dsimp only
  rw [hbase]
  split <;> rfl

/-- Cutting an extension off adds nothing to a path. -/
theorem mem_of_mem_splitExtension {c : Char} (h : c ∈ (splitExtension path).1) : c ∈ path := by
  unfold splitExtension at h
  dsimp only at h
  split at h
  · exact List.mem_of_mem_take h
  · exact h

theorem slash_not_mem_picture (path : Text) : '/' ∉ picture path := by
  intro h
  rcases List.mem_append.mp h with hstem | hextension
  · exact slash_not_mem_base path (mem_of_mem_splitExtension hstem)
  · revert hextension
    decide

theorem four_le_length_picture (path : Text) : 4 ≤ (picture path).length := by
  simp [picture, pictureExtension]

/-- The name of a picture has the extension of pictures, or none at all. -/
theorem extension_picture (path : Text) :
    extension (picture path) = [] ∨ extension (picture path) = pictureExtension := by
  have hbase : base (picture path) = picture path := base_of_not_mem (slash_not_mem_picture path)
  have hdot : ((picture path).reverse.takeWhile (· != '.')).reverse = ['p', 'n', 'g'] := by
    simp [picture, pictureExtension]
  unfold extension splitExtension
  dsimp only
  rw [hbase, hdot]
  split
  · exact Or.inr (show Text.lower pictureExtension = pictureExtension by decide)
  · exact Or.inl rfl

/-- A name keeps its extension inside of a folder. -/
theorem extension_inside {folder name : Text} (hfolder : folder ≠ []) (h : '/' ∉ name) :
    extension (inside folder name) = extension name := by
  obtain ⟨front, hfront⟩ : ∃ front, inside folder name = front ++ '/' :: name := by
    have hhead : name.head? ≠ some '/' := fun hhead => h (List.mem_of_mem_head? hhead)
    unfold inside
    rw [if_neg hhead]
    by_cases hslash : folder.endsWith ['/'] = true
    · obtain ⟨front, rfl⟩ := List.isSuffixOf_iff_suffix.mp hslash
      exact ⟨front, by simp [hslash]⟩
    · exact ⟨folder, by simp [hslash, hfolder]⟩
  rw [hfront, ← extension_base, base_append_slash h, ← base_of_not_mem h, extension_base]

/-- The name of a picture is a name, and neither dot nor two dots. -/
theorem picture_ne (path : Text) :
    picture path ≠ [] ∧ picture path ≠ ['.'] ∧ picture path ≠ ['.', '.'] := by
  have h := four_le_length_picture path
  refine ⟨?_, ?_, ?_⟩ <;>
  · intro heq
    rw [heq] at h
    revert h
    decide

end FileName

namespace Disk

variable {d : Disk} {place q : Place} {path folder name : Text}

theorem names_append_slash (t rest : Text) : names (t ++ '/' :: rest) = names t ++ names rest := by
  simp [names, Text.pieces_append_cons]

theorem names_of_not_mem (h : '/' ∉ name) (hne : name ≠ []) : names name = [name] := by
  simp [names, Text.pieces_of_not_mem h, hne]

/-- A name inside of a folder comes behind the names of the folder. -/
theorem names_inside (hfolder : folder ≠ []) (h : '/' ∉ name) (hne : name ≠ []) :
    names (FileName.inside folder name) = names folder ++ [name] := by
  have hhead : name.head? ≠ some '/' := fun hhead => h (List.mem_of_mem_head? hhead)
  unfold FileName.inside
  rw [if_neg hhead]
  by_cases hslash : folder.endsWith ['/'] = true
  · obtain ⟨t, rfl⟩ := List.isSuffixOf_iff_suffix.mp hslash
    rw [if_pos (by simp [hslash]), List.append_assoc, List.singleton_append, names_append_slash,
      names_append_slash, names_of_not_mem h hne]
    simp [names, Text.pieces]
  · rw [if_neg (by simpa [hfolder] using hslash), names_append_slash, names_of_not_mem h hne]

theorem head?_inside (hfolder : folder ≠ []) (h : '/' ∉ name) :
    (FileName.inside folder name).head? = folder.head? := by
  have hhead : name.head? ≠ some '/' := fun hhead => h (List.mem_of_mem_head? hhead)
  obtain ⟨c, t, rfl⟩ := List.exists_cons_of_ne_nil hfolder
  unfold FileName.inside
  rw [if_neg hhead]
  split <;> rfl

/-- Where a name leads from a folder, if it is not too long. -/
def nextPlace? (place : Place) (name : Text) : Option Place :=
  if name = ['.'] then some place
  else if name = ['.', '.'] then some place.dropLast
  else if longestName < name.byteCount then none
  else some (place ++ [name])

/-- **A path leads on through folders only.** -/
theorem follow_cons_iff {rest : List Text} :
    d.follow place (name :: rest) = .ok q ↔
      d.entry? place = some .folder ∧
        ∃ next, nextPlace? place name = some next ∧ d.follow next rest = .ok q := by
  rw [follow, nextPlace?]
  cases d.entry? place with
  | none => simp
  | some e =>
    cases e with
    | folder =>
      dsimp only
      split
      · simp
      · split
        · simp
        · split <;> simp
    | file bytes => simp
    | picture p => simp

/-- The last name of a path is the last one of its place. -/
theorem follow_append {ns : List Text} (hdot : name ≠ ['.']) (hdots : name ≠ ['.', '.'])
    (h : d.follow place (ns ++ [name]) = .ok q) : ∃ folder, d.follow place ns = .ok folder ∧
      q = folder ++ [name] := by
  induction ns generalizing place with
  | nil =>
    obtain ⟨-, next, hnext, hrest⟩ := follow_cons_iff.mp h
    cases hrest
    rw [nextPlace?, if_neg hdot, if_neg hdots] at hnext
    split at hnext
    · cases hnext
    · cases hnext
      exact ⟨place, rfl, rfl⟩
  | cons n ns ih =>
    obtain ⟨hfolder, next, hnext, hrest⟩ := follow_cons_iff.mp h
    obtain ⟨folder, hled, hq⟩ := ih hrest
    exact ⟨folder, follow_cons_iff.mpr ⟨hfolder, next, hnext, hled⟩, hq⟩

/-- A path that leads to a place leads there name by name. -/
theorem follow_of_locate (h : d.locate path = .ok q) :
    d.follow (if path.head? = some '/' then [] else d.here) (names path) = .ok q := by
  unfold locate at h
  split at h
  · cases h
  · split at h
    · cases h
    · split at h
      · cases h
      · exact h

/-- A picture's name in the working folder leads to a place of that name. -/
theorem locate_picture (h : d.locate (FileName.picture path) = .ok q) :
    q = d.here ++ [FileName.picture path] := by
  obtain ⟨hne, hdot, hdots⟩ := FileName.picture_ne path
  have hslash := FileName.slash_not_mem_picture path
  have hhead : (FileName.picture path).head? ≠ some '/' :=
    fun hhead => hslash (List.mem_of_mem_head? hhead)
  have hled := follow_of_locate h
  rw [if_neg hhead, names_of_not_mem hslash hne, ← List.nil_append [FileName.picture path]] at hled
  obtain ⟨folder, hfolder, hq⟩ := follow_append hdot hdots hled
  cases hfolder
  exact hq

/-- A picture's name inside of a folder leads to a place of that name, in the place that the folder
leads to. -/
theorem locate_inside (hfolder : folder ≠ [])
    (h : d.locate (FileName.inside folder (FileName.picture path)) = .ok q) :
    ∃ place, d.follow (if folder.head? = some '/' then [] else d.here) (names folder) =
      .ok place ∧ q = place ++ [FileName.picture path] := by
  obtain ⟨hne, hdot, hdots⟩ := FileName.picture_ne path
  have hslash := FileName.slash_not_mem_picture path
  have hled := follow_of_locate h
  rw [head?_inside hfolder hslash, names_inside hfolder hslash hne] at hled
  exact follow_append hdot hdots hled

/-! ## 2. Files that were saved -/

/-- **What the library does to save a picture:** it is written to the place, where no folder is. -/
theorem save_ok {p : Picture} {next : Disk} (h : d.save path p = .ok next) :
    ∃ place, d.locate path = .ok place ∧ d.entry? place ≠ some .folder ∧
      asksForFolder path = false ∧ next = d.write place (.picture p) := by
  unfold save at h
  cases hplace : d.locate path with
  | error trouble =>
    rw [hplace] at h
    cases h
  | ok place =>
    refine ⟨place, rfl, ?_⟩
    simp only [hplace, bind, Except.bind] at h
    rcases hentry : d.entry? place with _ | _ | bytes | old
    all_goals rw [hentry] at h
    · cases hasks : asksForFolder path <;> rw [hasks] at h <;> cases h
      exact ⟨by simp, rfl, rfl⟩
    · cases h
    · cases hasks : asksForFolder path <;> rw [hasks] at h <;> cases h
      exact ⟨by simp, rfl, rfl⟩
    · cases hasks : asksForFolder path <;> rw [hasks] at h <;> cases h
      exact ⟨by simp, rfl, rfl⟩

/-- A disk with files saved one after the other. -/
def withFiles (d : Disk) (saves : List (Place × Entry)) : Disk :=
  { d with entries := saves.reverse ++ d.entries }

/-- The last file that was saved at a place. -/
def lastAt? (saves : List (Place × Entry)) (place : Place) : Option Entry :=
  (saves.reverse.find? fun s => s.1 == place).map (·.2)

/-- Files, at places where no folder is. -/
def TakesFiles (d : Disk) (saves : List (Place × Entry)) : Prop :=
  ∀ s ∈ saves, d.entry? s.1 ≠ some .folder ∧ s.2 ≠ .folder

theorem write_withFiles (d : Disk) (saves : List (Place × Entry)) (place : Place) (e : Entry) :
    (d.withFiles saves).write place e = d.withFiles (saves ++ [(place, e)]) := by
  simp [withFiles, write]

variable {saves : List (Place × Entry)}

theorem entry?_of_isPrefixOf (h : place.isPrefixOf d.here = true) :
    d.entry? place = some .folder := if_pos h

/-- **The last file saved at a place counts.** -/
theorem entry?_withFiles (d : Disk) (saves : List (Place × Entry)) (place : Place) :
    entry? (d.withFiles saves) place =
      if place.isPrefixOf d.here then some .folder
      else (lastAt? saves place).or <| d.entry? place := by
  by_cases hprefix : place.isPrefixOf d.here = true
  · rw [if_pos hprefix]
    exact entry?_of_isPrefixOf hprefix
  · rw [if_neg hprefix]
    unfold entry?
    simp only [withFiles, lastAt?, if_neg hprefix, List.find?_append, Option.map_or]

theorem mem_of_lastAt? {e : Entry} (h : lastAt? saves place = some e) : (place, e) ∈ saves := by
  obtain ⟨s, hs, rfl⟩ := Option.map_eq_some_iff.mp h
  obtain rfl : s.1 = place := by simpa using List.find?_some hs
  exact List.mem_reverse.mp (List.mem_of_find?_eq_some hs)

/-- The last file of a place is the one with no other of that place behind it. -/
theorem lastAt?_append_cons {before behind : List (Place × Entry)} {e : Entry}
    (h : ∀ s ∈ behind, s.1 ≠ place) : lastAt? (before ++ (place, e) :: behind) place = some e := by
  have hnone : behind.reverse.find? (fun s => s.1 == place) = none := by simpa using h
  simp [lastAt?, List.find?_append, hnone]

section Files

variable (hfiles : d.TakesFiles saves)

include hfiles

/-- Files make no folders and take none away. -/
theorem entry?_folder_iff (place : Place) :
    entry? (d.withFiles saves) place = some .folder ↔ d.entry? place = some .folder := by
  rw [entry?_withFiles]
  by_cases hprefix : place.isPrefixOf d.here = true
  · rw [if_pos hprefix, entry?_of_isPrefixOf hprefix]
  · rw [if_neg hprefix]
    cases hlast : lastAt? saves place with
    | none => simp
    | some e =>
      have := hfiles _ (mem_of_lastAt? hlast)
      simp [this]

theorem follow_withFiles {ns : List Text} :
    (d.withFiles saves).follow place ns = .ok q ↔ d.follow place ns = .ok q := by
  induction ns generalizing place with
  | nil => rfl
  | cons n ns ih =>
    rw [follow_cons_iff, follow_cons_iff, entry?_folder_iff hfiles]
    simp only [ih]

/-- **Saving files does not change where paths lead.** -/
theorem locate_withFiles : (d.withFiles saves).locate path = .ok q ↔ d.locate path = .ok q := by
  unfold locate
  split
  · rfl
  · split
    · rfl
    · split
      · rfl
      · exact follow_withFiles hfiles

end Files

/-- A path leads to what its place holds.  One that asks for a folder leads to nothing else. -/
theorem look_ok_iff {e : Entry} : d.look path = .ok e ↔
    ∃ place, d.locate path = .ok place ∧ d.entry? place = some e ∧
      (e = .folder ∨ asksForFolder path = false) := by
  unfold look
  cases hplace : d.locate path with
  | error trouble => simp [bind, Except.bind]
  | ok place =>
    simp only [bind, Except.bind, Except.ok.injEq, exists_eq_left']
    rcases d.entry? place with _ | _ | bytes | p <;> cases asksForFolder path <;>
      simp [pure, Except.pure, throw, throwThe, MonadExceptOf.throw] <;>
      (rintro rfl; simp)

theorem isFolder_iff : d.isFolder path = true ↔
    ∃ place, d.locate path = .ok place ∧ d.entry? place = some .folder := by
  have hlook : d.isFolder path = true ↔ d.look path = .ok .folder := by
    unfold isFolder
    split <;> simp_all
  rw [hlook, look_ok_iff]
  simp

theorem isFolder_withFiles (hfiles : d.TakesFiles saves) :
    (d.withFiles saves).isFolder path = d.isFolder path := by
  rw [Bool.eq_iff_iff, isFolder_iff, isFolder_iff]
  simp only [locate_withFiles hfiles, entry?_folder_iff hfiles]

/-! ## 3. Reading behind files -/

theorem read_ok_iff {bytes : List UInt8} : d.read path = .ok bytes ↔
    ∃ e, d.look path = .ok e ∧ e.bytes? = some bytes := by
  unfold read
  cases d.look path with
  | error trouble => simp [bind, Except.bind]
  | ok e =>
    cases e <;> simp [Entry.bytes?, bind, Except.bind, pure, Except.pure, throw, throwThe,
      MonadExceptOf.throw]

/-- What is read behind files was there before, or is one of them. -/
theorem read_withFiles (hfiles : d.TakesFiles saves) {bytes : List UInt8}
    (h : (d.withFiles saves).read path = .ok bytes) :
    d.read path = .ok bytes ∨ ∃ s ∈ saves, s.2.bytes? = some bytes := by
  obtain ⟨e, hlook, hbytes⟩ := read_ok_iff.mp h
  obtain ⟨place, hplace, hentry, hasks⟩ := look_ok_iff.mp hlook
  rw [locate_withFiles hfiles] at hplace
  rw [entry?_withFiles] at hentry
  split at hentry
  · cases hentry
    cases hbytes
  · cases hlast : lastAt? saves place with
    | none =>
      rw [hlast] at hentry
      exact Or.inl (read_ok_iff.mpr ⟨e, look_ok_iff.mpr ⟨place, hplace, hentry, hasks⟩, hbytes⟩)
    | some saved =>
      rw [hlast] at hentry
      cases hentry
      exact Or.inr ⟨_, mem_of_lastAt? hlast, hbytes⟩

/-- **A PNG file is no text.**  Its first byte starts no code point. -/
theorem decodeUtf8_of_signature {bytes : List UInt8} (h : Png.signature <+: bytes) :
    ∃ flaw, Text.decodeUtf8 bytes = .error flaw := by
  obtain ⟨rest, rfl⟩ := h
  refine ⟨⟨0x89, 0, 1, .start⟩, ?_⟩
  rw [Png.signature, List.cons_append, Text.decodeUtf8, Text.decodeUtf8From]
  rfl

end Disk

end VectorPaint
