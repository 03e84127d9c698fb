/-
# What can be relied on when pictures are saved

A session knows nothing about its saver, and much of what a session does holds for any saver.
That its pictures are found again does not, so here is what is documented of a saver
(`Saver.IsFaithful`): a path without an extension is refused, a picture is saved as a file at the
place that its path leads to and nowhere else, and at a path that asks for a PNG file it is saved
as one, without any loss.

The saver of the library is of this kind (`Saver.isFaithful_png`).  Its files are read back by a
reader that knows the files of the library and no others: stored blocks, three bytes for each
pixel and no filter.  For each part of a file the reader takes the part off the front, and returns
what it holds and what follows (`decode?_encode`).
-/
import VectorPaint.Saver
import VectorPaint.Proofs.Places
import VectorPaint.Proofs.Coverage
import VectorPaint.Proofs.Coordinates

namespace VectorPaint

/-! ## 1. Proper pictures -/

/-- A picture with a color for each of its pixels, the components of which fit a byte each. -/
structure Picture.IsProper (p : Picture) : Prop where
  size : p.pixels.size = p.width * p.height
  bytes : ∀ c ∈ p.pixels.toList, c.IsBytes

instance (c : Rgb) : Decidable c.IsBytes :=
  decidable_of_iff ((0 ≤ c.red ∧ c.red ≤ 255) ∧ (0 ≤ c.green ∧ c.green ≤ 255) ∧
    0 ≤ c.blue ∧ c.blue ≤ 255) ⟨fun ⟨r, g, b⟩ => ⟨r, g, b⟩, fun ⟨r, g, b⟩ => ⟨r, g, b⟩⟩

/-- Indices have colors whose components fit a byte each. -/
theorem Palette.isBytes_color (index : Int) {background : Rgb} (h : background.IsBytes) :
    (color index background).IsBytes := by
  have hentries : ∀ entry ∈ entries, entry.1.IsBytes := by decide
  unfold color
  split
  · rename_i entry hentry
    exact hentries entry (List.mem_of_find?_eq_some hentry)
  · exact h

theorem Canvas.isBytes_of_picture {c : Canvas} {background : Rgb} {p : Picture}
    (h : c.picture background = .ok p) : background.IsBytes := by
  have hcomponent : ∀ {n : Int}, checkComponent n = .ok () → 0 ≤ n ∧ n ≤ 255 := by
    intro n hn
    unfold checkComponent at hn
    split at hn
    · assumption
    · cases hn
  obtain ⟨_, hchecked, -⟩ := of_bind_ok h
  obtain ⟨_, hred, hchecked⟩ := of_bind_ok hchecked
  obtain ⟨_, hgreen, hblue⟩ := of_bind_ok hchecked
  exact ⟨hcomponent hred, hcomponent hgreen, hcomponent hblue⟩

/-- **The pictures of canvases are proper.** -/
theorem Canvas.isProper_picture {c : Canvas} {background : Rgb} {p : Picture}
    (h : c.picture background = .ok p) : p.IsProper := by
  have hbackground := Canvas.isBytes_of_picture h
  cases (c.picture_eq hbackground).symm.trans h
  refine ⟨by simp [c.size_cells], fun color hcolor => ?_⟩
  simp only [Array.toList_map, List.mem_map] at hcolor
  obtain ⟨index, -, rfl⟩ := hcolor
  exact Palette.isBytes_color _ hbackground

namespace Png

variable {n : Nat} {bytes rest data : List UInt8} {p : Picture}

/-! ## 2. Numbers and blocks -/

/-- What follows bytes that must stand in front. -/
def behind? (front bytes : List UInt8) : Option (List UInt8) :=
  if front <+: bytes then some (bytes.drop front.length) else none

/-- A number in four bytes, the most significant first, and what follows. -/
def readWord? : List UInt8 → Option (Nat × List UInt8)
  | a :: b :: c :: d :: rest =>
    some (((a.toNat * 256 + b.toNat) * 256 + c.toNat) * 256 + d.toNat, rest)
  | _ => none

/-- A number in two bytes, the least significant first, and what follows. -/
def readHalfWord? : List UInt8 → Option (Nat × List UInt8)
  | a :: b :: rest => some (a.toNat + 256 * b.toNat, rest)
  | _ => none

/-- The bytes of a stored block, and what follows. -/
def readBlock? (bytes : List UInt8) : Option (List UInt8 × List UInt8) := do
  let (size, bytes) ← readHalfWord? bytes
  let (complement, bytes) ← readHalfWord? bytes
  if size + complement = blockSize ∧ size ≤ bytes.length then
    some (bytes.take size, bytes.drop size)
  else none

theorem behind?_append (front rest : List UInt8) : behind? front (front ++ rest) = some rest := by
  simp [behind?]

theorem readWord?_word (h : n < 2 ^ 32) (rest : List UInt8) :
    readWord? (word n ++ rest) = some (n, rest) := by
  simp only [word, List.cons_append, List.nil_append, readWord?, Nat.toUInt8, UInt8.toNat_ofNat',
    Option.some.injEq, Prod.mk.injEq, and_true]
  omega

theorem readHalfWord?_halfWord (h : n < 2 ^ 16) (rest : List UInt8) :
    readHalfWord? (halfWord n ++ rest) = some (n, rest) := by
  simp only [halfWord, List.cons_append, List.nil_append, readHalfWord?, Nat.toUInt8,
    UInt8.toNat_ofNat', Option.some.injEq, Prod.mk.injEq, and_true]
  omega

theorem readBlock?_block (h : data.length ≤ blockSize) (rest : List UInt8) :
    readBlock? (halfWord data.length ++ halfWord (blockSize - data.length) ++ data ++ rest) =
      some (data, rest) := by
  have hsize : blockSize < 2 ^ 16 := by decide
  rw [readBlock?, List.append_assoc, List.append_assoc, readHalfWord?_halfWord (by omega)]
  simp only [Option.bind_eq_bind, Option.bind_some]
  rw [readHalfWord?_halfWord (by omega)]
  simp
  omega

theorem length_readHalfWord?_le {size : Nat} (h : readHalfWord? bytes = some (size, rest)) :
    rest.length ≤ bytes.length := by
  unfold readHalfWord? at h
  split at h
  · cases h
    simp only [List.length_cons]
    omega
  · cases h

/-- What follows a block is no longer than what starts with it. -/
theorem length_readBlock?_le (h : readBlock? bytes = some (data, rest)) :
    rest.length ≤ bytes.length := by
  obtain ⟨⟨size, bytes₁⟩, hsize, h⟩ := Option.bind_eq_some_iff.mp h
  obtain ⟨⟨complement, bytes₂⟩, hcomplement, h⟩ := Option.bind_eq_some_iff.mp h
  dsimp only at h
  split at h
  · cases h
    have h₁ := length_readHalfWord?_le hsize
    have h₂ := length_readHalfWord?_le hcomplement
    simp only [List.length_drop]
    omega
  · cases h

/-- The bytes of stored blocks up to the one that is marked as the last, and what follows. -/
def readBlocks? : List UInt8 → Option (List UInt8 × List UInt8)
  | 1 :: bytes => readBlock? bytes
  | 0 :: bytes =>
    match _h : readBlock? bytes with
    | none => none
    | some (data, rest) => do
      let (more, rest) ← readBlocks? rest
      return (data ++ more, rest)
  | _ => none
termination_by bytes => bytes.length
decreasing_by
  have := length_readBlock?_le _h
  simp only [List.length_cons]
  omega

/-- **Stored blocks are read back.** -/
theorem readBlocks?_storedBlocks (bytes rest : List UInt8) :
    readBlocks? (storedBlocks bytes ++ rest) = some (bytes, rest) := by
  induction bytes using storedBlocks.induct with
  | case1 bytes hlong ih =>
    have hblock : (bytes.take blockSize).length = blockSize := by
      rw [List.length_take]
      omega
    have hread := readBlock?_block (Nat.le_of_eq hblock)
      (storedBlocks (bytes.drop blockSize) ++ rest)
    rw [hblock, List.append_assoc, List.append_assoc] at hread
    rw [storedBlocks, if_pos hlong]
    simp only [List.cons_append, List.append_assoc]
    rw [readBlocks?]
    split
    · rename_i hnone
      cases hread.symm.trans hnone
    · rename_i data rest' hsome
      cases hread.symm.trans hsome
      rw [ih]
      simp
  | case2 bytes hshort =>
    rw [storedBlocks, if_neg hshort]
    simp only [List.cons_append]
    rw [readBlocks?]
    exact readBlock?_block (Nat.le_of_not_lt hshort) rest

/-- Storing bytes in blocks does not double their number. -/
theorem length_storedBlocks_le (bytes : List UInt8) :
    (storedBlocks bytes).length ≤ 2 * bytes.length + 5 := by
  induction bytes using storedBlocks.induct with
  | case1 bytes hlong ih =>
    rw [storedBlocks, if_pos hlong]
    simp only [List.length_drop] at ih
    simp only [List.length_append, List.length_cons, List.length_take, halfWord, List.length_nil]
    unfold blockSize at *
    omega
  | case2 bytes hshort =>
    rw [storedBlocks, if_neg hshort]
    simp only [List.length_append, List.length_cons, halfWord, List.length_nil]
    omega

/-! ## 3. Chunks and rows -/

/-- The bytes of a stream, with nothing behind it. -/
def readStream? (bytes : List UInt8) : Option (List UInt8) := do
  let bytes ← behind? [0x78, 0x01] bytes
  let (data, bytes) ← readBlocks? bytes
  let (check, bytes) ← readWord? bytes
  if check = sumCheck data ∧ bytes = [] then some data else none

/-- The data of a chunk of a kind, and what follows. -/
def readChunk? (kind : Text) (bytes : List UInt8) : Option (List UInt8 × List UInt8) := do
  let (size, bytes) ← readWord? bytes
  let body := bytes.take (kind.length + size)
  let data ← behind? (kind.map fun c => c.toNat.toUInt8) body
  let (check, rest) ← readWord? (bytes.drop (kind.length + size))
  if data.length = size ∧ check = cyclicCheck body then some (data, rest) else none

/-- The colors of pixels in three bytes each. -/
def colorsOf : List UInt8 → List Rgb
  | r :: g :: b :: rest => ⟨r.toNat, g.toNat, b.toNat⟩ :: colorsOf rest
  | _ => []

/-- The colors of so many rows of a width, each without a filter. -/
def readRows? (width : Nat) : Nat → List UInt8 → Option (List Rgb)
  | 0, bytes => if bytes = [] then some [] else none
  | rows + 1, 0 :: bytes => do
    let more ← readRows? width rows (bytes.drop (3 * width))
    return colorsOf (bytes.take (3 * width)) ++ more
  | _ + 1, _ => none

/-- The picture in a file as the library writes it. -/
def decode? (bytes : List UInt8) : Option Picture := do
  let bytes ← behind? signature bytes
  let (sides, bytes) ← readChunk? ['I', 'H', 'D', 'R'] bytes
  let (width, sides) ← readWord? sides
  let (height, kind) ← readWord? sides
  let (data, bytes) ← readChunk? ['I', 'D', 'A', 'T'] bytes
  let (_, bytes) ← readChunk? ['I', 'E', 'N', 'D'] bytes
  let rows ← readStream? data
  let colors ← readRows? width height rows
  if kind = [8, 2, 0, 0, 0] ∧ bytes = [] then some ⟨width, height, colors.toArray⟩ else none

/-- Both sums of a check are below the prime that they are taken by. -/
theorem sumCheck_lt (bytes : List UInt8) : sumCheck bytes < 2 ^ 32 := by
  have hsums : ∀ sums : Nat × Nat, sums.1 < 65521 ∧ sums.2 < 65521 →
      sums.2 * 65536 + sums.1 < 2 ^ 32 := by
    intro sums h
    omega
  refine hsums _ ?_
  exact List.foldlRecOn (motive := fun sums : Nat × Nat => sums.1 < 65521 ∧ sums.2 < 65521) bytes _
    ⟨by decide, by decide⟩ fun _ _ _ _ => ⟨Nat.mod_lt _ (by decide), Nat.mod_lt _ (by decide)⟩

theorem readStream?_stream (bytes : List UInt8) : readStream? (stream bytes) = some bytes := by
  have hcheck := readWord?_word (sumCheck_lt bytes) []
  rw [List.append_nil] at hcheck
  rw [readStream?, stream, List.append_assoc, behind?_append]
  simp only [Option.bind_eq_bind, Option.bind_some]
  rw [readBlocks?_storedBlocks, Option.bind_some]
  dsimp only
  rw [hcheck, Option.bind_some]
  simp

theorem readChunk?_chunk (kind : Text) (h : data.length < 2 ^ 32) (rest : List UInt8) :
    readChunk? kind (chunk kind data ++ rest) = some (data, rest) := by
  have hcheck : ∀ bytes, cyclicCheck bytes < 2 ^ 32 := fun bytes => UInt32.toNat_lt _
  rw [chunk]
  generalize hbody : (kind.map fun c => c.toNat.toUInt8) ++ data = body
  have hlength : body.length = kind.length + data.length := by
    rw [← hbody, List.length_append, List.length_map]
  simp only [List.append_assoc]
  rw [readChunk?, readWord?_word h]
  simp only [Option.bind_eq_bind, Option.bind_some]
  rw [← hlength, List.take_left, List.drop_left, readWord?_word (hcheck body), ← hbody,
    behind?_append]
  simp

/-- The bytes of colors, three for each. -/
def bytesOf (colors : List Rgb) : List UInt8 :=
  colors.flatMap fun c => [c.red.toNat.toUInt8, c.green.toNat.toUInt8, c.blue.toNat.toUInt8]

theorem length_bytesOf (colors : List Rgb) : (bytesOf colors).length = 3 * colors.length := by
  induction colors with
  | nil => rfl
  | cons c colors ih =>
    rw [bytesOf, List.flatMap_cons, List.length_append, ← bytesOf, ih]
    simp only [List.length_cons, List.length_nil]
    omega

theorem colorsOf_bytesOf {colors : List Rgb} (h : ∀ c ∈ colors, c.IsBytes) :
    colorsOf (bytesOf colors) = colors := by
  have hbyte : ∀ n : Int, 0 ≤ n ∧ n ≤ 255 → (n.toNat.toUInt8.toNat : Int) = n := by
    intro n hn
    simp only [Nat.toUInt8, UInt8.toNat_ofNat']
    omega
  induction colors with
  | nil => rfl
  | cons c colors ih =>
    obtain ⟨hc, hcolors⟩ := List.forall_mem_cons.mp h
    obtain ⟨hred, hgreen, hblue⟩ := hc
    rw [bytesOf, List.flatMap_cons, ← bytesOf]
    simp only [List.cons_append, List.nil_append, colorsOf]
    rw [ih hcolors, hbyte _ hred, hbyte _ hgreen, hbyte _ hblue]

/-- The bytes of a row are those of its colors. -/
theorem row_eq (p : Picture) (y : Nat) :
    row p y = 0 :: bytesOf ((p.pixels.toList.drop (y * p.width)).take p.width) := by
  rw [row, bytesOf, Array.toList_extract, List.extract_eq_take_drop, Nat.succ_mul,
    Nat.add_sub_cancel_left]

/-- Rows are no longer than what their pixels take, with the mark of the filter in front. -/
theorem length_rows_le (p : Picture) (ys : List Nat) :
    (ys.flatMap (row p)).length ≤ ys.length * (1 + 3 * p.width) := by
  induction ys with
  | nil => simp
  | cons y ys ih =>
    have hcolors : ((p.pixels.toList.drop (y * p.width)).take p.width).length ≤ p.width :=
      List.length_take_le _ _
    rw [List.flatMap_cons, List.length_append, row_eq, List.length_cons, length_bytesOf,
      List.length_cons, Nat.succ_mul ys.length]
    omega

/-- **Rows are read back.** -/
theorem readRows?_flatMap (hp : p.IsProper) {first rows : Nat} (hrows : first + rows ≤ p.height) :
    readRows? p.width rows ((List.range' first rows).flatMap (row p)) =
      some ((p.pixels.toList.drop (first * p.width)).take (rows * p.width)) := by
  induction rows generalizing first with
  | zero => simp [readRows?]
  | succ rows ih =>
    -- The colors of the first row, and how many bytes these take.
    have hlength : ((p.pixels.toList.drop (first * p.width)).take p.width).length = p.width := by
      have hfits : (first + 1) * p.width ≤ p.height * p.width := Nat.mul_le_mul_right _ (by omega)
      rw [Nat.succ_mul, Nat.mul_comm p.height, ← hp.size] at hfits
      rw [List.length_take, List.length_drop, Array.length_toList]
      omega
    have hcolors : ∀ c ∈ (p.pixels.toList.drop (first * p.width)).take p.width, c.IsBytes :=
      fun c hc => hp.bytes c (List.mem_of_mem_drop (List.mem_of_mem_take hc))
    have hrow := length_bytesOf ((p.pixels.toList.drop (first * p.width)).take p.width)
    rw [hlength] at hrow
    rw [List.range'_succ, List.flatMap_cons, row_eq, List.cons_append, readRows?, ← hrow,
      List.take_left, List.drop_left, ih (by omega), colorsOf_bytesOf hcolors]
    simp only [Option.bind_eq_bind, Option.bind_some, Option.pure_def, Option.some.injEq]
    rw [Nat.succ_mul, Nat.succ_mul, Nat.add_comm (rows * p.width), List.take_add, List.drop_drop]

/-- A file that can hold a picture gives its sides in four bytes each. -/
theorem sides_lt_of_canHold (h : canHold p = true) : p.width < 2 ^ 32 ∧ p.height < 2 ^ 32 := by
  simp only [canHold, Bool.and_eq_true, decide_eq_true_eq] at h
  have hheight : p.height ≤ p.height * (1 + 3 * p.width) := Nat.le_mul_of_pos_right _ (by omega)
  unfold mostBytes at h
  omega

theorem length_stream_lt_of_canHold (h : canHold p = true) :
    (stream ((List.range p.height).flatMap (row p))).length < 2 ^ 32 := by
  simp only [canHold, Bool.and_eq_true, decide_eq_true_eq] at h
  have hrows := length_rows_le p (List.range p.height)
  have hstored := length_storedBlocks_le ((List.range p.height).flatMap (row p))
  rw [List.length_range] at hrows
  simp only [stream, word, List.length_append, List.length_cons, List.length_nil]
  unfold mostBytes at h
  omega

/-- **What the library writes is read back.** -/
theorem decode?_encode (hp : p.IsProper) (h : canHold p = true) :
    decode? (encode p) = some p := by
  have hdata := length_stream_lt_of_canHold h
  have hsides := sides_lt_of_canHold h
  have hrows := readRows?_flatMap hp (show 0 + p.height ≤ p.height by omega)
  rw [← List.range_eq_range', Nat.zero_mul, List.drop_zero, Nat.mul_comm, ← hp.size,
    ← Array.length_toList, List.take_length] at hrows
  have hend := readChunk?_chunk ['I', 'E', 'N', 'D'] (show [].length < 2 ^ 32 by decide) []
  rw [List.append_nil] at hend
  rw [encode, decode?]
  simp only [List.append_assoc]
  rw [behind?_append]
  simp only [Option.bind_eq_bind, Option.bind_some]
  rw [readChunk?_chunk _ (by simp [header, word])]
  simp only [Option.bind_some]
  rw [header, List.append_assoc, readWord?_word hsides.1]
  simp only [Option.bind_some]
  rw [readWord?_word hsides.2]
  simp only [Option.bind_some]
  rw [readChunk?_chunk _ hdata]
  simp only [Option.bind_some]
  rw [hend]
  simp [readStream?_stream, hrows]

end Png

/-! ## 4. What is documented of savers -/

/-- What is documented of a saver whose files are opened in a given way. -/
structure Saver.IsFaithful (saver : Saver) (opened : List UInt8 → Option Picture) : Prop where
  /-- Where no extension says which format is meant, nothing is saved. -/
  extension_ne_nil {disk next : Disk} {path : Text} {p : Picture}
    (h : saver disk path p = .ok (.saved next)) : FileName.extension path ≠ []
  /-- A picture is saved as a file where its path leads to, and everything else stays. -/
  writes {disk next : Disk} {path : Text} {p : Picture}
    (h : saver disk path p = .ok (.saved next)) :
    ∃ place e, disk.locate path = .ok place ∧ disk.entry? place ≠ some .folder ∧
      Disk.asksForFolder path = false ∧ e ≠ .folder ∧ next = disk.write place e
  /-- A PNG file starts with the signature of such files. -/
  signed {disk next : Disk} {path : Text} {p : Picture} {bytes : List UInt8}
    (hpath : FileName.extension path = FileName.pictureExtension)
    (h : saver disk path p = .ok (.saved next)) (hread : next.read path = .ok bytes) :
    Png.signature <+: bytes
  /-- The picture in a PNG file is the one that was saved. -/
  opened_eq {disk next : Disk} {path : Text} {p : Picture} {bytes : List UInt8} (hp : p.IsProper)
    (hpath : FileName.extension path = FileName.pictureExtension)
    (h : saver disk path p = .ok (.saved next)) (hread : next.read path = .ok bytes) :
    opened bytes = some p

/-- A file holds bytes. -/
theorem Entry.exists_bytes? {e : Entry} (h : e ≠ .folder) : ∃ bytes, e.bytes? = some bytes := by
  cases e with
  | folder => exact absurd rfl h
  | file bytes => exact ⟨bytes, rfl⟩
  | picture p => exact ⟨Png.encode p, rfl⟩

theorem Entry.ne_folder {e : Entry} {bytes : List UInt8} (h : e.bytes? = some bytes) :
    e ≠ .folder := by
  rintro rfl
  cases h

/-- **What is written at a path is read at it.** -/
theorem Disk.read_write {d : Disk} {place : Place} {path : Text} {e : Entry} {bytes : List UInt8}
    (hplace : d.locate path = .ok place) (hentry : d.entry? place ≠ some .folder)
    (hasks : Disk.asksForFolder path = false) (he : e.bytes? = some bytes) :
    (d.write place e).read path = .ok bytes := by
  have hfiles : d.TakesFiles [(place, e)] :=
    List.forall_mem_singleton.mpr ⟨hentry, Entry.ne_folder he⟩
  have hprefix : ¬ place.isPrefixOf d.here = true :=
    fun hprefix => hentry (Disk.entry?_of_isPrefixOf hprefix)
  have hlast : Disk.lastAt? ([] ++ (place, e) :: []) place = some e :=
    Disk.lastAt?_append_cons (List.forall_mem_nil _)
  have hhere : Disk.entry? (d.withFiles [(place, e)]) place = some e := by
    rw [Disk.entry?_withFiles, if_neg hprefix]
    exact congrArg (Option.or · _) hlast
  exact Disk.read_ok_iff.mpr ⟨e, Disk.look_ok_iff.mpr
    ⟨place, (Disk.locate_withFiles hfiles).mpr hplace, hhere, .inr hasks⟩, he⟩

namespace Saver

variable {saver : Saver} {opened : List UInt8 → Option Picture} {disk next : Disk} {path : Text}
  {p : Picture}

/-- **What a saved picture leaves:** a file with bytes, which hold the picture if they are those of
a PNG file. -/
theorem IsFaithful.exists_file (hsaver : saver.IsFaithful opened)
    (h : saver disk path p = .ok (.saved next)) :
    ∃ place e bytes, disk.locate path = .ok place ∧ disk.entry? place ≠ some .folder ∧
      Disk.asksForFolder path = false ∧ e.bytes? = some bytes ∧ next = disk.write place e ∧
      (FileName.extension path = FileName.pictureExtension →
        Png.signature <+: bytes ∧ (p.IsProper → opened bytes = some p)) := by
  obtain ⟨place, e, hplace, hentry, hasks, he, rfl⟩ := hsaver.writes h
  obtain ⟨bytes, hbytes⟩ := Entry.exists_bytes? he
  have hread := Disk.read_write hplace hentry hasks hbytes
  exact ⟨place, e, bytes, hplace, hentry, hasks, hbytes, rfl, fun hpath =>
    ⟨hsaver.signed hpath h hread, fun hp => hsaver.opened_eq hp hpath h hread⟩⟩

/-- When the saver of the library saves a picture. -/
theorem png_saved (h : Saver.png disk path p = .ok (.saved next)) :
    FileName.extension path = FileName.pictureExtension ∧ Png.canHold p = true ∧
      disk.save path p = .ok next := by
  unfold Saver.png at h
  dsimp only at h
  split at h
  · cases h
  · rename_i hextension
    split at h
    · cases h
    · rename_i hhold
      split at h
      · cases h
      · rename_i hsave
        cases h
        exact ⟨Decidable.not_not.mp hextension, by simpa using hhold, hsave⟩

/-- **The saver of the library can be relied on.** -/
theorem isFaithful_png : Saver.IsFaithful .png Png.decode? := by
  have hencode : ∀ {disk next : Disk} {path : Text} {p : Picture} {bytes : List UInt8},
      Saver.png disk path p = .ok (.saved next) → next.read path = .ok bytes →
        bytes = Png.encode p := by
    intro disk next path p bytes h hread
    obtain ⟨place, hplace, hentry, hasks, rfl⟩ := Disk.save_ok (png_saved h).2.2
    exact Except.ok.inj (hread.symm.trans (Disk.read_write hplace hentry hasks rfl))
  constructor
  · intro disk next path p h hnil
    rw [(png_saved h).1] at hnil
    cases hnil
  · intro disk next path p h
    obtain ⟨place, hplace, hentry, hasks, rfl⟩ := Disk.save_ok (png_saved h).2.2
    exact ⟨place, _, hplace, hentry, hasks, by simp, rfl⟩
  · intro disk next path p bytes _ h hread
    rw [hencode h hread, Png.encode, List.append_assoc, List.append_assoc]
    exact List.prefix_append _ _
  · intro disk next path p bytes hp _ h hread
    rw [hencode h hread]
    exact Png.decode?_encode hp (png_saved h).2.1

end Saver

end VectorPaint
