/-
# What is painted stays painted

A canvas holds indices of the palette and nothing else, and a pixel that was painted once is never
transparent again.  Both hold at every moment of painting, on the canvas of the text and on those
of its groups, and both have one reason: whatever is written is an index from 1 to 15.  A shape is
in a color of the palette, and a layer hands on only those of its pixels that are not transparent.
So `IsInked` is preserved by every step, and what one step does to a canvas follows from it.

At the end the pixels that are not transparent are those that some shape covers.  In a picture
they have colors of the palette, and the background shows at all others.
-/
import VectorPaint.Proofs.Moments

namespace VectorPaint

/-! ## 1. Indices that are written -/

/-- An index that has a color in the palette. -/
def IsInk (index : UInt8) : Prop := index ≠ 0 ∧ index ≤ 15

/-- The index of a color of the palette. -/
theorem isInk_of_ink {p : Paint} (hp : p.IsInked) {index : UInt8}
    (h : Canvas.ink p.color = .ok index) : IsInk index := by
  obtain ⟨i, hi, hne⟩ := Canvas.ink_of_inked hp
  cases h.symm.trans hi
  obtain ⟨h1, h15⟩ := hp
  rw [Canvas.ink, if_pos ⟨by omega, by omega⟩] at h
  refine ⟨hne, ?_⟩
  rw [← Except.ok.inj h, UInt8.le_iff_toNat_le, Nat.toUInt8, UInt8.toNat_ofNat']
  change _ ≤ 15
  omega

/-- What is written for a shape in a color of the palette. -/
theorem isInk_of_writesOf {letters : Lettering} {width height : Int} {p : Paint}
    (hp : p.IsInked) {ws : List Write} (h : Canvas.writesOf letters width height p = .ok ws) :
    ∀ w ∈ ws, IsInk w.2 := by
  rcases Canvas.writesOf_cases h with ⟨-, rfl⟩ | ⟨pixels, index, -, hi, rfl⟩
  · exact fun w hw => absurd hw List.not_mem_nil
  · exact List.forall_mem_map.mpr fun _ _ => isInk_of_ink hp hi

/-- What a canvas shows of itself, if it holds indices of the palette only. -/
theorem isInk_of_shown {c : Canvas} (hc : ∀ q, c.get q ≤ 15) : ∀ w ∈ c.shown, IsInk w.2 := by
  intro w hw
  obtain ⟨q, hq, rfl⟩ := List.mem_map.mp hw
  exact ⟨by simpa using (List.mem_filter.mp hq).2, hc q⟩

/-! ## 2. Every moment -/

/-- What is at hand is to be written in colors of the palette, and so is what follows. -/
structure Painter.IsInked (p : Painter) : Prop where
  writes : ∀ w ∈ p.writes, IsInk w.2
  scene : p.scene.Holds Act.IsInked

namespace Moment

variable {letters : Lettering} {m m' : Moment}

/-- All pixels are in indices of the palette, and all painters keep to its colors. -/
structure IsInked (m : Moment) : Prop where
  pixels : ∀ i q, (m.sheets i).get q ≤ 15
  painters : ∀ p ∈ m.painters, p.IsInked

theorem isInked_start (frame : Frame) (source : Text) : (start frame source).IsInked where
  pixels i q := by
    rw [start, Canvas.get_blank]
    decide
  painters p hp := by
    cases List.mem_singleton.mp hp
    exact ⟨fun w hw => absurd hw List.not_mem_nil, Scene.read_inked _ _ _ _⟩

/-- **What a step does to a pixel.**  It is given an index of the palette, or it stays as it
is. -/
theorem isInk_or_get_eq (h : Step letters m m') (hm : m.IsInked) (i : Nat) (q : Pixel) :
    IsInk ((m'.sheets i).get q) ∨ (m'.sheets i).get q = (m.sheets i).get q := by
  cases h with
  | finish | note | paint | enter => exact Or.inr rfl
  | write sheets used sheet w ws scene below =>
    have hw : IsInk w.2 := (hm.painters _ List.mem_cons_self).writes w List.mem_cons_self
    dsimp only
    by_cases hi : i = sheet
    · subst hi
      rw [Function.update_self, Canvas.get_put]
      split
      · exact Or.inl hw
      · exact Or.inr rfl
    · rw [Function.update_of_ne hi]
      exact Or.inr rfl

/-- A step leaves painters who keep to the colors of the palette. -/
theorem painters_isInked_step (h : Step letters m m') (hm : m.IsInked) :
    ∀ p ∈ m'.painters, p.IsInked := by
  obtain ⟨hpixels, hpainters⟩ := hm
  cases h with
  | write sheets used sheet w ws scene below =>
    obtain ⟨⟨hwrites, hscene⟩, hbelow⟩ := List.forall_mem_cons.mp hpainters
    exact List.forall_mem_cons.mpr ⟨⟨(List.forall_mem_cons.mp hwrites).2, hscene⟩, hbelow⟩
  | finish sheets used sheet stacked below =>
    obtain ⟨-, hbelow⟩ := List.forall_mem_cons.mp hpainters
    cases below with
    | nil => exact hbelow
    | cons parent below =>
      obtain ⟨⟨hwrites, hscene⟩, hbelow⟩ := List.forall_mem_cons.mp hbelow
      have hlayer := isInk_of_shown (hpixels sheet)
      exact List.forall_mem_cons.mpr
        ⟨⟨List.forall_mem_append.mpr ⟨hlayer, hwrites⟩, hscene⟩, hbelow⟩
  | note sheets used sheet r rest below =>
    obtain ⟨⟨hwrites, hscene⟩, hbelow⟩ := List.forall_mem_cons.mp hpainters
    exact List.forall_mem_cons.mpr ⟨⟨hwrites, hscene.2⟩, hbelow⟩
  | paint sheets used sheet p rest below hws =>
    obtain ⟨⟨-, hscene⟩, hbelow⟩ := List.forall_mem_cons.mp hpainters
    exact List.forall_mem_cons.mpr ⟨⟨isInk_of_writesOf hscene.1 hws, hscene.2⟩, hbelow⟩
  | enter sheets used sheet body rest below =>
    obtain ⟨⟨hwrites, hscene⟩, hbelow⟩ := List.forall_mem_cons.mp hpainters
    exact List.forall_mem_cons.mpr ⟨⟨hwrites, hscene.1⟩,
      List.forall_mem_cons.mpr ⟨⟨hwrites, hscene.2⟩, hbelow⟩⟩

/-- **A step keeps to the palette.** -/
theorem isInked_step (h : Step letters m m') (hm : m.IsInked) : m'.IsInked where
  pixels i q := by
    rcases isInk_or_get_eq h hm i q with hink | hsame
    · exact hink.2
    · rw [hsame]
      exact hm.pixels i q
  painters := painters_isInked_step h hm

/-- **A step does not erase.**  A pixel that is not transparent stays so on its canvas. -/
theorem get_ne_zero_step (h : Step letters m m') (hm : m.IsInked) (i : Nat) {q : Pixel}
    (hq : (m.sheets i).get q ≠ 0) : (m'.sheets i).get q ≠ 0 := by
  rcases isInk_or_get_eq h hm i q with hink | hsame
  · exact hink.1
  · rwa [hsame]

theorem isInked_of_reaches (h : m.Reaches letters m') (hm : m.IsInked) : m'.IsInked :=
  h.preserves (fun _ _ => isInked_step) hm

/-- **What is painted stays painted,** from any moment to any later one. -/
theorem get_ne_zero_of_reaches (h : m.Reaches letters m') (hm : m.IsInked) (i : Nat) {q : Pixel}
    (hq : (m.sheets i).get q ≠ 0) : (m'.sheets i).get q ≠ 0 := by
  have hboth : m'.IsInked ∧ (m'.sheets i).get q ≠ 0 :=
    h.preserves (P := fun m => m.IsInked ∧ (m.sheets i).get q ≠ 0)
      (fun _ _ hstep hm => ⟨isInked_step hstep hm.1, get_ne_zero_step hstep hm.1 i hm.2⟩) ⟨hm, hq⟩
  exact hboth.2

end Moment

/-! ## 3. Pixels that shapes cover -/

/-- A shape is painted on a canvas of the given size, and on this pixel too. -/
def Paint.Covers (letters : Lettering) (width height : Int) (p : Paint) (q : Pixel) : Prop :=
  ∃ pixels, p.shape.coverageWith letters width height = .ok (some pixels) ∧ q ∈ pixels

instance (letters : Lettering) (width height : Int) (p : Paint) (q : Pixel) :
    Decidable (p.Covers letters width height q) :=
  match h : p.shape.coverageWith letters width height with
  | .ok (some pixels) => decidable_of_iff (q ∈ pixels) (by simp [Paint.Covers, h])
  | .ok none => .isFalse (by simp [Paint.Covers, h])
  | .error _ => .isFalse (by simp [Paint.Covers, h])

namespace Canvas

variable {letters : Lettering} {c d : Canvas}

/-- Behind a shape a pixel is not transparent if it was not before or if the shape covers it. -/
theorem get_paintWith_ne_zero {p : Paint} (hp : p.IsInked) (h : c.paintWith letters p = .ok d)
    {q : Pixel} (hq : c.holds q = true) :
    d.get q ≠ 0 ↔ c.get q ≠ 0 ∨ p.Covers letters c.width c.height q := by
  rw [paintWith_eq_writeAll] at h
  cases hws : writesOf letters c.width c.height p with
  | error fault =>
    rw [hws] at h
    cases h
  | ok ws =>
    rw [hws] at h
    cases h
    unfold Paint.Covers
    rcases writesOf_cases hws with ⟨hcov, rfl⟩ | ⟨pixels, index, hcov, hi, rfl⟩
    · have hnone : c.writeAll [] = c := rfl
      simp [hnone, hcov]
    · have hne : index ≠ 0 := (isInk_of_ink hp hi).1
      rw [writeAll_map, get_plot]
      by_cases hpixels : q ∈ pixels <;> simp [hpixels, hq, hcov, hne]

/-- **Behind several shapes a pixel is not transparent if it was not before or if one of the
shapes covers it.** -/
theorem get_paintAllWith_ne_zero {ps : List Paint} (hps : ∀ p ∈ ps, p.IsInked)
    (h : c.paintAllWith letters ps = .ok d) {q : Pixel} (hq : c.holds q = true) :
    d.get q ≠ 0 ↔ c.get q ≠ 0 ∨ ∃ p ∈ ps, p.Covers letters c.width c.height q := by
  induction ps generalizing c with
  | nil =>
    cases h
    simp
  | cons p rest ih =>
    obtain ⟨hp, hrest⟩ := List.forall_mem_cons.mp hps
    rw [paintAllWith_cons] at h
    cases he : c.paintWith letters p with
    | error fault =>
      rw [he] at h
      cases h
    | ok e =>
      rw [he] at h
      obtain ⟨hw, hh⟩ := size_paintWith letters he
      rw [ih hrest h (holds_congr hw hh q ▸ hq), get_paintWith_ne_zero hp he hq, hw, hh,
        or_assoc]
      simp only [List.mem_cons, exists_eq_or_imp]

end Canvas

/-! ## 4. Pictures -/

/-- A color whose three components fit a byte each. -/
structure Rgb.IsBytes (c : Rgb) : Prop where
  red : 0 ≤ c.red ∧ c.red ≤ 255
  green : 0 ≤ c.green ∧ c.green ≤ 255
  blue : 0 ≤ c.blue ∧ c.blue ≤ 255

/-- The color of a picture in a column and a row. -/
def Picture.at? (p : Picture) (x y : Nat) : Option Rgb := p.pixels[y * p.width + x]?

namespace Palette

/-- The indices of the entries. -/
theorem entries_range : ∀ entry ∈ entries, 1 ≤ entry.2 ∧ entry.2 ≤ 15 := by decide

theorem color_transparent (background : Rgb) : color 0 background = background := rfl

/-- An index of the palette has the color of an entry, whatever the background is. -/
theorem color_of_isInk {index : UInt8} (h : IsInk index) (background : Rgb) :
    (color index.toNat background, index.toNat) ∈ entries := by
  have hfound : ∀ i < 16, i ≠ 0 →
      (entries.find? fun entry => (entry.2 : Int) == (i : Nat)).isSome = true := by decide
  have hne : index.toNat ≠ 0 := fun hz => h.1 (UInt8.toNat_inj.mp hz)
  have hlt : index.toNat < 16 := Nat.lt_succ_of_le (UInt8.le_iff_toNat_le.mp h.2)
  obtain ⟨entry, hentry⟩ := Option.isSome_iff_exists.mp (hfound _ hlt hne)
  have hindex : (entry.2 : Int) = index.toNat := by simpa using List.find?_some hentry
  rw [color, hentry, ← Int.ofNat.inj hindex]
  exact List.mem_of_find?_eq_some hentry

end Palette

namespace Canvas

/-- **A picture gives each index its color.** -/
theorem picture_eq (c : Canvas) {background : Rgb} (h : background.IsBytes) :
    c.picture background = .ok ⟨c.width, c.height,
      c.cells.map fun index => Palette.color index.toNat background⟩ := by
  obtain ⟨hred, hgreen, hblue⟩ := h
  have hcheck : checkBackground background = .ok () := by
    simp only [checkBackground, checkComponent]
    rw [if_pos hred, if_pos hgreen, if_pos hblue]
    rfl
  have htable : ∀ index : UInt8,
      (((Array.range 256).map fun (i : Nat) => Palette.color i background).getD index.toNat
        background) = Palette.color index.toNat background := by
    intro index
    have hlt : index.toNat < 256 := index.toNat_lt
    simp [Array.getD, hlt]
  unfold picture
  rw [hcheck]
  refine congrArg Except.ok ?_
  simp only [htable]

theorem holds_of_lt {c : Canvas} {x y : Nat} (hx : x < c.width) (hy : y < c.height) :
    c.holds (x, y) = true :=
  holds_iff.mpr ⟨Int.natCast_nonneg x, Int.ofNat_lt.mpr hx, Int.natCast_nonneg y,
    Int.ofNat_lt.mpr hy⟩

/-- The cells are the pixels row after row. -/
theorem cells_getElem? (c : Canvas) {x y : Nat} (hx : x < c.width) (hy : y < c.height) :
    c.cells[y * c.width + x]? = some (c.get (x, y)) := by
  have hq := holds_of_lt hx hy
  have hplace : y * c.width + x < c.cells.size := place_lt hq
  rw [get, if_pos hq, Array.getElem?_eq_getElem hplace]
  change _ = some (c.cells.getD (y * c.width + x) 0)
  rw [Array.getD, dif_pos hplace]
  rfl

/-- A pixel of a picture has the color of its index. -/
theorem exists_picture (c : Canvas) {background : Rgb} (h : background.IsBytes) :
    ∃ picture, c.picture background = .ok picture ∧ picture.width = c.width ∧
      picture.height = c.height ∧ ∀ x y : Nat, x < c.width → y < c.height →
        picture.at? x y = some (Palette.color (c.get (x, y)).toNat background) := by
  refine ⟨_, picture_eq c h, rfl, rfl, fun x y hx hy => ?_⟩
  unfold Picture.at?
  dsimp only
  rw [Array.getElem?_map, cells_getElem? c hx hy]
  rfl

end Canvas

/-! ## 5. Runs and pictures -/

/-- **The pixels of a rendering that are not transparent are those that some shape covers.** -/
theorem Rendering.get_ne_zero_iff {letters : Lettering} {frame : Frame} {source : Text}
    {r : Rendering} (hr : Rendering.ofTextWith letters frame source = .ok r) {q : Pixel}
    (hq : r.canvas.holds q = true) :
    r.canvas.get q ≠ 0 ↔
      ∃ p ∈ r.scene.paints, p.Covers letters r.canvas.width r.canvas.height q := by
  obtain ⟨hscene, hpaint⟩ := Rendering.paintOn_of_ofTextWith hr
  obtain ⟨hwidth, hheight⟩ := Moment.size_canvas hr
  have hinked : ∀ p ∈ r.scene.paints, p.IsInked :=
    hscene ▸ Scene.paints_read_inked frame.width frame.height frame.steps source
  have hall := Scene.paintAllWith_of_paintOnWith hinked hpaint
  rw [← hwidth, ← hheight] at hall
  rw [Canvas.get_paintAllWith_ne_zero hinked hall hq, Canvas.get_blank]
  simp [Canvas.blank]

/-- **What is painted stays painted, in colors of the palette,** whatever form letters have.  At
every moment all pixels of all canvases are in indices up to 15, and a pixel that is not
transparent stays so at all later moments.  The moments of a text come to what the text paints,
canvas or fault.  The picture of a rendering has the background at the pixels that no shape
covers, and at all others the color of an entry of the palette. -/
theorem painted_stays_inked (letters : Lettering) (frame : Frame) (source : Text) :
    (∀ m, (Moment.start frame source).Reaches letters m →
      (∀ i q, (m.sheets i).get q ≤ 15) ∧
      ∀ m', m.Reaches letters m' → ∀ i q, (m.sheets i).get q ≠ 0 → (m'.sheets i).get q ≠ 0) ∧
    (∃ last, (Moment.start frame source).Reaches letters last ∧
      last.outcome? letters =
        some ((Scene.read frame.width frame.height frame.steps source).paintOnWith letters
          (Canvas.blank frame.width.toNat frame.height.toNat))) ∧
    ∀ r, Rendering.ofTextWith letters frame source = .ok r →
      ∀ background : Rgb, background.IsBytes →
        ∃ picture, r.canvas.picture background = .ok picture ∧
          picture.width = r.canvas.width ∧ picture.height = r.canvas.height ∧
          ∀ x y : Nat, x < r.canvas.width → y < r.canvas.height →
            ((∀ p ∈ r.scene.paints,
                ¬ p.Covers letters r.canvas.width r.canvas.height (x, y)) →
              picture.at? x y = some background) ∧
            ((∃ p ∈ r.scene.paints, p.Covers letters r.canvas.width r.canvas.height (x, y)) →
              ∃ entry ∈ Palette.entries, 1 ≤ entry.2 ∧ entry.2 ≤ 15 ∧
                picture.at? x y = some entry.1) := by
  have hmoments : ∀ m, (Moment.start frame source).Reaches letters m → m.IsInked := fun m hm =>
    Moment.isInked_of_reaches hm (Moment.isInked_start frame source)
  refine ⟨fun m hm => ⟨(hmoments m hm).pixels, fun m' hm' i q hq =>
    Moment.get_ne_zero_of_reaches hm' (hmoments m hm) i hq⟩,
    Moment.reaches_outcome letters frame source, fun r hr background hbackground => ?_⟩
  obtain ⟨last, hlast, hcanvas⟩ := Moment.reaches_canvas hr
  obtain ⟨picture, hpicture, hwidth, hheight, hat⟩ := r.canvas.exists_picture hbackground
  refine ⟨picture, hpicture, hwidth, hheight, fun x y hx hy => ?_⟩
  have hcovered := Rendering.get_ne_zero_iff hr (Canvas.holds_of_lt hx hy)
  rw [hat x y hx hy]
  constructor
  · intro hnone
    have hzero : r.canvas.get (x, y) = 0 := by
      refine Decidable.byContradiction fun hne => ?_
      obtain ⟨p, hp, hcovers⟩ := hcovered.mp hne
      exact hnone p hp hcovers
    rw [hzero]
    exact congrArg some (Palette.color_transparent background)
  · intro hsome
    have hink : IsInk (r.canvas.get (x, y)) :=
      ⟨hcovered.mpr hsome, hcanvas ▸ (hmoments last hlast).pixels 0 (x, y)⟩
    have hentry := Palette.color_of_isInk hink background
    obtain ⟨h1, h15⟩ := Palette.entries_range _ hentry
    exact ⟨_, hentry, h1, h15, rfl⟩

/-- A moment inside of the group of the crossed square, the last moment, and a picture. -/
theorem painted_stays_inked_crossedSquare :
    ∃ m m' r picture,
      (Moment.start ⟨4, 4, 10⟩ crossedSquare).later? .blocks 16 = some m ∧
      ((m.sheets 0).get (1, 1), (m.sheets 1).get (0, 0)) = (2, 15) ∧
      m.later? .blocks 9 = some m' ∧ (m'.sheets 0).get (1, 1) ≤ 15 ∧
      (m'.sheets 0).get (1, 1) ≠ 0 ∧ (m'.sheets 1).get (0, 0) ≠ 0 ∧
      Rendering.ofTextWith .blocks ⟨4, 4, 10⟩ crossedSquare = .ok r ∧
      r.canvas.picture ⟨9, 9, 9⟩ = .ok picture ∧
      picture.at? 3 0 = some ⟨9, 9, 9⟩ ∧
      ∃ entry ∈ Palette.entries, 1 ≤ entry.2 ∧ entry.2 ≤ 15 ∧ picture.at? 1 1 = some entry.1 := by
  have hpixels : (((Moment.start ⟨4, 4, 10⟩ crossedSquare).later? .blocks 16).map fun m =>
      ((m.later? .blocks 9).isSome, (m.sheets 0).get (1, 1), (m.sheets 1).get (0, 0))) =
        some (true, 2, 15) := by
    decide +kernel
  have hcovers : (Rendering.ofTextWith .blocks ⟨4, 4, 10⟩ crossedSquare).toOption.map (fun r =>
      (decide (∀ p ∈ r.scene.paints, ¬ p.Covers .blocks r.canvas.width r.canvas.height (3, 0)),
        decide (∃ p ∈ r.scene.paints, p.Covers .blocks r.canvas.width r.canvas.height (1, 1)),
        r.canvas.width, r.canvas.height)) = some (true, true, 4, 4) := by
    decide +kernel
  obtain ⟨m, hm, hvalues⟩ := Option.map_eq_some_iff.mp hpixels
  obtain ⟨hsome, hinks⟩ := Prod.mk.inj hvalues
  obtain ⟨m', hm'⟩ := Option.isSome_iff_exists.mp hsome
  obtain ⟨hsquare, hline⟩ := Prod.mk.inj hinks
  cases hr : Rendering.ofTextWith .blocks ⟨4, 4, 10⟩ crossedSquare with
  | error fault =>
    rw [hr] at hcovers
    cases hcovers
  | ok r =>
    rw [hr] at hcovers
    obtain ⟨hnone, hrest⟩ := Prod.mk.inj (Option.some.inj hcovers)
    obtain ⟨hsome, hsize⟩ := Prod.mk.inj hrest
    obtain ⟨hwidth, hheight⟩ := Prod.mk.inj hsize
    obtain ⟨hmoments, -, hrendering⟩ := painted_stays_inked .blocks ⟨4, 4, 10⟩ crossedSquare
    have hreach := Moment.reaches_of_later? hm
    have hlater := Moment.reaches_of_later? hm'
    have hstays := (hmoments m hreach).2 m' hlater
    obtain ⟨picture, hpicture, -, -, hat⟩ :=
      hrendering r hr ⟨9, 9, 9⟩ ⟨by decide, by decide, by decide⟩
    have hnone := (hat 3 0 (by omega) (by omega)).1 (of_decide_eq_true hnone)
    have hsome := (hat 1 1 (by omega) (by omega)).2 (of_decide_eq_true hsome)
    refine ⟨m, m', r, picture, hm, hinks, hm', (hmoments m' (hreach.trans hlater)).1 0 (1, 1),
      hstays 0 (1, 1) ?_, hstays 1 (0, 0) ?_, rfl, hpicture, hnone, hsome⟩
    · rw [hsquare]
      decide
    · rw [hline]
      decide

end VectorPaint
