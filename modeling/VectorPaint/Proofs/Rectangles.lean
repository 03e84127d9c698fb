/-
# Which pixels a rectangle paints

A rectangle is given by its upper left corner and by its extents.  Each of the four numbers may be
negative or far beyond the canvas, so the bounds between which it is painted are cut to the canvas
first.  On the canvas nothing is lost by this: a pixel is painted exactly if it lies in the
rectangle (`mem_rectPixels`), and what the pixel or its neighbors held before has no influence.

A canvas that is cut off on the right and at the bottom therefore shows the same rectangle, as far
as it reaches (`paint_rect`).
-/
import VectorPaint.Proofs.Discs

namespace VectorPaint

open Number

namespace Shape

/-! ## 1. The pixels of a rectangle -/

/-- The pixels of a rectangle.  Its right and its lower bound are left out, and a rectangle without
extent has no pixels. -/
def InRect (x y w h : ℤ) (p : Pixel) : Prop :=
  0 < w ∧ 0 < h ∧ x ≤ p.1 ∧ p.1 < x + w ∧ y ≤ p.2 ∧ p.2 < y + h

instance (x y w h : ℤ) (p : Pixel) : Decidable (InRect x y w h p) :=
  inferInstanceAs (Decidable (_ ∧ _))

variable {canvasWidth canvasHeight x y w h : ℤ}

/-- A rectangle of whole numbers. -/
theorem rectPixels_whole
    (hfinite : Coord.allFinite [.whole x, .whole y, .whole w, .whole h] = .ok true) :
    rectPixels canvasWidth canvasHeight (.whole x) (.whole y) (.whole w) (.whole h) =
      if ((Coord.whole w).le (.whole 0) || (Coord.whole h).le (.whole 0)) = true then .ok none
      else if min canvasWidth (x + w) ≤ max 0 x ∨ min canvasHeight (y + h) ≤ max 0 y then .ok none
      else .ok (some (Canvas.box (max 0 x) (max 0 y) (min canvasWidth (x + w))
        (min canvasHeight (y + h)))) := by
  simp only [rectPixels]
  rw [hfinite]
  rfl

/-- **The pixels of a rectangle on the canvas** are those that lie in it, however its bounds stand
to the edges of the canvas. -/
theorem mem_rectPixels {found : Option (List Pixel)}
    (hfound : rectPixels canvasWidth canvasHeight (.whole x) (.whole y) (.whole w) (.whole h) =
      .ok found) {p : Pixel} (hp : 0 ≤ p.1 ∧ p.1 < canvasWidth ∧ 0 ≤ p.2 ∧ p.2 < canvasHeight) :
    p ∈ found.getD [] ↔ InRect x y w h p := by
  have hfinite : Coord.allFinite [.whole x, .whole y, .whole w, .whole h] = .ok true := by
    obtain ⟨b, hb, -⟩ := of_bind_ok hfound
    rw [hb, allFinite_whole (l := [x, y, w, h]) hb]
  rw [rectPixels_whole hfinite] at hfound
  split at hfound
  · rename_i hflat
    cases hfound
    rw [Bool.or_eq_true, Coord.whole_le_iff, Coord.whole_le_iff] at hflat
    refine iff_of_false List.not_mem_nil ?_
    rintro ⟨hw, hh, -⟩
    omega
  rename_i hflat
  rw [Bool.or_eq_true, Coord.whole_le_iff, Coord.whole_le_iff] at hflat
  split at hfound
  · rename_i hoff
    cases hfound
    refine iff_of_false List.not_mem_nil ?_
    rintro ⟨-, -, hin⟩
    omega
  · cases hfound
    rw [Option.getD_some, Canvas.mem_box]
    unfold InRect
    omega

end Shape

namespace Canvas

/-! ## 2. The corner of a canvas -/

/-- The upper left corner of a canvas, as a canvas of its own. -/
def corner (c : Canvas) (width height : ℕ) : Canvas := (blank width height).overlay c 0 0

section Corner

variable {c : Canvas} {width height : ℕ}

@[simp] theorem width_corner : (c.corner width height).width = width := width_overlay ..

@[simp] theorem height_corner : (c.corner width height).height = height := height_overlay ..

/-- The corner holds what the canvas holds. -/
theorem get_corner {p : Pixel} (hp : (c.corner width height).holds p = true) :
    (c.corner width height).get p = c.get p := by
  have hshift : ((p.1 - 0, p.2 - 0) : Pixel) = p := by simp
  have hblank : (blank width height).holds p = true := by
    rw [← hp]
    exact holds_congr (by simp [blank]) (by simp [blank]) p
  unfold corner
  rw [get_overlay, hshift, get_blank]
  by_cases hink : c.get p = 0
  · rw [if_neg fun h => h.2 hink, hink]
  · rw [if_pos ⟨hblank, hink⟩]

theorem holds_of_corner (hw : width ≤ c.width) (hh : height ≤ c.height) {p : Pixel}
    (hp : (c.corner width height).holds p = true) : c.holds p = true := by
  rw [holds_iff, width_corner, height_corner] at hp
  rw [holds_iff]
  omega

end Corner

/-! ## 3. The painted rectangle -/

variable {c : Canvas} {color x y w h : ℤ}

/-- A color that fits a pixel is read back from it. -/
theorem toNat_ink (hcolor : 0 ≤ color ∧ color ≤ 255) :
    ((color.toNat.toUInt8.toNat : ℕ) : ℤ) = color := by
  simp only [Nat.toUInt8, UInt8.toNat_ofNat']
  omega

/-- A rectangle is painted on every canvas, and there on the pixels that lie in it. -/
theorem exists_paint_rect (c : Canvas) (hcolor : 0 ≤ color ∧ color ≤ 255)
    (hwhole : ∀ n ∈ [x, y, w, h], ∃ f, ofWhole n = .ok f) :
    ∃ c', c.paint ⟨.rect (.whole x) (.whole y) (.whole w) (.whole h), color⟩ = .ok c' ∧
      c'.width = c.width ∧ c'.height = c.height ∧ ∀ p, c'.get p =
        if c.holds p = true ∧ Shape.InRect x y w h p then color.toNat.toUInt8 else c.get p := by
  have hsettled : ∀ n ∈ [x, y, w, h], (Coord.whole n).IsSettled := by
    intro n hn
    exact (Coord.isConvertible_iff (a := .whole n)).mpr (hwhole n hn)
  obtain ⟨found, hfound⟩ := Shape.rectPixels_ok c.width c.height (hsettled x (by simp))
    (hsettled y (by simp)) (hsettled w (by simp)) (hsettled h (by simp))
  have hpaint : ∃ c', c.paint ⟨.rect (.whole x) (.whole y) (.whole w) (.whole h), color⟩ =
      .ok c' := by
    refine exists_bind_ok hfound ?_
    cases found with
    | none => exact ⟨c, rfl⟩
    | some pixels => exact exists_bind_ok (if_pos hcolor) ⟨_, rfl⟩
  obtain ⟨c', hc'⟩ := hpaint
  obtain ⟨found', hfound', hwidth, hheight, hget⟩ := get_of_paint hcolor hc'
  cases hfound.symm.trans hfound'
  refine ⟨c', hc', hwidth, hheight, fun p => ?_⟩
  rw [hget p]
  refine if_congr ?_ rfl rfl
  rw [and_comm]
  exact and_congr_right fun hp => Shape.mem_rectPixels hfound (holds_iff.mp hp)

/-- **What a rectangle paints.**  Whatever its numbers are, as long as they are within the range of
the floats, it can be painted on every canvas, whose size stays.  A pixel of the canvas has the
color afterwards exactly if it lies in the rectangle or had the color before, and every pixel that
does not lie in the rectangle stays what it was.  On a corner of the canvas the same rectangle
leaves the corner of the painted canvas. -/
theorem paint_rect (c : Canvas) (hcolor : 0 ≤ color ∧ color ≤ 255)
    (hwhole : ∀ n ∈ [x, y, w, h], ∃ f, ofWhole n = .ok f) :
    ∃ c', c.paint ⟨.rect (.whole x) (.whole y) (.whole w) (.whole h), color⟩ = .ok c' ∧
      c'.width = c.width ∧ c'.height = c.height ∧
      (∀ p, c.holds p = true →
        ((c'.get p).toNat = color ↔ Shape.InRect x y w h p ∨ (c.get p).toNat = color)) ∧
      (∀ p, ¬ Shape.InRect x y w h p → c'.get p = c.get p) ∧
      ∀ width height : ℕ, width ≤ c.width → height ≤ c.height →
        (c.corner width height).paint
            ⟨.rect (.whole x) (.whole y) (.whole w) (.whole h), color⟩ =
          .ok (c'.corner width height) := by
  obtain ⟨c', hpaint, hwidth, hheight, hget⟩ := exists_paint_rect c hcolor hwhole
  refine ⟨c', hpaint, hwidth, hheight, fun p hp => ?_, fun p hout => ?_,
    fun width height hw hh => ?_⟩
  · rw [hget p]
    by_cases hin : Shape.InRect x y w h p
    · rw [if_pos ⟨hp, hin⟩]
      exact iff_of_true (toNat_ink hcolor) (Or.inl hin)
    · rw [if_neg fun hboth => hin hboth.2, or_iff_right hin]
  · rw [hget p, if_neg fun hboth => hout hboth.2]
  · obtain ⟨d, hd, hdwidth, hdheight, hdget⟩ :=
      exists_paint_rect (c.corner width height) hcolor hwhole
    rw [hd]
    refine congrArg Except.ok (ext_get ?_ ?_ fun p => ?_)
    · rw [hdwidth, width_corner, width_corner]
    · rw [hdheight, height_corner, height_corner]
    have hsame : (c'.corner width height).holds p = (c.corner width height).holds p :=
      holds_congr (by simp) (by simp) p
    rw [hdget p]
    by_cases hp : (c.corner width height).holds p = true
    · rw [get_corner (hsame.trans hp), hget p, get_corner hp]
      exact if_congr (and_congr_left fun _ => iff_of_true hp (holds_of_corner hw hh hp)) rfl rfl
    · rw [if_neg fun hboth => hp hboth.1, get_of_not_holds hp,
        get_of_not_holds (hsame.symm ▸ hp)]

/-- A rectangle that begins above and on the left of the canvas and ends far on the right, on a
canvas that has its color in one place below it. -/
theorem paint_rect_acrossCorner :
    ∃ c', ((blank 3 3).put (2, 2) 4).paint
        ⟨.rect (.whole (-1)) (.whole (-2)) (.whole (2 ^ 99)) (.whole 3), 4⟩ = .ok c' ∧
      ((c'.get (2, 0)).toNat = 4 ∧ c'.get (2, 1) = 0 ∧ (c'.get (2, 2)).toNat = 4) ∧
      (((blank 3 3).put (2, 2) 4).corner 2 2).paint
          ⟨.rect (.whole (-1)) (.whole (-2)) (.whole (2 ^ 99)) (.whole 3), 4⟩ =
        .ok (c'.corner 2 2) := by
  have hwhole : ∀ n ∈ [(-1 : ℤ), -2, 2 ^ 99, 3], ∃ f, ofWhole n = .ok f := by
    intro n hn
    have hsmall : |n| ≤ 2 ^ 99 := by
      simp only [List.mem_cons, List.not_mem_nil, or_false] at hn
      rcases hn with rfl | rfl | rfl | rfl <;> decide
    have hrange : |(n : ℚ)| < overflow :=
      lt_of_le_of_lt (by exact_mod_cast hsmall) (two_zpow_lt_overflow (e := 99) (by decide))
    obtain ⟨f, hf, -⟩ := ofWhole_of_lt hrange
    exact ⟨f, hf⟩
  have hcolor : (0 : ℤ) ≤ 4 ∧ (4 : ℤ) ≤ 255 := by decide
  obtain ⟨c', hpaint, -, -, hcolored, hsame, hcorner⟩ :=
    paint_rect ((blank 3 3).put (2, 2) 4) hcolor hwhole
  refine ⟨c', hpaint, ⟨?_, ?_, ?_⟩, hcorner 2 2 (by decide) (by decide)⟩
  · exact_mod_cast (hcolored (2, 0) (by decide)).mpr (Or.inl (by decide))
  · exact (hsame (2, 1) (by decide)).trans (by decide)
  · exact_mod_cast (hcolored (2, 2) (by decide)).mpr (Or.inr (by decide))

end Canvas

end VectorPaint
