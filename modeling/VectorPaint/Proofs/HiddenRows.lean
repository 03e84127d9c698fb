/-
# Rows of an ellipse that are not seen

An ellipse is painted row by row, but only the rows that can reach the device are visited.  Leaving
out the others must not change the picture: the canvas has to be the one that all rows would paint,
from the top of the ellipse on until a row lies below it (`everyRow`).

A row that is left out does not land on the device (`visibleRows_cover`), so its line paints nothing
(`eq_of_paintRow_hidden`).  Since the reading of all rows stops with the first row below the ellipse
and below that row there are only such rows, both readings are folds over rows
(`paintReading_interval`), and one fold is the other one with idle steps in front and behind
(`foldlM_visible`).

This holds for moderate ellipses.  The first and the last row are found from sums with the vertical
radius, and beyond `2 ^ 53` such a sum is off by whole rows.  The height of a row is found from a
difference that is exact, so rows that do land on the device are left out.
-/
import VectorPaint.Proofs.RowBounds
import VectorPaint.Proofs.Bending

namespace VectorPaint

open Number

/-! ## 1. Readings and level lines -/

namespace Scene

variable {α : Type} {c : Canvas}

/-- The canvas with the acts of a reading painted on it. -/
def paintReading (c : Canvas) (j : Journal Act Unit) : Except Fault Canvas :=
  (ofReading j fun _ => .done 0).paintOn c

theorem paintReading_lift (r : Except Fault α) (f : α → Journal Act Unit) :
    paintReading c (liftM r >>= f) = r >>= fun a => paintReading c (f a) := by
  cases r <;> rfl

theorem paintReading_enter (p : Paint) (f : Unit → Journal Act Unit) :
    paintReading c (Journal.enter (.paint p) >>= f) =
      c.paint p >>= fun c => paintReading c (f ()) := rfl

end Scene

namespace Raster

/-- A level line above or below the canvas is not walked. -/
theorem pixels_of_level {halvings : ℕ} {width height : ℤ} {a b y : Coord} (ha : a.IsSettled)
    (hb : b.IsSettled) (hy : y.IsSettled) (hoff : ∀ n, y = .whole n → ¬ (0 ≤ n ∧ n < height)) :
    pixels halvings width height (a, y) (b, y) = .ok [] := by
  have hconvertible : ∀ z ∈ [a, y, b, y], z.IsConvertible := by
    simp only [List.mem_cons, List.not_mem_nil, or_false]
    rintro z (rfl | rfl | rfl | rfl)
    exacts [ha.isConvertible, hy.isConvertible, hb.isConvertible, hy.isConvertible]
  rw [pixels_eq]
  rcases Coord.allFinite_ok hconvertible with ⟨hfinite, -⟩ | ⟨hfinite, hall⟩
  · exact bind_ok hfinite rfl
  · obtain ⟨n, rfl, -⟩ := hy.eq_whole (hall y (by simp))
    have hmisses : misses height (.whole n) (.whole n) = true := by
      rw [misses_iff]
      simp only [Meets, max_self, min_self]
      exact hoff n rfl
    refine bind_ok hfinite ?_
    dsimp only
    rw [hmisses, Bool.or_true]
    rfl

end Raster

namespace Ellipse

variable {v : Viewport} {e : Ellipse} {whole row color : ℤ} {c d : Canvas} {l : List ℤ}

/-! ## 2. Rows one after the other -/

/-- The canvas with one row of an ellipse painted on it.  A row below the ellipse is none of its
rows. -/
def paintRow (v : Viewport) (e : Ellipse) (whole color : ℤ) (c : Canvas) (row : ℤ) :
    Except Fault Canvas := do
  let y ← e.rowHeight whole row
  if e.ry < y then return c
  else c.paint ⟨← e.rowLine v y, color⟩

/-- A row below the ellipse. -/
def IsBelow (e : Ellipse) (row : ℤ) : Prop :=
  ∃ y, e.rowHeight ⌊value e.ry⌋ row = .ok y ∧ e.ry < y

theorem IsBelow.paintRow (h : e.IsBelow row) :
    e.paintRow v ⌊value e.ry⌋ color c row = .ok c := by
  obtain ⟨y, hy, hbelow⟩ := h
  exact bind_ok hy (if_pos hbelow)

theorem paintRow_of_not_below {y : Float} (hy : e.rowHeight whole row = .ok y)
    (hbelow : ¬ e.ry < y) :
    e.paintRow v whole color c row = e.rowLine v y >>= fun shape => c.paint ⟨shape, color⟩ := by
  simp only [paintRow]
  rw [hy]
  exact if_neg hbelow

/-- What is read of a row that has a height. -/
theorem rows_cons {y : Float} (hy : e.rowHeight whole row = .ok y) (rest : List ℤ) :
    rows v e whole color (row :: rest) =
      if e.ry < y then pure ()
      else liftM (e.rowLine v y) >>= fun shape =>
        Journal.enter (.paint ⟨shape, color⟩) >>= fun _ => rows v e whole color rest := by
  simp only [rows]
  rw [hy]
  rfl

theorem foldlM_of_isBelow (h : ∀ row ∈ l, e.IsBelow row) :
    l.foldlM (e.paintRow v ⌊value e.ry⌋ color) c = .ok c := by
  induction l with
  | nil => rfl
  | cons row rest ih =>
    rw [List.foldlM_cons]
    exact bind_ok (h row List.mem_cons_self).paintRow
      (ih fun r hr => h r (List.mem_cons_of_mem _ hr))

/-- **Rows are painted one after the other,** if below a row below the ellipse there are only
such rows.  Where the reading stops, nothing is left to paint. -/
theorem paintReading_rows (hsorted : l.Pairwise fun a b => e.IsBelow a → e.IsBelow b) :
    Scene.paintReading c (rows v e ⌊value e.ry⌋ color l) =
      l.foldlM (e.paintRow v ⌊value e.ry⌋ color) c := by
  induction l generalizing c with
  | nil => rfl
  | cons row rest ih =>
    obtain ⟨hfirst, hrest⟩ := List.pairwise_cons.mp hsorted
    rw [List.foldlM_cons]
    cases hy : e.rowHeight ⌊value e.ry⌋ row with
    | error fault =>
      simp only [rows, paintRow]
      rw [hy]
      rfl
    | ok y =>
      rw [rows_cons hy]
      split
      · rename_i hbelow
        have hrow : e.IsBelow row := ⟨y, hy, hbelow⟩
        rw [hrow.paintRow]
        exact (foldlM_of_isBelow fun r hr => hfirst r hr hrow).symm
      · rename_i hbelow
        rw [paintRow_of_not_below hy hbelow, bind_assoc, Scene.paintReading_lift]
        congr 1
        funext shape
        rw [Scene.paintReading_enter]
        congr 1
        funext c'
        exact ih hrest

/-- After a row below the ellipse nothing is read any more. -/
theorem rows_append (h : ∃ row ∈ l, e.IsBelow row) (more : List ℤ) :
    rows v e ⌊value e.ry⌋ color (l ++ more) = rows v e ⌊value e.ry⌋ color l := by
  induction l with
  | nil =>
    obtain ⟨row, hrow, -⟩ := h
    cases hrow
  | cons row rest ih =>
    rw [List.cons_append]
    cases hy : e.rowHeight ⌊value e.ry⌋ row with
    | error fault =>
      simp only [rows]
      rw [hy]
      rfl
    | ok y =>
      rw [rows_cons hy, rows_cons hy]
      split
      · rfl
      · rename_i hbelow
        have hlater : ∃ r ∈ rest, e.IsBelow r := by
          obtain ⟨r, hr, hr'⟩ := h
          rcases List.mem_cons.mp hr with rfl | hr
          · obtain ⟨y', hy', hlt⟩ := hr'
            cases hy.symm.trans hy'
            exact absurd hlt hbelow
          · exact ⟨r, hr, hr'⟩
        rw [ih hlater]

/-! ## 3. Rows below the ellipse -/

/-- Below a row below the ellipse there are only such rows. -/
theorem IsBelow.mono {more : ℤ} (he : e.Proper) (h : e.IsBelow row) (hle : row ≤ more)
    (hlow : |((row - ⌊value e.ry⌋ : ℤ) : ℚ)| < overflow)
    (hhigh : |((more - ⌊value e.ry⌋ : ℤ) : ℚ)| < overflow) : e.IsBelow more := by
  obtain ⟨y, hy, hfinite, hvalue⟩ := rowHeight_spec he hlow
  obtain ⟨y', hy', hfinite', hvalue'⟩ := rowHeight_spec he hhigh
  obtain ⟨z, hz, hbelow⟩ := h
  cases hy.symm.trans hz
  refine ⟨y', hy', ?_⟩
  rw [lt_iff he.finite_ry hfinite] at hbelow
  rw [lt_iff he.finite_ry hfinite', hvalue']
  refine lt_of_lt_of_le hbelow ?_
  rw [hvalue]
  refine rounded_mono (sub_le_sub_right (rounded_mono ?_) _)
  exact_mod_cast sub_le_sub_right hle _

/-- From the top of an ellipse on rows are not too far from its center, up to one that is not. -/
theorem abs_row_sub_lt_overflow {first stop : ℤ} (hlow : 0 ≤ first)
    (hhigh : ((stop - ⌊value e.ry⌋ : ℤ) : ℚ) < overflow) (hrow : row ∈ Canvas.interval first stop) :
    |((row - ⌊value e.ry⌋ : ℤ) : ℚ)| < overflow := by
  obtain ⟨hr, hr'⟩ := Canvas.mem_interval.mp hrow
  have hwhole : |((⌊value e.ry⌋ : ℤ) : ℚ)| < overflow := by
    have := abs_floor_lt e.ry (k := 0) (by norm_num)
    rwa [add_zero] at this
  have hleast : (-⌊value e.ry⌋ : ℚ) ≤ (row - ⌊value e.ry⌋ : ℤ) := by
    exact_mod_cast (by omega : -⌊value e.ry⌋ ≤ row - ⌊value e.ry⌋)
  have hgreatest : ((row - ⌊value e.ry⌋ : ℤ) : ℚ) ≤ (stop - ⌊value e.ry⌋ : ℤ) := by
    exact_mod_cast (by omega : row - ⌊value e.ry⌋ ≤ stop - ⌊value e.ry⌋)
  rw [abs_lt] at hwhole ⊢
  constructor <;> linarith

/-- So the rows of an interval are painted one after the other. -/
theorem paintReading_interval (he : e.Proper) {first stop : ℤ} (hlow : 0 ≤ first)
    (hhigh : ((stop - ⌊value e.ry⌋ : ℤ) : ℚ) < overflow) :
    Scene.paintReading c (rows v e ⌊value e.ry⌋ color (Canvas.interval first stop)) =
      (Canvas.interval first stop).foldlM (e.paintRow v ⌊value e.ry⌋ color) c := by
  refine paintReading_rows ((Canvas.interval_pairwise first stop).imp_of_mem ?_)
  intro a b ha hb hlt hbelow
  exact hbelow.mono he hlt.le (abs_row_sub_lt_overflow hlow hhigh ha)
    (abs_row_sub_lt_overflow hlow hhigh hb)

/-- The rows of a moderate ellipse end with the one after the last. -/
theorem isBelow_of_moderate (he : e.Proper) (hm : e.IsModerate) :
    e.IsBelow (2 * ⌊value e.ry⌋ + 2) := by
  have hfloor : 0 ≤ ⌊value e.ry⌋ := Int.floor_nonneg.mpr he.ry_nonneg
  have hfloor' := hm.floor_ry_le
  obtain ⟨y, hy, hfinite, hvalue⟩ := rowHeight_of_moderate he hm (by omega) le_rfl
  refine ⟨y, hy, ?_⟩
  rw [lt_iff he.finite_ry hfinite, hvalue]
  have hlt := Int.lt_floor_add_one (value e.ry)
  have hbinary : IsBinary ((⌊value e.ry⌋ + 1 : ℤ) : ℚ) :=
    isBinary_intCast (abs_le.mpr ⟨by omega, by omega⟩)
  have hnext : ((⌊value e.ry⌋ + 1 : ℤ) : ℚ) ≤ ((2 * ⌊value e.ry⌋ + 2 : ℤ) : ℚ) - value e.ry := by
    push_cast
    linarith
  have := le_rounded hbinary hnext
  push_cast at this
  push_cast
  linarith

/-! ## 4. Rows that are not seen -/

/-- **A row that cannot reach the device paints nothing.** -/
theorem eq_of_paintRow_hidden (hv : v.IsSound) (he : e.Proper) (hm : e.IsModerate)
    {first last : ℤ} (hrows : e.visibleRows v ⌊value e.ry⌋ = .ok (first, last)) (hlow : 0 ≤ row)
    (hhigh : row ≤ 2 * ⌊value e.ry⌋ + 2) (hhidden : row < first ∨ last < row)
    (hheight : (c.height : ℤ) = v.height)
    (h : e.paintRow v ⌊value e.ry⌋ color c row = .ok d) : d = c := by
  by_cases hbelow : e.IsBelow row
  · rw [hbelow.paintRow] at h
    cases h
    rfl
  obtain ⟨y, hy, -⟩ := rowHeight_of_moderate he hm hlow hhigh
  have hrow : row ≤ 2 * ⌊value e.ry⌋ + 1 := by
    rcases eq_or_lt_of_le hhigh with rfl | hlt
    · exact absurd (isBelow_of_moderate he hm) hbelow
    · omega
  rw [paintRow_of_not_below hy fun hlt => hbelow ⟨y, hy, hlt⟩] at h
  obtain ⟨shape, hshape, hpaint⟩ := of_bind_ok h
  obtain ⟨a, b, z, rfl, ha, hb, hz, hscale⟩ := of_rowLine hshape
  have hoff : ∀ n, z = .whole n → ¬ (0 ≤ n ∧ n < (c.height : ℤ)) := by
    rintro n rfl ⟨hn, hn'⟩
    rw [hheight] at hn'
    have := visibleRows_cover hv he hm hrows hlow hrow hy hscale hn hn'
    omega
  have hpixels : Raster.pixels Raster.enoughHalvings c.width c.height (a, z) (b, z) = .ok [] :=
    Raster.pixels_of_level ha hb hz hoff
  rw [Raster.paint_beside hpixels fun p hp => absurd hp List.not_mem_nil] at hpaint
  cases hpaint
  rfl

/-- Painting a row keeps the size of the canvas. -/
theorem size_paintRow (h : e.paintRow v whole color c row = .ok d) :
    d.width = c.width ∧ d.height = c.height := by
  obtain ⟨y, hy, h⟩ := of_bind_ok h
  split at h
  · cases h
    exact ⟨rfl, rfl⟩
  · obtain ⟨shape, -, h⟩ := of_bind_ok h
    exact Canvas.size_paintWith _ h

/-- **Rows that are not seen can be left out.** -/
theorem eq_of_foldlM_hidden (hv : v.IsSound) (he : e.Proper) (hm : e.IsModerate)
    {first last : ℤ} (hrows : e.visibleRows v ⌊value e.ry⌋ = .ok (first, last))
    (hl : ∀ row ∈ l, 0 ≤ row ∧ row ≤ 2 * ⌊value e.ry⌋ + 2 ∧ (row < first ∨ last < row))
    (hheight : (c.height : ℤ) = v.height)
    (h : l.foldlM (e.paintRow v ⌊value e.ry⌋ color) c = .ok d) : d = c := by
  induction l with
  | nil =>
    cases h
    rfl
  | cons row rest ih =>
    rw [List.foldlM_cons] at h
    obtain ⟨c', hc', h⟩ := of_bind_ok h
    obtain ⟨hlow, hhigh, hhidden⟩ := hl row List.mem_cons_self
    cases eq_of_paintRow_hidden hv he hm hrows hlow hhigh hhidden hheight hc'
    exact ih (fun r hr => hl r (List.mem_cons_of_mem _ hr)) h

theorem size_foldlM (h : l.foldlM (e.paintRow v whole color) c = .ok d) :
    d.width = c.width ∧ d.height = c.height := by
  induction l generalizing c with
  | nil =>
    cases h
    exact ⟨rfl, rfl⟩
  | cons row rest ih =>
    rw [List.foldlM_cons] at h
    obtain ⟨c', hc', h⟩ := of_bind_ok h
    obtain ⟨hwidth, hheight⟩ := size_paintRow hc'
    obtain ⟨hwidth', hheight'⟩ := ih h
    exact ⟨hwidth'.trans hwidth, hheight'.trans hheight⟩

/-! ## 5. Rows that are seen -/

/-- The row of an ellipse whose line is known. -/
theorem paintRow_of_line {y : Float} {start stop : Point} {pixels : List Pixel}
    (hy : e.rowHeight whole row = .ok y) (hbelow : ¬ e.ry < y)
    (hline : e.rowLine v y = .ok (.line start stop))
    (hpixels : Raster.pixels Raster.enoughHalvings c.width c.height start stop = .ok pixels)
    (hcolor : 0 ≤ color ∧ color ≤ 255) :
    ∃ d, e.paintRow v whole color c row = .ok d ∧ d.width = c.width ∧ d.height = c.height ∧
      ∀ p, d.get p =
        if p ∈ pixels ∧ c.holds p = true then color.toNat.toUInt8 else c.get p := by
  rw [paintRow_of_not_below hy hbelow]
  obtain ⟨d, hd, hrest⟩ := Raster.paint_pixels hpixels hcolor.1 hcolor.2
  exact ⟨d, bind_ok hline hd, hrest⟩

/-- **Every row can be painted,** if the ellipse is not too flat, and leaves each pixel or gives it
the color. -/
theorem paintRow_ok (hv : v.IsSound) (he : e.Proper) (hflat : ¬ e.HasFlatSquare)
    (hcolor : 0 ≤ color ∧ color ≤ 255) (hwidth : (c.width : ℤ) = v.width)
    (hheight : (c.height : ℤ) = v.height)
    (hrow : |((row - ⌊value e.ry⌋ : ℤ) : ℚ)| < overflow) :
    ∃ d, e.paintRow v ⌊value e.ry⌋ color c row = .ok d ∧ d.width = c.width ∧
      d.height = c.height ∧ ∀ p, d.get p = c.get p ∨ d.get p = color.toNat.toUInt8 := by
  obtain ⟨y, hy, -⟩ := rowHeight_spec he hrow
  by_cases hbelow : e.ry < y
  · exact ⟨c, IsBelow.paintRow ⟨y, hy, hbelow⟩, rfl, rfl, fun p => Or.inl rfl⟩
  obtain ⟨shape, hshape⟩ := (rowLine_ok_iff hv y).mpr hflat
  obtain ⟨a, b, z, rfl, ha, hb, hz, -⟩ := of_rowLine hshape
  have hstart : Raster.Convertible (a, z) := ⟨ha.isConvertible, hz.isConvertible⟩
  have hstop : Raster.Convertible (b, z) := ⟨hb.isConvertible, hz.isConvertible⟩
  obtain ⟨pixels, hpixels⟩ := Raster.pixels_ok Raster.enoughHalvings
    (Raster.abs_le_greatestSide hv.width_pos hv.width_le)
    (Raster.abs_le_greatestSide hv.height_pos hv.height_le) hstart hstop
  rw [← hwidth, ← hheight] at hpixels
  obtain ⟨d, hd, hdw, hdh, hget⟩ := paintRow_of_line hy hbelow hshape hpixels hcolor
  refine ⟨d, hd, hdw, hdh, fun p => ?_⟩
  rw [hget p]
  split
  · exact Or.inr rfl
  · exact Or.inl rfl

/-- So can all of them. -/
theorem foldlM_ok (hv : v.IsSound) (he : e.Proper) (hflat : ¬ e.HasFlatSquare)
    (hcolor : 0 ≤ color ∧ color ≤ 255) (hwidth : (c.width : ℤ) = v.width)
    (hheight : (c.height : ℤ) = v.height)
    (hl : ∀ row ∈ l, |((row - ⌊value e.ry⌋ : ℤ) : ℚ)| < overflow) :
    ∃ d, l.foldlM (e.paintRow v ⌊value e.ry⌋ color) c = .ok d ∧
      ∀ p, d.get p = c.get p ∨ d.get p = color.toNat.toUInt8 := by
  induction l generalizing c with
  | nil => exact ⟨c, rfl, fun p => Or.inl rfl⟩
  | cons row rest ih =>
    obtain ⟨c', hc', hw, hh, hget⟩ :=
      paintRow_ok hv he hflat hcolor hwidth hheight (hl row List.mem_cons_self)
    obtain ⟨d, hd, hget'⟩ := ih (by rw [hw, hwidth]) (by rw [hh, hheight]) fun r hr =>
      hl r (List.mem_cons_of_mem _ hr)
    refine ⟨d, bind_ok hc' hd, fun p => ?_⟩
    rcases hget' p with h | h
    · rw [h]
      exact hget p
    · exact Or.inr h

/-- A pixel on the line of a row of the ellipse. -/
def IsOnRow (v : Viewport) (e : Ellipse) (row : ℤ) (p : Pixel) : Prop :=
  ∃ y start stop pixels, e.rowHeight ⌊value e.ry⌋ row = .ok y ∧ ¬ e.ry < y ∧
    e.rowLine v y = .ok (.line start stop) ∧
    Raster.pixels Raster.enoughHalvings v.width v.height start stop = .ok pixels ∧ p ∈ pixels

/-- **A pixel on the line of a row has the color** once all rows are painted. -/
theorem foldlM_paints (hv : v.IsSound) (he : e.Proper) (hflat : ¬ e.HasFlatSquare)
    (hcolor : 0 ≤ color ∧ color ≤ 255) (hwidth : (c.width : ℤ) = v.width)
    (hheight : (c.height : ℤ) = v.height)
    (hl : ∀ row ∈ l, |((row - ⌊value e.ry⌋ : ℤ) : ℚ)| < overflow) (hrow : row ∈ l)
    {p : Pixel} (hp : e.IsOnRow v row p) (hholds : c.holds p = true) :
    ∃ d, l.foldlM (e.paintRow v ⌊value e.ry⌋ color) c = .ok d ∧
      d.get p = color.toNat.toUInt8 := by
  obtain ⟨y, start, stop, pixels, hy, hbelow, hline, hpixels, hp⟩ := hp
  obtain ⟨above, below, rfl⟩ := List.append_of_mem hrow
  obtain ⟨c₁, hc₁, -⟩ := foldlM_ok hv he hflat hcolor hwidth hheight fun r hr =>
    hl r (List.mem_append_left _ hr)
  obtain ⟨hw₁, hh₁⟩ := size_foldlM hc₁
  rw [← hwidth, ← hheight, ← hw₁, ← hh₁] at hpixels
  obtain ⟨c₂, hc₂, hw₂, hh₂, hget₂⟩ := paintRow_of_line hy hbelow hline hpixels hcolor
  obtain ⟨d, hd, hget⟩ := foldlM_ok (c := c₂) hv he hflat hcolor (by rw [hw₂, hw₁, hwidth])
    (by rw [hh₂, hh₁, hheight]) fun r hr =>
      hl r (List.mem_append_right _ (List.mem_cons_of_mem _ hr))
  refine ⟨d, ?_, ?_⟩
  · rw [List.foldlM_append]
    exact bind_ok hc₁ (by rw [List.foldlM_cons]; exact bind_ok hc₂ hd)
  · have hpainted : c₂.get p = color.toNat.toUInt8 := by
      rw [hget₂ p, if_pos ⟨hp, (Canvas.holds_congr hw₁ hh₁ p).trans hholds⟩]
    rcases hget p with h | h
    · rw [h, hpainted]
    · exact h

/-- Every row of an ellipse from its top on, up to a given one.  Rows below the ellipse are not
read. -/
def everyRow (v : Viewport) (e : Ellipse) (color stop : ℤ) : Journal Act Unit :=
  rows v e ⌊value e.ry⌋ color (Canvas.interval 0 stop)

/-- So every row is painted, as far as they are read. -/
theorem everyRow_paints (hv : v.IsSound) (he : e.Proper) (hflat : ¬ e.HasFlatSquare)
    (hcolor : 0 ≤ color ∧ color ≤ 255) (hwidth : (c.width : ℤ) = v.width)
    (hheight : (c.height : ℤ) = v.height) {stop : ℤ}
    (hstop : ((stop - ⌊value e.ry⌋ : ℤ) : ℚ) < overflow) (hlow : 0 ≤ row) (hrow : row < stop)
    {p : Pixel} (hp : e.IsOnRow v row p) (hholds : c.holds p = true) :
    ∃ d, Scene.paintReading c (everyRow v e color stop) = .ok d ∧
      d.get p = color.toNat.toUInt8 := by
  rw [everyRow, paintReading_interval he le_rfl hstop]
  exact foldlM_paints hv he hflat hcolor hwidth hheight
    (fun r hr => abs_row_sub_lt_overflow le_rfl hstop hr)
    (Canvas.mem_interval.mpr ⟨hlow, hrow⟩) hp hholds

/-! ## 6. The whole ellipse -/

/-- **The rows that are visited paint what all rows paint.** -/
theorem foldlM_visible (hv : v.IsSound) (he : e.Proper) (hm : e.IsModerate)
    {first last : ℤ} (hrows : e.visibleRows v ⌊value e.ry⌋ = .ok (first, last))
    (hheight : (c.height : ℤ) = v.height)
    (h : (Canvas.interval 0 (2 * ⌊value e.ry⌋ + 3)).foldlM
      (e.paintRow v ⌊value e.ry⌋ color) c = .ok d) :
    (Canvas.interval first (last + 1)).foldlM (e.paintRow v ⌊value e.ry⌋ color) c = .ok d := by
  have hfloor : 0 ≤ ⌊value e.ry⌋ := Int.floor_nonneg.mpr he.ry_nonneg
  obtain ⟨first', last', hrows', hfirst, hlast⟩ := visibleRows_spec hv he hfloor
  cases hrows.symm.trans hrows'
  rcases le_or_gt first (last + 1) with hle | hgt
  · rw [Canvas.interval_append hfirst (by omega : first ≤ 2 * ⌊value e.ry⌋ + 3),
      Canvas.interval_append hle (by omega : last + 1 ≤ 2 * ⌊value e.ry⌋ + 3),
      List.foldlM_append] at h
    obtain ⟨above, habove, hrest⟩ := of_bind_ok h
    rw [List.foldlM_append] at hrest
    obtain ⟨shown, hshown, hbelow⟩ := of_bind_ok hrest
    cases eq_of_foldlM_hidden hv he hm hrows (fun r hr => by
      have := Canvas.mem_interval.mp hr
      omega) hheight habove
    cases eq_of_foldlM_hidden hv he hm hrows (fun r hr => by
      have := Canvas.mem_interval.mp hr
      omega) ((congrArg Nat.cast (size_foldlM hshown).2).trans hheight) hbelow
    exact hshown
  · rw [Canvas.interval_eq_nil hgt.le]
    cases eq_of_foldlM_hidden hv he hm hrows (fun r hr => by
      have := Canvas.mem_interval.mp hr
      omega) hheight h
    rfl

/-- The acts of an ellipse are the rows that can reach the device. -/
theorem acts_eq (hproper : e.isProper = true) {first last : ℤ}
    (hrows : e.visibleRows v ⌊value e.ry⌋ = .ok (first, last)) :
    acts v e color = rows v e ⌊value e.ry⌋ color (Canvas.interval first (last + 1)) := by
  simp only [acts]
  rw [if_pos hproper, floor_ry (isProper_iff.mp hproper)]
  change (liftM (e.visibleRows v ⌊value e.ry⌋) >>= _ : Journal Act Unit) = _
  rw [hrows]
  rfl

/-- The reading of all rows ends before a given one. -/
def EndsBefore (e : Ellipse) (stop : ℤ) : Prop := ∃ row, 0 ≤ row ∧ row < stop ∧ e.IsBelow row

theorem endsBefore_of_moderate (he : e.Proper) (hm : e.IsModerate) :
    e.EndsBefore (2 * ⌊value e.ry⌋ + 3) := by
  have hfloor : 0 ≤ ⌊value e.ry⌋ := Int.floor_nonneg.mpr he.ry_nonneg
  exact ⟨_, by omega, by omega, isBelow_of_moderate he hm⟩

/-- Where the reading has ended, it does not matter up to which row it was to go. -/
theorem everyRow_congr {stop stop' : ℤ} (h : e.EndsBefore stop) (h' : e.EndsBefore stop') :
    everyRow v e color stop = everyRow v e color stop' := by
  suffices hle : ∀ {m n : ℤ}, e.EndsBefore m → m ≤ n →
      everyRow v e color n = everyRow v e color m by
    rcases le_total stop stop' with hss | hss
    · exact (hle h hss).symm
    · exact hle h' hss
  rintro m n ⟨row, hlow, hrow, hbelow⟩ hmn
  simp only [everyRow]
  rw [Canvas.interval_append (by omega) hmn,
    rows_append ⟨row, Canvas.mem_interval.mpr ⟨hlow, hrow⟩, hbelow⟩]

/-- **Leaving out rows changes nothing.**  The acts of a moderate ellipse paint what every row of
it paints, from the top on until a row lies below the ellipse. -/
theorem paintReading_acts (hv : v.IsSound) (hproper : e.isProper = true) (hm : e.IsModerate)
    (hheight : (c.height : ℤ) = v.height) {stop : ℤ} (hend : e.EndsBefore stop)
    (hall : Scene.paintReading c (everyRow v e color stop) = .ok d) :
    Scene.paintReading c (acts v e color) = .ok d := by
  have he := isProper_iff.mp hproper
  have hfloor : 0 ≤ ⌊value e.ry⌋ := Int.floor_nonneg.mpr he.ry_nonneg
  obtain ⟨first, last, hrows, hfirst, hlast⟩ := visibleRows_spec hv he hfloor
  have hrange : ∀ {n : ℤ}, n ≤ 2 * ⌊value e.ry⌋ + 3 →
      ((n - ⌊value e.ry⌋ : ℤ) : ℚ) < overflow := by
    intro n hhigh
    have hfloor' := hm.floor_ry_le
    have hle : ((n - ⌊value e.ry⌋ : ℤ) : ℚ) ≤ (2 ^ 53 : ℤ) := by
      exact_mod_cast (by omega : n - ⌊value e.ry⌋ ≤ 2 ^ 53)
    exact hle.trans_lt (lt_of_abs_lt (lt_overflow (by norm_num)))
  rw [everyRow_congr hend (endsBefore_of_moderate he hm), everyRow,
    paintReading_interval he le_rfl (hrange le_rfl)] at hall
  rw [acts_eq hproper hrows, paintReading_interval he hfirst (hrange (by omega))]
  exact foldlM_visible hv he hm hrows hheight hall

/-- A device of four rows and columns, seen in pixels. -/
def tile : Viewport := ⟨4, 4, 4.0, 4.0⟩

/-- An ellipse whose upper and lower rows are off that device. -/
def upright : Ellipse := ⟨2.0, 1.0, 1.0, 10.0⟩

/-- The rows of `upright` from the eighth to the fifteenth are visited, and paint what all its rows
paint. -/
theorem paintReading_acts_upright :
    tile.IsSound ∧ upright.isProper = true ∧ upright.IsModerate ∧ upright.EndsBefore 22 ∧
    ∃ d, Scene.paintReading (Canvas.blank 4 4) (everyRow tile upright 3 22) = .ok d ∧
      Scene.paintReading (Canvas.blank 4 4) (acts tile upright 3) = .ok d ∧
      d.get (2, 0) = 3 := by
  have hv : tile.IsSound :=
    Viewport.isSound_of_isUsable (by decide) (by decide) (by decide +kernel) (by decide +kernel)
  have hproper : upright.isProper = true := by decide +kernel
  have he := isProper_iff.mp hproper
  have hwhole : ⌊value upright.ry⌋ = 10 := floor_ry_eq he (by decide +kernel)
  have hm : upright.IsModerate := by
    constructor
    · change |value 1.0| ≤ 2 ^ 48
      rw [value_one]
      norm_num
    · have := Int.lt_floor_add_one (value upright.ry)
      rw [hwhole] at this
      norm_num at this ⊢
      linarith
  have hend : upright.EndsBefore 22 :=
    ⟨21, by decide, by decide, 11.0, by rw [hwhole]; decide +kernel, by decide +kernel⟩
  have hrow : upright.IsOnRow tile 9 (2, 0) :=
    ⟨-1.0, (.whole 1, .whole 0), (.whole 3, .whole 0), [(1, 0), (2, 0), (3, 0)],
      by rw [hwhole]; decide +kernel, by decide +kernel, by decide +kernel, by decide +kernel,
      by decide⟩
  have hstop : ((22 - ⌊value upright.ry⌋ : ℤ) : ℚ) < overflow := by
    rw [hwhole]
    exact lt_of_abs_lt (lt_overflow (by norm_num))
  have hall : ∃ d, Scene.paintReading (Canvas.blank 4 4) (everyRow tile upright 3 22) = .ok d ∧
      d.get (2, 0) = 3 :=
    everyRow_paints hv he (fun h => absurd h.2 (by decide +kernel)) (by decide) rfl rfl hstop
      (by decide) (by decide) hrow (by decide)
  obtain ⟨d, hd, hpainted⟩ := hall
  exact ⟨hv, hproper, hm, hend, d, hd, paintReading_acts hv hproper hm rfl hend hd, hpainted⟩

/-- A device of the standard size, seen in pixels. -/
def screen : Viewport := ⟨160, 120, 160.0, 120.0⟩

/-- An ellipse so high that a row more or less is lost in its radius. -/
def towering : Ellipse := ⟨20.0, 20.0, 5.0, 1e20⟩

/-- **Of a towering ellipse rows are left out that do land on the device.**  All rows together
paint the upper edge of the canvas, and the acts of the ellipse paint the row of the center only. -/
theorem paintReading_acts_not_exact :
    screen.IsSound ∧ towering.isProper = true ∧
    ∃ stop, towering.EndsBefore stop ∧ ∃ d d',
      Scene.paintReading (Canvas.blank 160 120) (everyRow screen towering 15 stop) = .ok d ∧
      Scene.paintReading (Canvas.blank 160 120) (acts screen towering 15) = .ok d' ∧
      d.get (20, 0) = 15 ∧ d'.get (20, 0) = 0 := by
  have hv : screen.IsSound :=
    Viewport.isSound_of_isUsable (by decide) (by decide) (by decide +kernel) (by decide +kernel)
  have hproper : towering.isProper = true := by decide +kernel
  have he := isProper_iff.mp hproper
  have hwhole : ⌊value towering.ry⌋ = 10 ^ 20 := floor_ry_eq he (by decide +kernel)
  -- Floats of this size are `2 ^ 14` apart, so the rows go on beyond the lower end by as much.
  have hend : towering.EndsBefore (2 * 10 ^ 20 + 2 ^ 14 + 1) :=
    ⟨2 * 10 ^ 20 + 2 ^ 14, by decide, by decide, 1.00000000000000016384e20,
      by rw [hwhole]; decide +kernel, by decide +kernel⟩
  have hrow : towering.IsOnRow screen (10 ^ 20 - 20) (20, 0) :=
    ⟨-20.0, (.whole 15, .whole 0), (.whole 25, .whole 0), Canvas.box 15 0 26 1,
      by rw [hwhole]; decide +kernel, by decide +kernel, by decide +kernel, by decide +kernel,
      by decide⟩
  have hstop : ((2 * 10 ^ 20 + 2 ^ 14 + 1 - ⌊value towering.ry⌋ : ℤ) : ℚ) < overflow := by
    rw [hwhole]
    refine lt_trans ?_ (two_zpow_lt_overflow (e := 70) (by norm_num))
    norm_num
  have hall : ∃ d, Scene.paintReading (Canvas.blank 160 120)
      (everyRow screen towering 15 (2 * 10 ^ 20 + 2 ^ 14 + 1)) = .ok d ∧ d.get (20, 0) = 15 :=
    everyRow_paints hv he (fun h => absurd h.2 (by decide +kernel)) (by decide) rfl rfl hstop
      (by decide) (by decide) hrow (by decide)
  obtain ⟨d, hd, hpainted⟩ := hall
  have hvisible : towering.visibleRows screen ⌊value towering.ry⌋ = .ok (10 ^ 20, 10 ^ 20) := by
    rw [hwhole]
    decide +kernel
  have hline : towering.rowLine screen 0.0 =
      .ok (.line (.whole 15, .whole 20) (.whole 25, .whole 20)) := by decide +kernel
  have hpixels : Raster.pixels Raster.enoughHalvings (Canvas.blank 160 120).width
      (Canvas.blank 160 120).height (.whole 15, .whole 20) (.whole 25, .whole 20) =
      .ok (Canvas.box 15 20 26 21) := by decide +kernel
  have hcenter : towering.rowHeight (10 ^ 20) (10 ^ 20) = .ok 0.0 := by decide +kernel
  have hshown : ∃ d', towering.paintRow screen (10 ^ 20) 15 (Canvas.blank 160 120) (10 ^ 20) =
      .ok d' ∧ d'.get (20, 0) = 0 := by
    obtain ⟨d', hd', -, -, hget⟩ := paintRow_of_line hcenter (by decide +kernel) hline hpixels
      (by decide : (0 : ℤ) ≤ 15 ∧ (15 : ℤ) ≤ 255)
    exact ⟨d', hd', by rw [hget, if_neg (by decide), Canvas.get_blank]⟩
  obtain ⟨d', hd', hblank⟩ := hshown
  have hnear : ((10 ^ 20 + 1 - ⌊value towering.ry⌋ : ℤ) : ℚ) < overflow := by
    rw [hwhole]
    exact lt_of_abs_lt (lt_overflow (by norm_num))
  refine ⟨hv, hproper, _, hend, d, d', hd, ?_, hpainted, hblank⟩
  rw [acts_eq hproper hvisible, paintReading_interval he (by decide) hnear, hwhole,
    Canvas.interval_cons (by decide), Canvas.interval_eq_nil le_rfl]
  exact bind_ok hd' rfl

end Ellipse

end VectorPaint
