/-
# Shapes that can be painted

The shapes that elements leave are made by rounding to the device, and lines may also end in
floats, so most of their numbers can be taken apart without a fault (`Shape.IsMade`).  Two kinds of
shapes are left that cannot be painted.

A disc is measured in machine words once its box meets the canvas, and its center need not fit one
(`Shape.IsRemote`).  The place of a text that is stacked is a whole number that grows with every
text, and a whole number can be too large for a float (`Shape.IsBuried`).

Every other shape covers some pixels of the canvas, or none: `Shape.coverage_ok_iff`.
-/
import VectorPaint.Proofs.Layer
import VectorPaint.Proofs.Lines

namespace VectorPaint

open Number

namespace Shape

/-! ## 1. Shapes that elements leave -/

/-- A shape as elements leave it. -/
def IsMade : Shape → Prop
  | .rect x y w h => x.IsSettled ∧ y.IsSettled ∧ w.IsSettled ∧ h.IsSettled
  | .disc x y r => x.IsSettled ∧ y.IsSettled ∧ r.IsSettled
  | .line start stop => Raster.Convertible start ∧ Raster.Convertible stop
  | .text _ x y _ => x.IsSettled ∧ (y.IsSettled ∨ ∃ n, y = .whole n)

/-- A whole number of a machine word. -/
def IsWord (n : ℤ) : Prop := -2 ^ 63 ≤ n ∧ n < 2 ^ 63

/-- A disc around a center that is no pair of machine words, in a box that meets the canvas. -/
def IsRemote (canvasWidth canvasHeight : ℤ) : Shape → Prop
  | .disc x y radius => ∃ cx cy r : ℤ, x = .whole cx ∧ y = .whole cy ∧ radius = .whole r ∧ 0 ≤ r ∧
      max 0 (cx - r) < min canvasWidth (cx + r + 1) ∧
      max 0 (cy - r) < min canvasHeight (cy + r + 1) ∧ ¬ (IsWord cx ∧ IsWord cy)
  | _ => False

/-- A text with letters whose place is a whole number beyond the range of the floats. -/
def IsBuried : Shape → Prop
  | .text content x y _ => content ≠ [] ∧ ∃ m n : ℤ, x = .whole m ∧ y = .whole n ∧
      overflow ≤ |(n : ℚ)|
  | _ => False

/-! ## 2. Rectangles and discs -/

theorem rectPixels_ok (w h : ℤ) {x y width height : Coord} (hx : x.IsSettled) (hy : y.IsSettled)
    (hwidth : width.IsSettled) (hheight : height.IsSettled) :
    ∃ r, rectPixels w h x y width height = .ok r := by
  have hconvertible : ∀ a ∈ [x, y, width, height], a.IsConvertible := by
    simp only [List.mem_cons, List.not_mem_nil, or_false]
    rintro a (rfl | rfl | rfl | rfl)
    exacts [hx.isConvertible, hy.isConvertible, hwidth.isConvertible, hheight.isConvertible]
  unfold rectPixels
  rcases Coord.allFinite_ok hconvertible with ⟨hfinite, -⟩ | ⟨hfinite, hall⟩
  · exact exists_bind_ok hfinite ⟨none, rfl⟩
  refine exists_bind_ok hfinite ?_
  obtain ⟨a, rfl, -⟩ := hx.eq_whole (hall x (by simp))
  obtain ⟨b, rfl, -⟩ := hy.eq_whole (hall y (by simp))
  obtain ⟨c, rfl, -⟩ := hwidth.eq_whole (hall width (by simp))
  obtain ⟨d, rfl, -⟩ := hheight.eq_whole (hall height (by simp))
  rw [if_neg (by decide)]
  split
  · exact ⟨none, rfl⟩
  · refine exists_bind_ok rfl (exists_bind_ok rfl (exists_bind_ok rfl (exists_bind_ok rfl
      (exists_bind_ok rfl (exists_bind_ok rfl ?_)))))
    dsimp only
    split
    · exact ⟨none, rfl⟩
    · exact ⟨_, rfl⟩

theorem fitsWord_iff {n : ℤ} : fitsWord n = true ↔ IsWord n := by
  simp only [fitsWord, wordOf, IsWord]
  rw [beq_iff_eq, Int.bmod_eq_iff (by decide), sub_self]
  norm_num

/-- A disc of whole numbers. -/
theorem discPixels_whole {w h cx cy r : ℤ}
    (hfinite : Coord.allFinite [.whole cx, .whole cy, .whole r] = .ok true) :
    discPixels w h (.whole cx) (.whole cy) (.whole r) =
      if (Coord.whole r).lt (.whole 0) = true then .ok none
      else if min w (cx + r + 1) ≤ max 0 (cx - r) ∨ min h (cy + r + 1) ≤ max 0 (cy - r) then
        .ok none
      else if (!(fitsWord cx && fitsWord cy)) = true then .error .wordTooLarge
      else .ok (some ((Canvas.box (max 0 (cx - r)) (max 0 (cy - r)) (min w (cx + r + 1))
        (min h (cy + r + 1))).filter fun p => squaredDistance (cx, cy) p ≤ r * r)) := by
  simp only [discPixels]
  rw [hfinite]
  rfl

/-- **A disc has pixels unless it is remote.** -/
theorem discPixels_ok_iff {w h : ℤ} {x y radius : Coord} (hx : x.IsSettled) (hy : y.IsSettled)
    (hradius : radius.IsSettled) :
    (∃ r, discPixels w h x y radius = .ok r) ↔ ¬ IsRemote w h (.disc x y radius) := by
  have hconvertible : ∀ a ∈ [x, y, radius], a.IsConvertible := by
    simp only [List.mem_cons, List.not_mem_nil, or_false]
    rintro a (rfl | rfl | rfl)
    exacts [hx.isConvertible, hy.isConvertible, hradius.isConvertible]
  rcases Coord.allFinite_ok hconvertible with ⟨hfinite, a, ha, hnot⟩ | ⟨hfinite, hall⟩
  · simp only [discPixels]
    refine iff_of_true (exists_bind_ok hfinite ⟨none, rfl⟩) ?_
    rintro ⟨cx, cy, r, rfl, rfl, rfl, -⟩
    simp only [List.mem_cons, List.not_mem_nil, or_false] at ha
    rcases ha with rfl | rfl | rfl
    exacts [hnot hx, hnot hy, hnot hradius]
  obtain ⟨cx, rfl, -⟩ := hx.eq_whole (hall x (by simp))
  obtain ⟨cy, rfl, -⟩ := hy.eq_whole (hall y (by simp))
  obtain ⟨r, rfl, -⟩ := hradius.eq_whole (hall radius (by simp))
  have hremote : IsRemote w h (.disc (.whole cx) (.whole cy) (.whole r)) ↔ 0 ≤ r ∧
      max 0 (cx - r) < min w (cx + r + 1) ∧ max 0 (cy - r) < min h (cy + r + 1) ∧
        ¬ (IsWord cx ∧ IsWord cy) := by
    constructor
    · rintro ⟨_, _, _, hx, hy, hr, hrest⟩
      cases hx
      cases hy
      cases hr
      exact hrest
    · intro hrest
      exact ⟨cx, cy, r, rfl, rfl, rfl, hrest⟩
  rw [hremote, discPixels_whole hfinite]
  by_cases hnegative : r < 0
  · rw [if_pos (Coord.whole_lt_iff.mpr hnegative)]
    exact iff_of_true ⟨none, rfl⟩ fun hrest => by omega
  rw [if_neg (Coord.whole_lt_iff.not.mpr hnegative)]
  by_cases hbox : min w (cx + r + 1) ≤ max 0 (cx - r) ∨ min h (cy + r + 1) ≤ max 0 (cy - r)
  · rw [if_pos hbox]
    exact iff_of_true ⟨none, rfl⟩ fun hrest => by omega
  rw [if_neg hbox]
  by_cases hfits : IsWord cx ∧ IsWord cy
  · rw [if_neg (by simp [fitsWord_iff.mpr hfits.1, fitsWord_iff.mpr hfits.2])]
    exact iff_of_true ⟨_, rfl⟩ fun hrest => hrest.2.2.2 hfits
  · have hunfit : (!(fitsWord cx && fitsWord cy)) = true := by
      rw [Bool.not_eq_true', ← Bool.not_eq_true, Bool.and_eq_true, fitsWord_iff, fitsWord_iff]
      exact hfits
    rw [if_pos hunfit]
    refine iff_of_false ?_ ?_
    · rintro ⟨_, hr⟩
      cases hr
    · intro hnot
      exact hnot ⟨by omega, by omega, by omega, hfits⟩

/-! ## 3. Letters -/

/-- Letters at a whole pixel within the range of the floats. -/
theorem glyphRun?_whole {w h m n : ℤ} {content : Text} (hcontent : content.isEmpty = false)
    (font : Font) (hfinite : Coord.allFinite [.whole m, .whole n] = .ok true) :
    glyphRun? w h content (.whole m) (.whole n) font =
      if ((Coord.whole w).le (.whole m) || (Coord.whole h).le (.whole n)) = true then .ok none
      else if (Coord.whole (n + reach font)).lt (.whole 0) = true then .ok none
      else if (Coord.whole (m + reach font * content.length)).lt (.whole 0) = true then .ok none
      else .ok (some ⟨content, m, n, font.charHeight⟩) := by
  simp only [glyphRun?]
  rw [hcontent, hfinite]
  rfl

/-- The place of a buried text cannot be asked whether it is finite. -/
theorem glyphRun?_of_isBuried {w h : ℤ} {content : Text} {x y : Coord} {font : Font}
    (hx : x.IsSettled) (hburied : IsBuried (.text content x y font)) :
    glyphRun? w h content x y font = .error .wholeTooLarge := by
  obtain ⟨hne, m, n, rfl, rfl, hlarge⟩ := hburied
  have hm : (Coord.whole m).IsFinite := hx
  have hfault : Coord.allFinite [.whole m, .whole n] = .error .wholeTooLarge := by
    rw [Coord.allFinite_cons, hm.isFinite_ok]
    change Coord.allFinite [.whole n] = _
    rw [Coord.allFinite_cons, Coord.isFinite_of_le hlarge]
    rfl
  have hcontent : content.isEmpty = false := List.isEmpty_eq_false_iff.mpr hne
  simp only [glyphRun?]
  rw [hcontent, hfault]
  rfl

/-- Letters that are not buried are at a place that can be asked whether it is finite. -/
theorem allFinite_of_not_isBuried {content : Text} {x y : Coord} {font : Font}
    (hx : x.IsSettled) (hy : y.IsSettled ∨ ∃ n, y = .whole n) (hne : content ≠ [])
    (hburied : ¬ IsBuried (.text content x y font)) :
    Coord.allFinite [x, y] = .ok false ∨
      Coord.allFinite [x, y] = .ok true ∧ ∃ m n, x = .whole m ∧ y = .whole n := by
  cases x with
  | real z =>
    refine Or.inl ?_
    rw [Coord.allFinite_cons, hx.isConvertible.isFinite_ok hx]
    rfl
  | whole m =>
    have hy' : y.IsConvertible := by
      rcases hy with hy | ⟨n, rfl⟩
      · exact hy.isConvertible
      · exact not_le.mp fun hlarge => hburied ⟨hne, m, n, rfl, rfl, hlarge⟩
    have hboth : ∀ a ∈ [.whole m, y], a.IsConvertible := by
      simp only [List.mem_cons, List.not_mem_nil, or_false]
      rintro a (rfl | rfl)
      exacts [hx.isConvertible, hy']
    rcases Coord.allFinite_ok hboth with ⟨hfinite, -⟩ | ⟨hfinite, hall⟩
    · exact Or.inl hfinite
    refine Or.inr ⟨hfinite, m, ?_⟩
    rcases hy with hy | ⟨n, hn⟩
    · obtain ⟨n, hn, -⟩ := hy.eq_whole (hall y (by simp))
      exact ⟨n, rfl, hn⟩
    · exact ⟨n, rfl, hn⟩

/-- **A text is a row of letters, or nothing, unless it is buried.** -/
theorem glyphRun?_ok_iff {w h : ℤ} {content : Text} {x y : Coord} {font : Font}
    (hx : x.IsSettled) (hy : y.IsSettled ∨ ∃ n, y = .whole n) :
    (∃ r, glyphRun? w h content x y font = .ok r) ↔ ¬ IsBuried (.text content x y font) := by
  by_cases hburied : IsBuried (.text content x y font)
  · refine iff_of_false ?_ (not_not.mpr hburied)
    rintro ⟨r, hr⟩
    rw [glyphRun?_of_isBuried hx hburied] at hr
    cases hr
  · refine iff_of_true ?_ hburied
    cases hcontent : content.isEmpty with
    | true =>
      refine ⟨none, ?_⟩
      simp only [glyphRun?]
      rw [hcontent]
      rfl
    | false =>
      have hne : content ≠ [] := List.isEmpty_eq_false_iff.mp hcontent
      rcases allFinite_of_not_isBuried hx hy hne hburied with hfinite | ⟨hfinite, m, n, rfl, rfl⟩
      · refine ⟨none, ?_⟩
        simp only [glyphRun?]
        rw [hcontent, hfinite]
        rfl
      · rw [glyphRun?_whole hcontent font hfinite]
        split
        · exact ⟨none, rfl⟩
        · split
          · exact ⟨none, rfl⟩
          · split
            · exact ⟨none, rfl⟩
            · exact ⟨_, rfl⟩

/-! ## 4. All shapes -/

variable {letters : Lettering} {canvasWidth canvasHeight : ℤ}

/-- **A shape as elements leave it covers some pixels or none,** unless it is a remote disc or a
buried text. -/
theorem coverageWith_ok_iff (hw : 0 < canvasWidth) (hw' : canvasWidth ≤ Viewport.longestSide)
    (hh : 0 < canvasHeight) (hh' : canvasHeight ≤ Viewport.longestSide) {s : Shape}
    (hs : s.IsMade) :
    (∃ r, s.coverageWith letters canvasWidth canvasHeight = .ok r) ↔
      ¬ s.IsRemote canvasWidth canvasHeight ∧ ¬ s.IsBuried := by
  cases s with
  | rect x y w h =>
    obtain ⟨hx, hy, hwidth, hheight⟩ := hs
    exact iff_of_true (rectPixels_ok _ _ hx hy hwidth hheight) ⟨not_false, not_false⟩
  | disc x y r =>
    obtain ⟨hx, hy, hr⟩ := hs
    exact (discPixels_ok_iff hx hy hr).trans (and_iff_left not_false).symm
  | line start stop =>
    obtain ⟨hstart, hstop⟩ := hs
    refine iff_of_true ?_ ⟨not_false, not_false⟩
    obtain ⟨l, hl⟩ := Raster.pixels_ok Raster.enoughHalvings (Raster.abs_le_greatestSide hw hw')
      (Raster.abs_le_greatestSide hh hh') hstart hstop
    exact exists_bind_ok hl ⟨_, rfl⟩
  | text content x y font =>
    obtain ⟨hx, hy⟩ := hs
    have hdisc : ¬ IsRemote canvasWidth canvasHeight (.text content x y font) := not_false
    rw [and_iff_right hdisc, ← glyphRun?_ok_iff (w := canvasWidth) (h := canvasHeight) hx hy]
    constructor
    · rintro ⟨r, hr⟩
      obtain ⟨run, hrun, -⟩ := of_bind_ok hr
      exact ⟨run, hrun⟩
    · rintro ⟨run, hrun⟩
      exact exists_bind_ok hrun ⟨_, rfl⟩

end Shape

/-! ## 5. The shapes of elements -/

/-- An act that paints a shape as elements leave it, if it paints. -/
def Act.IsMade : Act → Prop
  | .note _ => True
  | .paint p => p.shape.IsMade

/-- The line of a row is level, at the height that the row is carried across to. -/
theorem Ellipse.of_rowLine {v : Viewport} {e : Ellipse} {y : Float} {shape : Shape}
    (h : e.rowLine v y = .ok shape) :
    ∃ a b z : Coord, shape = .line (a, z) (b, z) ∧ a.IsSettled ∧ b.IsSettled ∧ z.IsSettled ∧
      v.scaleY (.real (e.cy + y)) = .ok z := by
  obtain ⟨ratio, -, h⟩ := of_bind_ok h
  obtain ⟨left, -, h⟩ := of_bind_ok h
  obtain ⟨a, ha, h⟩ := of_bind_ok h
  obtain ⟨z, hz, h⟩ := of_bind_ok h
  obtain ⟨right, -, h⟩ := of_bind_ok h
  obtain ⟨b, hb, h⟩ := of_bind_ok h
  obtain ⟨z', hz', h⟩ := of_bind_ok h
  cases hz.symm.trans hz'
  cases h
  exact ⟨a, b, z, rfl, Viewport.settled_of_scale ha, Viewport.settled_of_scale hb,
    Viewport.settled_of_scale hz, hz⟩

namespace Element

theorem number_made (tag name : Text) : (number tag name).All Act.IsMade := by
  simp only [number]
  rw [Journal.all_mapEntries]
  intro r _
  exact True.intro

theorem paint_made {shape : Shape} {color : Int} (h : shape.IsMade) :
    (paint shape color).All Act.IsMade := Journal.all_enter.mpr h

theorem lineBetween_made {v : Viewport} {x0 y0 x1 y1 : Float} {shape : Shape}
    (h : lineBetween v x0 y0 x1 y1 = .ok shape) : shape.IsMade := by
  obtain ⟨start, hstart, h⟩ := of_bind_ok h
  obtain ⟨stop, hstop, h⟩ := of_bind_ok h
  cases h
  obtain ⟨hx0, hy0⟩ := Viewport.settled_of_scalePoint hstart
  obtain ⟨hx1, hy1⟩ := Viewport.settled_of_scalePoint hstop
  exact ⟨⟨hx0.isConvertible, hy0.isConvertible⟩, ⟨hx1.isConvertible, hy1.isConvertible⟩⟩

theorem rect_made (v : Viewport) (tag : Text) : (rect v tag).All Act.IsMade := by
  simp only [rect]
  refine (number_made _ _).bind fun x _ => (number_made _ _).bind fun y _ =>
    (number_made _ _).bind fun w _ => (number_made _ _).bind fun h _ => ?_
  refine (Journal.all_lift _).bind fun _ hx => (Journal.all_lift _).bind fun _ hy =>
    (Journal.all_lift _).bind fun _ hw => (Journal.all_lift _).bind fun _ hh => ?_
  exact paint_made ⟨Viewport.settled_of_scale hx, Viewport.settled_of_scale hy,
    Viewport.settled_of_scale hw, Viewport.settled_of_scale hh⟩

theorem circle_made (v : Viewport) (tag : Text) : (circle v tag).All Act.IsMade := by
  simp only [circle]
  refine (number_made _ _).bind fun cx _ => (number_made _ _).bind fun cy _ =>
    (number_made _ _).bind fun r _ => ?_
  refine (Journal.all_lift _).bind fun _ _ => (Journal.all_lift _).bind fun _ hx =>
    (Journal.all_lift _).bind fun _ hy => ?_
  exact paint_made ⟨Viewport.settled_of_scale hx, Viewport.settled_of_scale hy,
    Coord.roundHalfUp_settled _⟩

theorem line_made (v : Viewport) (tag : Text) : (line v tag).All Act.IsMade := by
  simp only [line]
  refine (number_made _ _).bind fun x1 _ => (number_made _ _).bind fun y1 _ =>
    (number_made _ _).bind fun x2 _ => (number_made _ _).bind fun y2 _ => ?_
  exact (Journal.all_lift _).bind fun _ h => paint_made (lineBetween_made h)

theorem rowLine_made {v : Viewport} {e : Ellipse} {y : Float} {shape : Shape}
    (h : e.rowLine v y = .ok shape) : shape.IsMade := by
  obtain ⟨a, b, z, rfl, ha, hb, hz, -⟩ := Ellipse.of_rowLine h
  exact ⟨⟨ha.isConvertible, hz.isConvertible⟩, hb.isConvertible, hz.isConvertible⟩

theorem rows_made (v : Viewport) (e : Ellipse) (whole color : Int) (rows : List Int) :
    (Ellipse.rows v e whole color rows).All Act.IsMade := by
  induction rows with
  | nil => exact Journal.all_pure _
  | cons row rest ih =>
    simp only [Ellipse.rows]
    refine (Journal.all_lift _).bind ?_
    intro y _
    split
    · exact Journal.all_pure _
    · refine (Journal.all_lift _).bind ?_
      intro shape h
      exact (paint_made (rowLine_made h)).bind fun _ _ => ih

theorem ellipse_made (v : Viewport) (tag : Text) : (ellipse v tag).All Act.IsMade := by
  simp only [ellipse]
  refine (number_made _ _).bind fun cx _ => (number_made _ _).bind fun cy _ =>
    (number_made _ _).bind fun rx _ => (number_made _ _).bind fun ry _ => ?_
  simp only [Ellipse.acts]
  split
  · refine (Journal.all_lift _).bind fun whole _ => (Journal.all_lift _).bind ?_
    intro _ _
    exact rows_made _ _ _ _ _
  · exact Journal.all_pure _

theorem drawJoins_made (v : Viewport) (color : Int) (js : List Join) :
    (drawJoins v color js).All Act.IsMade := by
  induction js with
  | nil => exact Journal.all_pure _
  | cons j rest ih =>
    simp only [drawJoins]
    refine (Journal.all_lift _).bind ?_
    intro shape h
    exact (paint_made (lineBetween_made h)).bind fun _ _ => ih

/-- A text that is stacked stands at a whole number, any other where its numbers say. -/
theorem text_made (v : Viewport) (stacked : Int) (tag content : Text) :
    (text v stacked tag content).All Act.IsMade := by
  simp only [text]
  refine (number_made _ _).bind fun x _ => (Journal.all_lift _).bind fun _ hx =>
    (number_made _ _).bind fun y _ => (Journal.all_lift _).bind fun _ hy =>
    (number_made _ _).bind fun size _ => ?_
  refine Journal.All.bind (paint_made ⟨Viewport.settled_of_scale hx, ?_⟩) fun _ _ =>
    Journal.all_pure _
  split
  · exact Or.inr ⟨stacked, rfl⟩
  · exact Or.inl (Viewport.settled_of_scale hy)

end Element

end VectorPaint
