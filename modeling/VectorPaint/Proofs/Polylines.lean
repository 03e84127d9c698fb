/-
# Polylines stay open, and polygons are closed

The points of a polyline are written as a plain list of coordinates.  Two of them make a point, and
a coordinate at the end without a partner makes none (`corners`).  The lines of a polyline lead from
each point to the next one.  A coordinate without a partner leads to one line more, but this line
ends nowhere and has no pixels, so it cannot be seen (`exists_joins_eq`).

A polygon has one line in addition, which should lead from the last point back to the first one.
It starts from the last two coordinates.  These are the last point where every coordinate has a
partner.  Otherwise they are the second coordinate of the last point and the coordinate without a
partner (`closingJoin_eq`), so a comma at the end of the list is enough for the polygon to be left
open (`polygon_left_open`).
-/
import VectorPaint.Proofs.Viewports

namespace VectorPaint

open Number

namespace Element

open Curve (Nowhere Segment)

/-! ## 1. Points of a document -/

/-- A point of a document. -/
abbrev Corner := Float × Float

/-- The points of a list of coordinates.  A coordinate at the end without a partner is left out. -/
def corners : List Float → List Corner
  | x :: y :: rest => (x, y) :: corners rest
  | _ => []

/-- The coordinates of the points of a tag. -/
def coordinatesOf (tag : Text) : List Float :=
  coordinates (Markup.attributeText tag ['p', 'o', 'i', 'n', 't', 's'])

/-- The lines from each point to the next one. -/
def sides (ps : List Corner) : List (Corner × Corner) := ps.zip ps.tail

/-- The line between two points. -/
def joinOf (s : Corner × Corner) : Join := (s.1.1, s.1.2, s.2.1, s.2.2)

/-- The point has two numbers. -/
def Corner.isKnown (a : Corner) : Bool := !a.1.isNaN && !a.2.isNaN

theorem length_corners (c : List Float) : (corners c).length = c.length / 2 := by
  fun_induction corners c with
  | case1 x y rest ih =>
    rw [List.length_cons, ih, List.length_cons, List.length_cons]
    omega
  | case2 c hshort =>
    match c, hshort with
    | [], _ => rfl
    | [x], _ => simp
    | x :: y :: rest, hshort => exact absurd rfl (hshort x y rest)

/-- Two points take four coordinates. -/
theorem exists_of_two_corners {c : List Float} (h : 2 ≤ (corners c).length) :
    ∃ x0 y0 x1 y1 rest, c = x0 :: y0 :: x1 :: y1 :: rest := by
  rw [length_corners] at h
  match c, h with
  | x0 :: y0 :: x1 :: y1 :: rest, _ => exact ⟨x0, y0, x1, y1, rest, rfl⟩
  | [], h | [_], h | [_, _], h | [_, _, _], h => simp at h

/-- **The lines of a polyline lead from point to point.**  At most one line follows them, to a point
that lacks its second coordinate. -/
theorem exists_joins_eq (c : List Float) :
    ∃ extra : List Join, joins c = (sides (corners c)).map joinOf ++ extra ∧
      ∀ j ∈ extra, j.2.2.2.isNaN = true := by
  fun_induction joins c with
  | case1 x0 y0 x1 rest ih =>
    cases rest with
    | nil =>
      -- The coordinate without a partner is joined to the last point.
      refine ⟨[(x0, y0, x1, nan)], rfl, ?_⟩
      simp only [List.mem_singleton, forall_eq]
      decide +kernel
    | cons y1 rest =>
      obtain ⟨extra, hjoins, hextra⟩ := ih
      refine ⟨extra, ?_, hextra⟩
      rw [hjoins]
      rfl
  | case2 c hshort =>
    refine ⟨[], ?_, fun j hj => absurd hj List.not_mem_nil⟩
    match c, hshort with
    | [], _ => rfl
    | [x], _ => rfl
    | [x, y], _ => rfl
    | x :: y :: z :: rest, hshort => exact absurd rfl (hshort x y z rest)

/-- The last two coordinates are the last point, or its second coordinate and one without a
partner. -/
theorem exists_reverse_eq {c : List Float} {last : Corner}
    (hlast : (corners c).getLast? = some last) :
    ∃ rest, (c.length % 2 = 0 ∧ c.reverse = last.2 :: last.1 :: rest) ∨
      (c.length % 2 = 1 ∧ ∃ z, c.reverse = z :: last.2 :: last.1 :: rest) := by
  fun_induction corners c with
  | case1 x y rest ih =>
    cases hrest : corners rest with
    | nil =>
      -- This is the last point, and at most one coordinate follows it.
      have hlength := length_corners rest
      rw [hrest, List.length_nil] at hlength
      rw [hrest] at hlast
      cases hlast
      match rest, hlength with
      | [], _ => exact ⟨[], Or.inl ⟨by simp, rfl⟩⟩
      | [z], _ => exact ⟨[], Or.inr ⟨by simp, z, rfl⟩⟩
      | _ :: _ :: _, hlength =>
        simp only [List.length_cons] at hlength
        omega
    | cons a ps =>
      rw [hrest, List.getLast?_cons_cons, ← hrest] at hlast
      obtain ⟨front, ⟨hparity, hreverse⟩ | ⟨hparity, z, hreverse⟩⟩ := ih hlast
      · refine ⟨front ++ [y, x], Or.inl ⟨?_, ?_⟩⟩
        · rw [List.length_cons, List.length_cons]
          omega
        · simp [hreverse]
      · refine ⟨front ++ [y, x], Or.inr ⟨?_, z, ?_⟩⟩
        · rw [List.length_cons, List.length_cons]
          omega
        · simp [hreverse]
  | case2 c => cases hlast

/-- Where a polygon's last line starts: at the last point, unless a coordinate has no partner. -/
def IsClosingStart (c : List Float) (last a : Corner) : Prop :=
  (c.length % 2 = 0 → a = last) ∧
    (c.length % 2 = 1 → a.1 = last.2 ∧ c.getLast? = some a.2)

/-- **The last line of a polygon** leads to the first point. -/
theorem closingJoin_eq {c : List Float} {first last : Corner}
    (hfirst : (corners c).head? = some first) (hlast : (corners c).getLast? = some last)
    (htwo : 2 ≤ (corners c).length) :
    ∃ a, IsClosingStart c last a ∧ closingJoin c = [joinOf (a, first)] := by
  obtain ⟨front, hreverse⟩ := exists_reverse_eq hlast
  obtain ⟨x0, y0, x1, y1, rest, rfl⟩ := exists_of_two_corners htwo
  cases hfirst
  have hgetLast : (x0 :: y0 :: x1 :: y1 :: rest).getLast? =
      (x0 :: y0 :: x1 :: y1 :: rest).reverse.head? := List.getLast?_eq_head?_reverse
  rcases hreverse with ⟨hparity, hreverse⟩ | ⟨hparity, z, hreverse⟩
  · refine ⟨last, ⟨fun _ => rfl, fun hodd => by omega⟩, ?_⟩
    simp only [closingJoin]
    rw [hreverse]
    rfl
  · refine ⟨(last.2, z), ⟨fun heven => by omega, fun _ => ⟨rfl, ?_⟩⟩, ?_⟩
    · rw [hgetLast, hreverse]
      rfl
    · simp only [closingJoin]
      rw [hreverse]
      rfl

theorem closingJoin_of_short {c : List Float} (h : (corners c).length < 2) : closingJoin c = [] := by
  rw [length_corners] at h
  match c, h with
  | [], _ | [_], _ | [_, _], _ | [_, _, _], _ => rfl
  | _ :: _ :: _ :: _ :: _, h =>
    simp only [List.length_cons] at h
    omega

end Element

/-! ## 2. Lines on the device -/

namespace Curve

/-- All four coordinates of a line are numbers. -/
def Segment.isKnown (s : Segment) : Bool :=
  !s.start.1.isNaN && !s.start.2.isNaN && (!s.stop.1.isNaN && !s.stop.2.isNaN)

theorem Segment.isKnown_eq_false_iff {s : Segment} :
    s.isKnown = false ↔ Nowhere s.start ∨ Nowhere s.stop := by
  simp only [isKnown, Nowhere, Bool.and_eq_false_iff, Bool.not_eq_false']

end Curve

/-- The device and the view box have finite positive sides. -/
structure Viewport.HasPositiveSides (v : Viewport) : Prop where
  width_pos : 0 < v.width
  height_pos : 0 < v.height
  usable_viewWidth : isUsable v.viewWidth = true
  usable_viewHeight : isUsable v.viewHeight = true

/-- A coordinate that is carried across to no number was none. -/
theorem Viewport.isNaN_scale_iff {side : ℤ} {viewSide x : Float} {a : Coord} (hside : 0 < side)
    (husable : isUsable viewSide = true) (ha : scale side viewSide (.real x) = .ok a) :
    a.isNaN = x.isNaN := by
  obtain ⟨hfinite, hpos⟩ := isUsable_iff.mp husable
  cases hx : x.isNaN with
  | true => exact isNaN_of_scale (a := .real x) hx ha
  | false => exact (isPlace_of_scale hside hfinite hpos hx ha).isNaN

namespace Element

open Curve (Nowhere Segment)

variable {v : Viewport} {place : Corner → Point}

/-- The ends of a line between coordinates. -/
def endsOf (j : Join) : Corner × Corner := ((j.1, j.2.1), (j.2.2.1, j.2.2.2))

/-- A line carried across. -/
def segmentOf (place : Corner → Point) (s : Corner × Corner) : Segment :=
  ⟨place s.1, place s.2⟩

/-- A line in a color. -/
def stroked (color : ℤ) (s : Segment) : Act := .paint ⟨.line s.start s.stop, color⟩

/-- Every point can be carried across, and this is where it goes. -/
def Places (v : Viewport) (place : Corner → Point) : Prop :=
  ∀ a : Corner, v.scalePoint (.real a.1) (.real a.2) = .ok (place a)

/-- Lines are drawn one after the other. -/
theorem drawJoins_eq (hplace : Places v place) (color : ℤ) (js : List Join) :
    drawJoins v color js = ⟨(js.map fun j => segmentOf place (endsOf j)).map (stroked color),
      .ok ()⟩ := by
  induction js with
  | nil => rfl
  | cons j rest ih =>
    obtain ⟨x0, y0, x1, y1⟩ := j
    have hline : lineBetween v x0 y0 x1 y1 = .ok (.line (place (x0, y0)) (place (x1, y1))) :=
      bind_ok (hplace (x0, y0)) (bind_ok (hplace (x1, y1)) rfl)
    simp only [drawJoins]
    rw [hline, ih]
    rfl

theorem Places.isNaN_snd (hplace : Places v place) {a : Corner} (h : a.2.isNaN = true) :
    (place a).2.isNaN = true := by
  obtain ⟨x, -, hpoint⟩ := of_bind_ok (hplace a)
  obtain ⟨y, hy, hpoint⟩ := of_bind_ok hpoint
  rw [← Except.ok.inj hpoint]
  exact Viewport.isNaN_of_scale (a := .real a.2) h hy

/-- A line carried across is drawn where its ends are known, or not at all. -/
theorem Places.paint_unknown (hplace : Places v place) {s : Corner × Corner}
    (h : (segmentOf place s).isKnown = false) (canvas : Canvas) (color : ℤ) :
    canvas.paint ⟨.line (segmentOf place s).start (segmentOf place s).stop, color⟩ =
      .ok canvas := by
  have hsettled : ∀ a, Curve.Settled (place a) := fun a => Viewport.settled_of_scalePoint (hplace a)
  exact Canvas.paint_unknown ⟨(hsettled s.1).convertible, (hsettled s.2).convertible⟩
    (Segment.isKnown_eq_false_iff.mp h) canvas color

/-- With positive sides, a line carried across is known where its ends were. -/
theorem Places.isKnown_eq (hplace : Places v place) (hv : v.HasPositiveSides)
    (s : Corner × Corner) :
    (segmentOf place s).isKnown = (s.1.isKnown && s.2.isKnown) := by
  have hcorner : ∀ a, (place a).1.isNaN = a.1.isNaN ∧ (place a).2.isNaN = a.2.isNaN := by
    intro a
    obtain ⟨x, hx, hpoint⟩ := of_bind_ok (hplace a)
    obtain ⟨y, hy, hpoint⟩ := of_bind_ok hpoint
    rw [← Except.ok.inj hpoint]
    exact ⟨Viewport.isNaN_scale_iff hv.width_pos hv.usable_viewWidth hx,
      Viewport.isNaN_scale_iff hv.height_pos hv.usable_viewHeight hy⟩
  simp only [segmentOf, Segment.isKnown, Corner.isKnown]
  rw [(hcorner s.1).1, (hcorner s.1).2, (hcorner s.2).1, (hcorner s.2).2]

/-- The known lines through coordinates lead from point to point. -/
theorem Places.filter_joins (hplace : Places v place) (c : List Float) :
    ((joins c).map fun j => segmentOf place (endsOf j)).filter Segment.isKnown =
      ((sides (corners c)).map (segmentOf place)).filter Segment.isKnown := by
  obtain ⟨extra, hjoins, hextra⟩ := exists_joins_eq c
  have hunknown : (extra.map fun j => segmentOf place (endsOf j)).filter Segment.isKnown = [] := by
    rw [List.filter_eq_nil_iff]
    intro s hs
    obtain ⟨j, hj, rfl⟩ := List.mem_map.mp hs
    rw [Bool.not_eq_true, Segment.isKnown_eq_false_iff]
    exact Or.inr (Or.inr (hplace.isNaN_snd (a := (j.2.2.1, j.2.2.2)) (hextra j hj)))
  rw [hjoins, List.map_append, List.filter_append, hunknown, List.append_nil, List.map_map]
  rfl

theorem poly_polyline (v : Viewport) (tag : Text) :
    poly v false tag = drawJoins v (stroke tag) (joins (coordinatesOf tag)) := by
  change drawJoins v (stroke tag) (joins (coordinatesOf tag) ++ []) = _
  rw [List.append_nil]

theorem poly_polygon (v : Viewport) (tag : Text) :
    poly v true tag = drawJoins v (stroke tag)
      (joins (coordinatesOf tag) ++ closingJoin (coordinatesOf tag)) := rfl

/-- **Polylines lead from point to point, and what a polygon adds.**  Where points can be carried
across, the lines of a polyline that are known are those from each point of the list to the next
one, in order; with positive sides, these are the ones between points with two numbers.  A polygon
has the same lines and, from two points on, one more.  This leads to the first point, and it starts
at the last one where every coordinate has a partner.  No line that is not known is painted. -/
theorem poly_lines (hplace : Places v place) (tag : Text) :
    let c := coordinatesOf tag
    let ps := corners c
    ps.length = c.length / 2 ∧
    ∃ lines closing : List Segment,
      poly v false tag = ⟨lines.map (stroked (stroke tag)), .ok ()⟩ ∧
      poly v true tag = ⟨(lines ++ closing).map (stroked (stroke tag)), .ok ()⟩ ∧
      lines.filter Segment.isKnown =
        ((sides ps).map (segmentOf place)).filter Segment.isKnown ∧
      (v.HasPositiveSides → lines.filter Segment.isKnown =
        ((sides ps).filter fun s => s.1.isKnown && s.2.isKnown).map (segmentOf place)) ∧
      (∀ s ∈ lines ++ closing, s.isKnown = false → ∀ (canvas : Canvas) (color : ℤ),
        canvas.paint ⟨.line s.start s.stop, color⟩ = .ok canvas) ∧
      (ps.length < 2 → closing = []) ∧
      ∀ first last, ps.head? = some first → ps.getLast? = some last → 2 ≤ ps.length →
        ∃ a, IsClosingStart c last a ∧ closing = [segmentOf place (a, first)] := by
  intro c ps
  let across := fun j : Join => segmentOf place (endsOf j)
  have hknown : ((joins c).map across).filter Segment.isKnown =
      ((sides ps).map (segmentOf place)).filter Segment.isKnown := hplace.filter_joins c
  refine ⟨length_corners c, (joins c).map across, (closingJoin c).map across, ?_, ?_, hknown,
    fun hv => ?_, fun s hs hunknown => ?_, fun hshort => ?_, fun first last hfirst hlast htwo => ?_⟩
  · rw [poly_polyline]
    exact drawJoins_eq hplace _ _
  · rw [poly_polygon, ← List.map_append]
    exact drawJoins_eq hplace _ _
  · -- What is filtered by its ends on the device can be filtered by its ends in the document.
    rw [hknown, List.filter_map]
    congr 1
    exact List.filter_congr fun s _ => hplace.isKnown_eq hv s
  · rw [← List.map_append] at hs
    obtain ⟨j, -, rfl⟩ := List.mem_map.mp hs
    exact hplace.paint_unknown hunknown
  · rw [closingJoin_of_short hshort]
    rfl
  · obtain ⟨a, ha, hclosing⟩ := closingJoin_eq hfirst hlast htwo
    refine ⟨a, ha, ?_⟩
    rw [hclosing]
    rfl

/-- A sound viewport carries every point across. -/
theorem exists_places (hv : v.IsSound) : ∃ place, Places v place := by
  choose place hplace using fun a : Corner => hv.scalePoint_ok a.1 a.2
  exact ⟨place, fun a => (hplace a).1⟩

/-- A device of four by four pixels, and a view box of its size. -/
def squareView : Viewport := ⟨4, 4, 4.0, 4.0⟩

/-- A polygon with a word among its coordinates. -/
def brokenPolygon : Text := "<polygon points=\"0,0,3,0,x,3,3,3\"/>".toList

/-- The polygon loses the two lines at the word, and is closed. -/
theorem poly_lines_brokenPolygon :
    ∃ place, Places squareView place ∧ squareView.HasPositiveSides ∧
      ∃ lines : List Segment,
        lines.filter Segment.isKnown = [segmentOf place ((0.0, 0.0), (3.0, 0.0))] ∧
        poly squareView true brokenPolygon =
          ⟨(lines ++ [segmentOf place ((3.0, 3.0), (0.0, 0.0))]).map
            (stroked (stroke brokenPolygon)), .ok ()⟩ := by
  have hsides : squareView.HasPositiveSides :=
    ⟨by decide, by decide, by decide +kernel, by decide +kernel⟩
  obtain ⟨place, hplace⟩ := exists_places (v := squareView) (Viewport.isSound_of_isUsable
    (by decide) (by decide) hsides.usable_viewWidth hsides.usable_viewHeight)
  obtain ⟨-, lines, closing, -, hclosed, -, hknown, -, -, hclosing⟩ :=
    poly_lines hplace brokenPolygon
  obtain ⟨a, ha, rfl⟩ := hclosing (0.0, 0.0) (3.0, 3.0) (by decide +kernel) (by decide +kernel)
    (by decide +kernel)
  cases ha.1 (by decide +kernel)
  have hsides' : ((sides (corners (coordinatesOf brokenPolygon))).filter
      fun s => s.1.isKnown && s.2.isKnown) = [((0.0, 0.0), (3.0, 0.0))] := by
    decide +kernel
  refine ⟨place, hplace, hsides, lines, ?_, hclosed⟩
  rw [hknown hsides, hsides']
  rfl

/-- A triangle with a comma behind its last coordinate. -/
def commaPolygon : Text := "<polygon points=\"0,0,3,0,3,3,\"/>".toList

/-- A triangle with a number too many. -/
def oddPolygon : Text := "<polygon points=\"0,0,3,0,3,3,0\"/>".toList

/-- **Polygons may be left open.**  With a comma or a number too many, a triangle has no line from
its last point to its first one. -/
theorem polygon_left_open :
    (squareView.scalePoint (.real 3.0) (.real 3.0) = .ok (.whole 3, .whole 3) ∧
      squareView.scalePoint (.real 0.0) (.real 0.0) = .ok (.whole 0, .whole 0)) ∧
    (corners (coordinatesOf commaPolygon) = [(0.0, 0.0), (3.0, 0.0), (3.0, 3.0)] ∧
      stroked (stroke commaPolygon) ⟨(.whole 3, .whole 3), (.whole 0, .whole 0)⟩ ∉
        (poly squareView true commaPolygon).entries) ∧
    corners (coordinatesOf oddPolygon) = [(0.0, 0.0), (3.0, 0.0), (3.0, 3.0)] ∧
      stroked (stroke oddPolygon) ⟨(.whole 3, .whole 3), (.whole 0, .whole 0)⟩ ∉
        (poly squareView true oddPolygon).entries := by
  decide +kernel

end Element

end VectorPaint
