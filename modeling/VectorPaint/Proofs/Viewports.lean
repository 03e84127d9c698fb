/-
# Viewports keep the order

A coordinate is carried across by a product, a quotient and a rounding, all of them in floats.  A
product can leave the range of the floats and a quotient by a tiny side can do so again, and then
the coordinate becomes an infinity of the device.  Still the order of two coordinates is kept
(`scale_mono`): floats that are rounded or leave the range keep the order they had
(`Number.IsAtMost`), and an infinity of the device is on the outer side of every whole number.

All that is needed of a viewport is that the device and the view box have finite positive sides.
Every text that is read for a rendering, be it the text itself or the inside of a group at any
depth (`Scene.Opens`), is read through such a viewport: `viewports_keep_order`.
-/
import VectorPaint.Proofs.Faults
import VectorPaint.Proofs.Gaps
import VectorPaint.Proofs.RowBounds
import VectorPaint.Proofs.Float.Monotone

namespace VectorPaint

open Number
open Float.Model.UnpackedFloat (Sign)

/-! ## 1. Coordinates of the device -/

namespace Coord

variable {a b : Coord} {x y : Float}

/-- What the device has for coordinates: whole numbers and the two infinities. -/
def IsPlace : Coord → Prop
  | .whole _ => True
  | .real x => ∃ s, x.toModel.unpack = .infinity s

theorem IsPlace.isNaN (h : a.IsPlace) : a.isNaN = false := by
  cases a with
  | whole n => rfl
  | real x =>
    obtain ⟨s, hs⟩ := h
    exact not_isNaN_of_unpack hs rfl

/-- An infinity is at most itself. -/
theorem real_le_real_of_infinity {s : Sign} (hx : x.toModel.unpack = .infinity s)
    (hy : y.toModel.unpack = .infinity s) : (real x).le (real y) = true := by
  have horder : ¬ x < y ∧ ¬ y < x ∧ (x == y) = true := by
    rw [lt_iff_compare, lt_iff_compare, beq_iff_compare, hx, hy]
    cases s <;> decide
  simp only [le, compare?, Number.compare?]
  rw [if_neg horder.1, if_neg horder.2.1, if_pos horder.2.2]
  rfl

/-- The lower infinity is at most everything. -/
theorem real_le_of_lower (hx : x.toModel.unpack = .infinity .negative) (hb : b.IsPlace) :
    (real x).le b = true := by
  cases b with
  | whole n =>
    simp only [le, compare?]
    rw [compareWhole?_of_infinity hx]
    rfl
  | real y =>
    obtain ⟨s, hy⟩ := hb
    cases s with
    | negative => exact real_le_real_of_infinity hx hy
    | positive =>
      have hless : x < y := by
        rw [lt_iff_compare, hx, hy]
        rfl
      simp only [le, compare?, Number.compare?]
      rw [if_pos hless]
      rfl

/-- Everything is at most the upper infinity. -/
theorem le_real_of_upper (hy : y.toModel.unpack = .infinity .positive) (ha : a.IsPlace) :
    a.le (real y) = true := by
  cases a with
  | whole n =>
    simp only [le, compare?]
    rw [compareWhole?_of_infinity hy]
    rfl
  | real x =>
    obtain ⟨s, hx⟩ := ha
    cases s with
    | negative => exact real_le_of_lower hx ⟨_, hy⟩
    | positive => exact real_le_real_of_infinity hx hy

/-- Rounding leaves an infinity what it is. -/
theorem roundHalfUp_of_infinity {s : Sign} (hx : x.toModel.unpack = .infinity s) :
    roundHalfUp x = .real x := by
  have hinfinite : ¬ (x + 0.5).isFinite := by
    intro hsum
    have hsum' : (x + 0.5).toModel.unpack.isFinite := hsum
    rw [unpack_add_infinity hx isFinite_half] at hsum'
    cases hsum'
  rw [roundHalfUp, scaled?_of_not_isFinite hinfinite]

/-- A number is rounded to a place of the device. -/
theorem isPlace_roundHalfUp (hx : x.isNaN = false) : (roundHalfUp x).IsPlace := by
  by_cases hfinite : x.isFinite
  · obtain ⟨n, hn⟩ := roundHalfUp_of_isFinite hfinite
    rw [hn]
    trivial
  · obtain ⟨s, hs⟩ := unpack_eq_infinity hx hfinite
    rw [roundHalfUp_of_infinity hs]
    exact ⟨s, hs⟩

/-- **Rounding to the device keeps the order.** -/
theorem roundHalfUp_mono (hx : x.isNaN = false) (hy : y.isNaN = false) (h : IsAtMost x y) :
    (roundHalfUp x).le (roundHalfUp y) = true := by
  -- An infinity is beyond every place, and between floats both the sum and the floor are monotone.
  rcases h with hlow | hhigh | ⟨hxfinite, hyfinite, hle⟩
  · rw [roundHalfUp_of_infinity hlow]
    exact real_le_of_lower hlow (isPlace_roundHalfUp hy)
  · rw [roundHalfUp_of_infinity hhigh]
    exact le_real_of_upper hhigh (isPlace_roundHalfUp hx)
  · obtain ⟨m, hm⟩ := roundHalfUp_of_isFinite hxfinite
    obtain ⟨n, hn⟩ := roundHalfUp_of_isFinite hyfinite
    rw [hm, hn, whole_le_iff, (of_roundHalfUp_eq_whole hx hm).2, (of_roundHalfUp_eq_whole hy hn).2]
    exact Int.floor_le_floor (rounded_mono (by linarith))

end Coord

/-! ## 2. Carrying across -/

namespace Viewport

variable {v : Viewport} {side : ℤ} {viewSide x y : Float}

/-- A positive side of a device is a positive float. -/
theorem ofWhole_pos {s : Float} (hside : 0 < side) (hs : ofWhole side = .ok s) :
    s.isFinite ∧ 0 < value s := by
  have hconvertible : (Coord.whole side).IsFinite :=
    (Coord.isConvertible_iff (a := .whole side)).mpr ⟨s, hs⟩
  obtain ⟨s', hs', hfinite, hvalue⟩ := hconvertible.toFloat_ok
  cases hs.symm.trans hs'
  refine ⟨hfinite, hvalue ▸ ?_⟩
  have hone : ((1 : ℤ) : ℚ) ≤ side := by exact_mod_cast hside
  have := le_rounded (isBinary_intCast (n := 1) (by norm_num)) hone
  exact lt_of_lt_of_le (by norm_num) this

/-- What a float is carried across to. -/
theorem scale_real {s : Float} (hs : ofWhole side = .ok s) (hfinite : viewSide.isFinite)
    (hview : 0 < value viewSide) (x : Float) :
    scale side viewSide (.real x) = .ok (Coord.roundHalfUp (x * s / viewSide)) := by
  have hzero := not_beq_zero hfinite hview.ne' isFinite_zero value_zero
  exact bind_ok (Coord.real_mul hs) (bind_ok (Coord.divideBy_ok rfl hzero) rfl)

/-- **A number is carried across to a place of the device.** -/
theorem isPlace_of_scale (hside : 0 < side) (hfinite : viewSide.isFinite)
    (hview : 0 < value viewSide) (hx : x.isNaN = false) {a : Coord}
    (ha : scale side viewSide (.real x) = .ok a) : a.IsPlace := by
  have hs : ∃ s, ofWhole side = .ok s := by
    obtain ⟨_, hproduct, -⟩ := of_bind_ok ha
    obtain ⟨_, -, hproduct⟩ := of_bind_ok hproduct
    obtain ⟨s, hs, -⟩ := of_bind_ok hproduct
    exact ⟨s, hs⟩
  obtain ⟨s, hs⟩ := hs
  obtain ⟨hsfinite, hspos⟩ := ofWhole_pos hside hs
  rw [scale_real hs hfinite hview] at ha
  cases ha
  exact Coord.isPlace_roundHalfUp
    (not_isNaN_div_of_pos (not_isNaN_mul hx hsfinite hspos) hfinite hview)

/-- **Numbers in order are carried across in order.** -/
theorem scale_mono (hside : 0 < side) {s : Float} (hs : ofWhole side = .ok s)
    (hfinite : viewSide.isFinite) (hview : 0 < value viewSide) (hx : x.isFinite)
    (hy : y.isFinite) (hle : x ≤ y) :
    ∃ a b, scale side viewSide (.real x) = .ok a ∧ scale side viewSide (.real y) = .ok b ∧
      a.IsPlace ∧ b.IsPlace ∧ a.le b = true := by
  obtain ⟨hsfinite, hspos⟩ := ofWhole_pos hside hs
  have hnumber : ∀ {z : Float}, z.isFinite → (z * s / viewSide).isNaN = false := fun hz =>
    not_isNaN_div_of_pos (not_isNaN_mul (not_isNaN_of_isFinite hz) hsfinite hspos) hfinite hview
  have horder : IsAtMost x y := Or.inr (Or.inr ⟨hx, hy, (le_iff hx hy).mp hle⟩)
  exact ⟨_, _, scale_real hs hfinite hview x, scale_real hs hfinite hview y,
    Coord.isPlace_roundHalfUp (hnumber hx), Coord.isPlace_roundHalfUp (hnumber hy),
    Coord.roundHalfUp_mono (hnumber hx) (hnumber hy)
      ((horder.mul hsfinite hspos).div hfinite hview)⟩

end Viewport

/-! ## 3. The texts of a rendering -/

/-- A text is read for the rendering of another one: it is this one itself, or the inside of a
group that the reading comes to, at any depth. -/
def Scene.Opens (width height : ℤ) (source t : Text) : Prop :=
  t = source ∨ ∃ doc p, Reads width height source doc p .group ∧
    Element.groupBody? doc.text p = some t

/-- **Every viewport in use is safe and keeps the order.**  Each text that is read for a rendering
on a device of a moderate size, be it the text itself or the inside of a group, has a viewport, and
the view box of that has finite positive sides.  So every float is carried across without a fault,
as a coordinate on either axis and as a radius; and of two finite floats the lesser one is carried
across to a place that is not above that of the other, on either axis, where a place is a whole
number or an infinity. -/
theorem viewports_keep_order (source : Text) {width height : ℤ} (hw : 0 < width)
    (hw' : width ≤ 2 ^ 15) (hh : 0 < height) (hh' : height ≤ 2 ^ 15) :
    ∀ t, Scene.Opens width height source t →
      ∃ doc, (Document.ofText t width height).outcome = .ok doc ∧
        let v := doc.viewport
        (v.width = width ∧ v.height = height) ∧
        (v.viewWidth.isFinite ∧ 0.0 < v.viewWidth ∧ v.viewHeight.isFinite ∧ 0.0 < v.viewHeight) ∧
        (∀ x : Float, (∃ a, v.scaleX (.real x) = .ok a) ∧ (∃ a, v.scaleY (.real x) = .ok a) ∧
          ∃ r, v.scaleRadius (.real x) = .ok r) ∧
        ∀ x y : Float, x.isFinite → y.isFinite → x ≤ y →
          (∃ a b, v.scaleX (.real x) = .ok a ∧ v.scaleX (.real y) = .ok b ∧
            a.IsPlace ∧ b.IsPlace ∧ a.le b = true) ∧
          ∃ a b, v.scaleY (.real x) = .ok a ∧ v.scaleY (.real y) = .ok b ∧
            a.IsPlace ∧ b.IsPlace ∧ a.le b = true := by
  intro t _
  obtain ⟨doc, hdoc, hv, hwidth, hheight⟩ := Document.ofText_sound t hw hw' hh hh'
  have hpositive : ∀ {side : Float}, side.isFinite → 0 < value side → 0.0 < side := by
    intro side hfinite hpos
    rw [lt_iff isFinite_zero hfinite, value_zero]
    exact hpos
  refine ⟨doc, hdoc, ⟨hwidth, hheight⟩, ⟨hv.finite_viewWidth,
    hpositive hv.finite_viewWidth hv.viewWidth_pos, hv.finite_viewHeight,
    hpositive hv.finite_viewHeight hv.viewHeight_pos⟩, fun x => ?_, fun x y hx hy hle => ?_⟩
  · obtain ⟨a, ha, -⟩ := hv.scaleX_ok x
    obtain ⟨b, hb, -⟩ := hv.scaleY_ok x
    exact ⟨⟨a, ha⟩, ⟨b, hb⟩, hv.scaleRadius_ok x⟩
  · obtain ⟨s, hs, -⟩ := Viewport.ofWhole_side hv.width_pos hv.width_le
    obtain ⟨u, hu, -⟩ := Viewport.ofWhole_side hv.height_pos hv.height_le
    exact ⟨Viewport.scale_mono hv.width_pos hs hv.finite_viewWidth hv.viewWidth_pos hx hy hle,
      Viewport.scale_mono hv.height_pos hu hv.finite_viewHeight hv.viewHeight_pos hx hy hle⟩

/-- A text whose view box is so narrow that all but a few coordinates are carried across to an
infinity. -/
def narrowBox : Text := "<svg viewBox=\"0 0 1e-320 5\"/>".toList

/-- A group with a narrow view box, in a text with a wider one. -/
def boxInBox : Text := "<svg viewBox=\"0 0 8 8\"><g>".toList ++ narrowBox ++ "</g></svg>".toList

/-- A group with a narrow view box keeps the order, too. -/
theorem viewports_keep_order_narrowBox :
    Scene.Opens 4 4 boxInBox narrowBox ∧
    ∃ doc, (Document.ofText narrowBox 4 4).outcome = .ok doc ∧
      doc.viewport.viewWidth.isFinite ∧ 0.0 < doc.viewport.viewWidth ∧
      ∃ a b, doc.viewport.scaleX (.real 0.0) = .ok a ∧ doc.viewport.scaleX (.real 1.0) = .ok b ∧
        a.IsPlace ∧ b.IsPlace ∧ a.le b = true := by
  have hkeep := @viewports_keep_order boxInBox 4 4 (by decide) (by decide) (by decide) (by decide)
  obtain ⟨outer, houter, -⟩ := hkeep boxInBox (Or.inl rfl)
  have hopens : Scene.Opens 4 4 boxInBox narrowBox := by
    have htext : (Document.ofText boxInBox 4 4).outcome.toOption.map (·.text) = some boxInBox := by
      decide +kernel
    rw [houter] at htext
    have htext : outer.text = boxInBox := Option.some.inj htext
    refine Or.inr ⟨outer, 23, ⟨outer, houter, .here ?_⟩, ?_⟩
    · rw [htext]
      decide +kernel
    · rw [htext]
      decide +kernel
  obtain ⟨doc, hdoc, -, hbox, -, horder⟩ := hkeep narrowBox hopens
  exact ⟨hopens, doc, hdoc, hbox.1, hbox.2.1,
    (horder 0.0 1.0 (by decide +kernel) (by decide +kernel) (by decide +kernel)).1⟩

end VectorPaint
