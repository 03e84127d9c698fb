/-
# Ends on the canvas stay where they are

A line is cut to the border of the canvas in floats, and each of its ends is moved only if the
parameter there is not 0, or not 1.  An end that lies on the canvas must not be moved, wherever the
other end is: it can be so far away that its coordinate, the extent of the line and all four
crossings are rounded.

Nothing of this depends on how the other end is rounded.  Seen from an edge, a line that starts on
the canvas has room inside of it, so it crosses the edge at a parameter that is not between 0 and
the end (`Span.within?_keeps_first`).  A line that ends on the canvas moves over an edge by no more
than the room that it starts with, also after both have been rounded, so the quotient of the two is
on the right side of 1 (`Span.within?_keeps_last`).  The quotients are finite because a line with an
end on the canvas has no extent or one of at least a pixel.

So both ends are kept by all four edges (`pixels_keep_ends`), and the walk between them starts and
stops with them (`inner_ends_painted`).
-/
import VectorPaint.Proofs.Bending

namespace VectorPaint.Raster

open Number

/-! ## 1. Edges that keep an end -/

/-- An edge in floats.  A line moves over it by at least one pixel, or not at all. -/
structure IsEdge (speed room : Float) : Prop where
  finite_speed : speed.isFinite
  finite_room : room.isFinite
  moves : value speed = 0 ∨ 1 ≤ |value speed|

section Edges

variable {s : Span} {speed room : Float}

/-- An edge is crossed at a finite parameter. -/
theorem IsEdge.crossing (h : IsEdge speed room) (hne : value speed ≠ 0) :
    (room / speed).isFinite ∧
      value (room / speed) = rounded (value room / value speed) := by
  have hone := h.moves.resolve_left hne
  refine (isNearest_div h.finite_room h.finite_speed hne).within ?_
  rw [abs_div]
  exact lt_of_le_of_lt (div_le_self (abs_nonneg _) hone) (abs_value_lt room)

/-- **A start with room inside of an edge is kept.** -/
theorem Span.within?_keeps_first (hs : s.IsInside) (hfirst : value s.first = 0)
    (he : IsEdge speed room) (hroom : 0 ≤ value room) :
    ∃ s', s.within? speed room = some s' ∧ s'.IsInside ∧ value s'.first = 0 := by
  suffices hsome : ∃ s', s.within? speed room = some s' ∧ value s'.first = 0 by
    obtain ⟨s', hs', hfirst'⟩ := hsome
    exact ⟨s', hs', hs.within hs', hfirst'⟩
  rcases lt_trichotomy (value speed) 0 with hneg | hzero | hpos
  · -- The line comes in over the edge, before it starts.
    obtain ⟨ht, hvalue⟩ := he.crossing hneg.ne
    have hle : value (room / speed) ≤ 0 := by
      rw [hvalue, ← rounded_zero]
      exact rounded_mono (div_nonpos_of_nonneg_of_nonpos hroom hneg.le)
    rw [Span.within?_of_neg he.finite_speed hneg, if_neg]
    · refine ⟨_, rfl, ?_⟩
      dsimp only
      rwa [if_neg]
      rw [lt_iff hs.finite_first ht, hfirst]
      exact hle.not_gt
    · rw [lt_iff hs.finite_last ht]
      exact (hle.trans hs.last_nonneg).not_gt
  · rw [Span.within?_of_zero he.finite_speed hzero, if_neg]
    · exact ⟨s, rfl, hfirst⟩
    · rw [lt_iff he.finite_room isFinite_zero, value_zero]
      exact hroom.not_gt
  · -- The line goes out over the edge, not before it starts.
    obtain ⟨ht, hvalue⟩ := he.crossing hpos.ne'
    have hle : 0 ≤ value (room / speed) := by
      rw [hvalue]
      exact rounded_nonneg (div_nonneg hroom hpos.le)
    rw [Span.within?_of_pos he.finite_speed hpos, if_neg]
    · exact ⟨_, rfl, hfirst⟩
    · rw [lt_iff ht hs.finite_first, hfirst]
      exact hle.not_gt

/-- **An end is kept by an edge that has room for the whole line.** -/
theorem Span.within?_keeps_last (hs : s.IsInside) (hlast : value s.last = 1)
    (he : IsEdge speed room) (hroom : value speed ≤ value room) :
    ∃ s', s.within? speed room = some s' ∧ s'.IsInside ∧ value s'.last = 1 := by
  suffices hsome : ∃ s', s.within? speed room = some s' ∧ value s'.last = 1 by
    obtain ⟨s', hs', hlast'⟩ := hsome
    exact ⟨s', hs', hs.within hs', hlast'⟩
  rcases lt_trichotomy (value speed) 0 with hneg | hzero | hpos
  · -- The line comes in over the edge, not after it ends.
    obtain ⟨ht, hvalue⟩ := he.crossing hneg.ne
    have hle : value (room / speed) ≤ 1 := by
      rw [hvalue, ← rounded_one]
      exact rounded_mono ((div_le_one_of_neg hneg).mpr hroom)
    rw [Span.within?_of_neg he.finite_speed hneg, if_neg]
    · exact ⟨_, rfl, hlast⟩
    · rw [lt_iff hs.finite_last ht, hlast]
      exact hle.not_gt
  · rw [Span.within?_of_zero he.finite_speed hzero, if_neg]
    · exact ⟨s, rfl, hlast⟩
    · rw [lt_iff he.finite_room isFinite_zero, value_zero]
      exact (hzero.ge.trans hroom).not_gt
  · -- The line goes out over the edge, after it ends.
    obtain ⟨ht, hvalue⟩ := he.crossing hpos.ne'
    have hle : 1 ≤ value (room / speed) := by
      rw [hvalue, ← rounded_one]
      exact rounded_mono ((one_le_div hpos).mpr hroom)
    rw [Span.within?_of_pos he.finite_speed hpos, if_neg]
    · refine ⟨_, rfl, ?_⟩
      dsimp only
      rwa [if_neg]
      rw [lt_iff ht hs.finite_last, hlast]
      exact hle.not_gt
    · rw [lt_iff ht hs.finite_first]
      exact (hs.first_le.trans hle).not_gt

end Edges

/-! ## 2. One axis -/

/-- A coordinate on a canvas side. -/
def OnSide (side n : ℤ) : Prop := 0 ≤ n ∧ n < side

/-- The two coordinates of a line on one axis and the canvas side, as floats. -/
structure IsAxis (side first last : ℤ) (w x x' : Float) : Prop where
  side_le : side ≤ 2 ^ 53
  finite_side : w.isFinite
  value_side : value w = side
  finite_first : x.isFinite
  value_first : value x = rounded first
  finite_last : x'.isFinite
  value_last : value x' = rounded last
  inner : OnSide side first ∨ OnSide side last

section Axis

variable {side first last m n : ℤ} {w x x' : Float}

/-- A coordinate on a canvas side is exact. -/
theorem OnSide.rounded_eq (h : OnSide side n) (hside : side ≤ 2 ^ 53) : rounded n = n := by
  obtain ⟨h1, h2⟩ := h
  exact rounded_intCast (abs_le.mpr ⟨by omega, by omega⟩)

/-- **Rounding keeps other coordinates a pixel away** from one on a canvas side. -/
theorem OnSide.apart (h : OnSide side n) (hside : side ≤ 2 ^ 53) (m : ℤ) :
    rounded m = n ∨ rounded m + 1 ≤ n ∨ (n : ℚ) + 1 ≤ rounded m := by
  obtain ⟨h1, h2⟩ := h
  rcases lt_trichotomy m n with hlt | rfl | hgt
  · refine Or.inr (Or.inl ?_)
    have hle : (m : ℚ) ≤ (n - 1 : ℤ) := by exact_mod_cast (by omega : m ≤ n - 1)
    have hround := rounded_le (isBinary_intCast (abs_le.mpr ⟨by omega, by omega⟩)) hle
    push_cast at hround
    linarith
  · exact Or.inl (OnSide.rounded_eq ⟨h1, h2⟩ hside)
  · refine Or.inr (Or.inr ?_)
    have hle : ((n + 1 : ℤ) : ℚ) ≤ m := by exact_mod_cast (by omega : n + 1 ≤ m)
    have hround := le_rounded (isBinary_intCast (abs_le.mpr ⟨by omega, by omega⟩)) hle
    push_cast at hround
    linarith

namespace IsAxis

/-- One of the two coordinates is of moderate size, and a pixel away from the other one. -/
theorem apart (h : IsAxis side first last w x x') :
    value x' = value x ∨ value x' + 1 ≤ value x ∨ value x + 1 ≤ value x' := by
  rw [h.value_first, h.value_last]
  rcases h.inner with hin | hin
  · rw [hin.rounded_eq h.side_le]
    exact hin.apart h.side_le last
  · rw [hin.rounded_eq h.side_le]
    rcases hin.apart h.side_le first with heq | hle | hle
    · exact Or.inl heq.symm
    · exact Or.inr (Or.inr hle)
    · exact Or.inr (Or.inl hle)

theorem abs_le_of_onSide (hside : side ≤ 2 ^ 53) (h : OnSide side n) :
    |rounded n| ≤ 2 ^ 53 := by
  obtain ⟨h1, h2⟩ := h
  rw [OnSide.rounded_eq ⟨h1, h2⟩ hside]
  exact_mod_cast (abs_le.mpr ⟨by omega, by omega⟩ : |n| ≤ 2 ^ 53)

/-- The extent is finite, since at most one of the coordinates is far away. -/
theorem extent (h : IsAxis side first last w x x') :
    (x' - x).isFinite ∧ value (x' - x) = rounded (value x' - value x) := by
  refine (isNearest_sub h.finite_last h.finite_first).within ?_
  rcases h.inner with hin | hin
  · rw [sub_eq_neg_add]
    refine abs_add_lt_overflow ?_ (abs_value_le x')
    rw [abs_neg, h.value_first]
    exact abs_le_of_onSide h.side_le hin
  · rw [sub_eq_add_neg]
    refine abs_add_lt_overflow ?_ ?_
    · rw [h.value_last]
      exact abs_le_of_onSide h.side_le hin
    · rw [abs_neg]
      exact abs_value_le x

theorem moves (h : IsAxis side first last w x x') :
    value (x' - x) = 0 ∨ 1 ≤ |value (x' - x)| := by
  rw [h.extent.2]
  rcases h.apart with heq | hle | hle
  · exact Or.inl (by rw [heq, sub_self, rounded_zero])
  · refine Or.inr ?_
    rw [abs_rounded, ← rounded_one]
    exact rounded_mono (le_abs.mpr (Or.inr (by linarith)))
  · refine Or.inr ?_
    rw [abs_rounded, ← rounded_one]
    exact rounded_mono (le_abs.mpr (Or.inl (by linarith)))

/-- The room before the first side. -/
theorem room_before (h : IsAxis side first last w x x') :
    (x + 1.0).isFinite ∧ value (x + 1.0) = rounded (value x + 1) := by
  have hnear := isNearest_add h.finite_first isFinite_one
  rw [value_one] at hnear
  refine hnear.within ?_
  rw [add_comm]
  exact abs_add_lt_overflow (by norm_num) (abs_value_le x)

/-- The room behind the last side. -/
theorem room_behind (h : IsAxis side first last w x x') :
    (w - x).isFinite ∧ value (w - x) = rounded (side - value x) := by
  have hnear := isNearest_sub h.finite_side h.finite_first
  rw [h.value_side] at hnear
  refine hnear.within ?_
  have hside : |(side : ℚ)| ≤ 2 ^ 53 := by
    have hpos : 0 < side := by
      rcases h.inner with ⟨h1, h2⟩ | ⟨h1, h2⟩ <;> omega
    rw [abs_of_pos (by exact_mod_cast hpos)]
    exact_mod_cast h.side_le
  rw [sub_eq_add_neg]
  refine abs_add_lt_overflow hside ?_
  rw [abs_neg]
  exact abs_value_le x

theorem isEdge_before (h : IsAxis side first last w x x') : IsEdge (-(x' - x)) (x + 1.0) where
  finite_speed := (isFinite_neg _).trans h.extent.1
  finite_room := h.room_before.1
  moves := by
    rw [value_neg, abs_neg, neg_eq_zero]
    exact h.moves

theorem isEdge_behind (h : IsAxis side first last w x x') : IsEdge (x' - x) (w - x) where
  finite_speed := h.extent.1
  finite_room := h.room_behind.1
  moves := h.moves

/-- A start on the canvas side has room on both sides. -/
theorem rooms_of_first (h : IsAxis side first last w x x') (hin : OnSide side first) :
    0 ≤ value (x + 1.0) ∧ 0 ≤ value (w - x) := by
  have h1 : (0 : ℚ) ≤ first := by exact_mod_cast hin.1
  have h2 : (first : ℚ) < side := by exact_mod_cast hin.2
  rw [h.room_before.2, h.room_behind.2, h.value_first, hin.rounded_eq h.side_le]
  exact ⟨rounded_nonneg (by linarith), rounded_nonneg (by linarith)⟩

/-- An end on the canvas side is reached with room left on both sides. -/
theorem rooms_of_last (h : IsAxis side first last w x x') (hin : OnSide side last) :
    value (-(x' - x)) ≤ value (x + 1.0) ∧ value (x' - x) ≤ value (w - x) := by
  have h1 : (0 : ℚ) ≤ last := by exact_mod_cast hin.1
  have h2 : (last : ℚ) < side := by exact_mod_cast hin.2
  have hlast : value x' = last := h.value_last.trans (hin.rounded_eq h.side_le)
  rw [value_neg, h.extent.2, h.room_before.2, h.room_behind.2, hlast, ← rounded_neg]
  exact ⟨rounded_mono (by linarith), rounded_mono (by linarith)⟩

/-- No point of the line is out of reach: the line starts near the canvas, or it leads back. -/
theorem reach (h : IsAxis side first last w x x') :
    |value x| ≤ 2 ^ 53 ∨ value x * value (x' - x) ≤ 0 := by
  rcases h.inner with hin | hin
  · refine Or.inl ?_
    rw [h.value_first]
    exact abs_le_of_onSide h.side_le hin
  have h1 : (0 : ℚ) ≤ last := by exact_mod_cast hin.1
  have h2 : (last : ℚ) < side := by exact_mod_cast hin.2
  have h3 : (side : ℚ) ≤ 2 ^ 53 := by exact_mod_cast h.side_le
  have hlast : value x' = last := h.value_last.trans (hin.rounded_eq h.side_le)
  rw [h.extent.2, hlast]
  rcases le_total (value x) 0 with hneg | hpos
  · exact Or.inr (mul_nonpos_of_nonpos_of_nonneg hneg (rounded_nonneg (by linarith)))
  rcases le_total (value x) last with hbefore | hbehind
  · exact Or.inl (abs_le.mpr ⟨by linarith, by linarith⟩)
  · refine Or.inr (mul_nonpos_of_nonneg_of_nonpos hpos ?_)
    rw [← rounded_zero]
    exact rounded_mono (by linarith)

theorem meets (h : IsAxis side first last w x x') : Meets side first last := by
  unfold Meets
  rcases h.inner with ⟨h1, h2⟩ | ⟨h1, h2⟩ <;> omega

end IsAxis

end Axis

/-! ## 3. The ends of a line -/

variable {width height : ℤ} {start stop : Pixel}

/-- What all four edges keep is kept by cutting. -/
theorem visible?_keeps {w h x y dx dy : Float} {Kept : Span → Prop} (hwhole : Kept ⟨0.0, 1.0⟩)
    (hleft : ∀ s, Kept s → ∃ s', s.within? (-dx) (x + 1.0) = some s' ∧ Kept s')
    (hright : ∀ s, Kept s → ∃ s', s.within? dx (w - x) = some s' ∧ Kept s')
    (htop : ∀ s, Kept s → ∃ s', s.within? (-dy) (y + 1.0) = some s' ∧ Kept s')
    (hbottom : ∀ s, Kept s → ∃ s', s.within? dy (h - y) = some s' ∧ Kept s') :
    ∃ s, visible? w h x y dx dy = some s ∧ Kept s := by
  obtain ⟨s₁, h₁, hkept₁⟩ := hleft _ hwhole
  obtain ⟨s₂, h₂, hkept₂⟩ := hright _ hkept₁
  obtain ⟨s₃, h₃, hkept₃⟩ := htop _ hkept₂
  obtain ⟨s₄, h₄, hkept₄⟩ := hbottom _ hkept₃
  refine ⟨s₄, ?_, hkept₄⟩
  simp only [visible?, Option.bind_eq_bind, h₁, h₂, h₃, h₄, Option.bind_some]

/-- The floats of a line with an end on the canvas. -/
structure IsLine (width height : ℤ) (start stop : Pixel) (w h x y x' y' : Float) : Prop where
  columns : IsAxis width start.1 stop.1 w x x'
  rows : IsAxis height start.2 stop.2 h y y'

/-- Where a pixel is on the canvas. -/
def OnCanvas (width height : ℤ) (p : Pixel) : Prop := OnSide width p.1 ∧ OnSide height p.2

section Line

variable {w h x y x' y' : Float}

/-- A start on the canvas is not cut off. -/
theorem IsLine.keeps_first (hl : IsLine width height start stop w h x y x' y')
    (hin : OnCanvas width height start) :
    ∃ s, visible? w h x y (x' - x) (y' - y) = some s ∧ s.IsInside ∧ value s.first = 0 := by
  obtain ⟨hleft, hright⟩ := hl.columns.rooms_of_first hin.1
  obtain ⟨htop, hbottom⟩ := hl.rows.rooms_of_first hin.2
  refine visible?_keeps ⟨Span.isInside_whole, value_zero⟩ ?_ ?_ ?_ ?_
  · exact fun s hs => Span.within?_keeps_first hs.1 hs.2 hl.columns.isEdge_before hleft
  · exact fun s hs => Span.within?_keeps_first hs.1 hs.2 hl.columns.isEdge_behind hright
  · exact fun s hs => Span.within?_keeps_first hs.1 hs.2 hl.rows.isEdge_before htop
  · exact fun s hs => Span.within?_keeps_first hs.1 hs.2 hl.rows.isEdge_behind hbottom

/-- An end on the canvas is not cut off. -/
theorem IsLine.keeps_last (hl : IsLine width height start stop w h x y x' y')
    (hin : OnCanvas width height stop) :
    ∃ s, visible? w h x y (x' - x) (y' - y) = some s ∧ s.IsInside ∧ value s.last = 1 := by
  obtain ⟨hleft, hright⟩ := hl.columns.rooms_of_last hin.1
  obtain ⟨htop, hbottom⟩ := hl.rows.rooms_of_last hin.2
  refine visible?_keeps ⟨Span.isInside_whole, value_one⟩ ?_ ?_ ?_ ?_
  · exact fun s hs => Span.within?_keeps_last hs.1 hs.2 hl.columns.isEdge_before hleft
  · exact fun s hs => Span.within?_keeps_last hs.1 hs.2 hl.columns.isEdge_behind hright
  · exact fun s hs => Span.within?_keeps_last hs.1 hs.2 hl.rows.isEdge_before htop
  · exact fun s hs => Span.within?_keeps_last hs.1 hs.2 hl.rows.isEdge_behind hbottom

/-- An end is a whole pixel, whether it is moved or not. -/
theorem IsLine.exists_end (hl : IsLine width height start stop w h x y x' y') {t : Float}
    (ht : t.isFinite) (hlow : 0 ≤ value t) (hhigh : value t ≤ 1) (p : Pixel) (moved : Prop)
    [Decidable moved] :
    ∃ q, (if moved then pointAt x y (x' - x) (y' - y) t else wholePoint p) = wholePoint q ∧
      (¬ moved → q = p) := by
  by_cases hmoved : moved
  · obtain ⟨m, hm⟩ := Coord.roundHalfUp_of_isFinite (isFinite_part hl.columns.finite_first
      hl.columns.extent.1 ht hlow hhigh
      (hl.columns.reach.imp_left lt_of_le_moderate))
    obtain ⟨n, hn⟩ := Coord.roundHalfUp_of_isFinite (isFinite_part hl.rows.finite_first
      hl.rows.extent.1 ht hlow hhigh
      (hl.rows.reach.imp_left lt_of_le_moderate))
    refine ⟨(m, n), ?_, fun hnot => absurd hmoved hnot⟩
    rw [if_pos hmoved]
    exact Prod.ext hm hn
  · exact ⟨p, if_neg hmoved, fun _ => rfl⟩

/-- **The ends of a line after cutting.**  An end that lies on the canvas is what it was. -/
theorem IsLine.ends (hl : IsLine width height start stop w h x y x' y')
    (hin : OnCanvas width height start ∨ OnCanvas width height stop) :
    ∃ s a b, visible? w h x y (x' - x) (y' - y) = some s ∧
      Raster.ends s (wholePoint start) (wholePoint stop) x y (x' - x) (y' - y) = .ok (a, b) ∧
      (OnCanvas width height start → a = start) ∧ (OnCanvas width height stop → b = stop) := by
  have hvisible : ∃ s, visible? w h x y (x' - x) (y' - y) = some s := by
    rcases hin with hin | hin
    · obtain ⟨s, hs, -⟩ := hl.keeps_first hin
      exact ⟨s, hs⟩
    · obtain ⟨s, hs, -⟩ := hl.keeps_last hin
      exact ⟨s, hs⟩
  obtain ⟨s, hs⟩ := hvisible
  have hinside := isInside_visible? hs
  obtain ⟨a, ha, hfirst⟩ := hl.exists_end hinside.finite_first hinside.first_nonneg
    hinside.first_le start (0.0 < s.first)
  obtain ⟨b, hb, hlast⟩ := hl.exists_end hinside.finite_last hinside.last_nonneg
    hinside.last_le stop (s.last < 1.0)
  refine ⟨s, a, b, hs, ?_, fun hin => hfirst ?_, fun hin => hlast ?_⟩
  · simp only [Raster.ends, ha, hb]
    rfl
  · obtain ⟨s', hs', -, hzero⟩ := hl.keeps_first hin
    cases hs.symm.trans hs'
    rw [lt_iff isFinite_zero hinside.finite_first, value_zero, hzero]
    exact lt_irrefl 0
  · obtain ⟨s', hs', -, hone⟩ := hl.keeps_last hin
    cases hs.symm.trans hs'
    rw [lt_iff hinside.finite_last isFinite_one, value_one, hone]
    exact lt_irrefl 1

end Line

/-- The floats of a line whose coordinates can become floats. -/
theorem exists_isLine (hwidth : width ≤ 2 ^ 53) (hheight : height ≤ 2 ^ 53)
    (hstart : Convertible (wholePoint start)) (hstop : Convertible (wholePoint stop))
    (hin : OnCanvas width height start ∨ OnCanvas width height stop) :
    ∃ w h x y x' y', IsLine width height start stop w h x y x' y' ∧ ofWhole width = .ok w ∧
      ofWhole height = .ok h ∧ ofWhole start.1 = .ok x ∧ ofWhole start.2 = .ok y ∧
      ofWhole stop.1 = .ok x' ∧ ofWhole stop.2 = .ok y' := by
  have hside : ∀ {side : ℤ}, side ≤ 2 ^ 53 → ∀ {m n : ℤ}, OnSide side m ∨ OnSide side n →
      |side| ≤ 2 ^ 53 := by
    rintro side hside m n (⟨h1, h2⟩ | ⟨h1, h2⟩) <;> exact abs_le.mpr ⟨by omega, by omega⟩
  have hcolumns : OnSide width start.1 ∨ OnSide width stop.1 := hin.imp And.left And.left
  have hrows : OnSide height start.2 ∨ OnSide height stop.2 := hin.imp And.right And.right
  obtain ⟨w, hw, hwfinite, hwvalue⟩ := Viewport.ofWhole_of_moderate (hside hwidth hcolumns)
  obtain ⟨h, hh, hhfinite, hhvalue⟩ := Viewport.ofWhole_of_moderate (hside hheight hrows)
  obtain ⟨x, hx, hxfinite, hxvalue⟩ := ofWhole_of_lt hstart.1
  obtain ⟨y, hy, hyfinite, hyvalue⟩ := ofWhole_of_lt hstart.2
  obtain ⟨x', hx', hxfinite', hxvalue'⟩ := ofWhole_of_lt hstop.1
  obtain ⟨y', hy', hyfinite', hyvalue'⟩ := ofWhole_of_lt hstop.2
  exact ⟨w, h, x, y, x', y',
    ⟨⟨hwidth, hwfinite, hwvalue, hxfinite, hxvalue, hxfinite', hxvalue', hcolumns⟩,
      ⟨hheight, hhfinite, hhvalue, hyfinite, hyvalue, hyfinite', hyvalue', hrows⟩⟩,
    hw, hh, hx, hy, hx', hy'⟩

/-- **A line is walked between its ends on the canvas,** if it has any. -/
theorem pixels_keep_ends (halvings : ℕ) (hwidth : width ≤ 2 ^ 53) (hheight : height ≤ 2 ^ 53)
    (hstart : Convertible (wholePoint start)) (hstop : Convertible (wholePoint stop))
    (hin : OnCanvas width height start ∨ OnCanvas width height stop) :
    ∃ a b, pixels halvings width height (wholePoint start) (wholePoint stop) =
        .ok (line a b) ∧
      (OnCanvas width height start → a = start) ∧ (OnCanvas width height stop → b = stop) := by
  obtain ⟨w, h, x, y, x', y', hl, hw, hh, hx, hy, hx', hy'⟩ :=
    exists_isLine hwidth hheight hstart hstop hin
  obtain ⟨s, a, b, hs, hends, hfirst, hlast⟩ := hl.ends hin
  have hfinite : Coord.allFinite [(wholePoint start).1, (wholePoint start).2, (wholePoint stop).1,
      (wholePoint stop).2] = .ok true := by
    have hall : ∀ {n : ℤ}, (Coord.whole n).IsConvertible → (Coord.whole n).isFinite = .ok true :=
      fun hn => Coord.IsFinite.isFinite_ok hn
    simp only [Coord.allFinite_cons, wholePoint, hall hstart.1, hall hstart.2, hall hstop.1,
      hall hstop.2]
    rfl
  have hmisses : ¬ (misses width (wholePoint start).1 (wholePoint stop).1 ||
      misses height (wholePoint start).2 (wholePoint stop).2) = true := by
    rw [Bool.or_eq_true]
    simp only [wholePoint, misses_iff]
    rintro (hmiss | hmiss)
    · exact hmiss hl.columns.meets
    · exact hmiss hl.rows.meets
  refine ⟨a, b, ?_, hfirst, hlast⟩
  rw [pixels_eq]
  refine bind_ok hfinite ?_
  rw [if_neg (by decide), if_neg hmisses]
  refine bind_ok hx (bind_ok hy (bind_ok hx' (bind_ok hy' ?_)))
  rw [if_pos (Bool.and_eq_true_iff.mpr ⟨hl.columns.extent.1, hl.rows.extent.1⟩)]
  refine bind_ok hw (bind_ok hh ?_)
  rw [hs]
  exact bind_ok hends rfl

/-! ## 4. On the canvas -/

/-- **The ends of a line on the canvas are painted,** wherever the other end is.  The canvas may
have sides up to `2 ^ 53`, and the coordinates may be any whole numbers within the range of the
floats. -/
theorem inner_ends_painted (c : Canvas) (hwidth : (c.width : ℤ) ≤ 2 ^ 53)
    (hheight : (c.height : ℤ) ≤ 2 ^ 53) (hstart : Convertible (wholePoint start))
    (hstop : Convertible (wholePoint stop)) {color : ℤ} (hcolor : 0 ≤ color)
    (hcolor' : color ≤ 255) (hin : c.holds start = true ∨ c.holds stop = true) :
    ∃ c', c.paint ⟨.line (wholePoint start) (wholePoint stop), color⟩ = .ok c' ∧
      c'.width = c.width ∧ c'.height = c.height ∧
      (c.holds start = true → c'.get start = color.toNat.toUInt8) ∧
      (c.holds stop = true → c'.get stop = color.toNat.toUInt8) := by
  have hon : ∀ p, c.holds p = true ↔ OnCanvas c.width c.height p := by
    intro p
    rw [Canvas.holds_iff, OnCanvas, OnSide, OnSide, and_assoc]
  obtain ⟨a, b, hpixels, hfirst, hlast⟩ := pixels_keep_ends enoughHalvings hwidth hheight hstart
    hstop (hin.imp (hon start).mp (hon stop).mp)
  obtain ⟨c', hc', hwidth', hheight', hget⟩ := paint_pixels hpixels hcolor hcolor'
  refine ⟨c', hc', hwidth', hheight', fun hholds => ?_, fun hholds => ?_⟩
  · have hmem : start ∈ line a b := by
      rw [hfirst ((hon start).mp hholds)]
      exact List.mem_of_mem_head? (head?_line start b)
    rw [hget, if_pos ⟨hmem, hholds⟩]
  · have hmem : stop ∈ line a b := by
      rw [hlast ((hon stop).mp hholds)]
      exact List.mem_of_getLast? (getLast?_line a stop)
    rw [hget, if_pos ⟨hmem, hholds⟩]

/-- A line that ends on the canvas and starts near the end of the range of the floats. -/
theorem inner_ends_painted_farLine :
    ∃ c', (Canvas.blank 8 6).paint
        ⟨.line (wholePoint (-2 ^ 1000, 2 ^ 1000)) (wholePoint (3, 4)), 2⟩ = .ok c' ∧
      c'.get (3, 4) = 2 := by
  have hoverflow : |((2 ^ 1000 : ℤ) : ℚ)| < overflow := by
    rw [two_pow_cast, abs_of_pos (two_zpow_pos _)]
    exact two_zpow_lt_overflow (by norm_num)
  have hstart : Convertible (wholePoint (-2 ^ 1000, 2 ^ 1000)) := by
    refine ⟨?_, hoverflow⟩
    change |((-2 ^ 1000 : ℤ) : ℚ)| < overflow
    rwa [Int.cast_neg, abs_neg]
  have hstop : Convertible (wholePoint (3, 4)) :=
    ⟨lt_overflow (by norm_num), lt_overflow (by norm_num)⟩
  obtain ⟨c', hc', -, -, -, hlast⟩ := inner_ends_painted (Canvas.blank 8 6) (by decide) (by decide)
    hstart hstop (by decide : (0 : ℤ) ≤ 2) (by decide) (Or.inr (by decide))
  exact ⟨c', hc', hlast (by decide)⟩

end VectorPaint.Raster
