/-
# Ellipses that are too flat

The line of an ellipse's row is found by dividing by the square of the vertical radius.  The radius
is compared with zero before, but its square is not, and the square of a radius that is not zero
can be zero all the same, as a float (`Ellipse.HasFlatSquare`).

Such a radius is far below a half, so that the ellipse has no row but the topmost.  If that row can
reach the device the ellipse cannot be painted (`Ellipse.IsFlat`).  All other ellipses can:
`Ellipse.acts_succeeds_iff`.
-/
import VectorPaint.Proofs.Shapes

namespace VectorPaint

open Number

namespace Canvas

/-! ## 1. Intervals -/

theorem interval_eq_nil {a b : ℤ} (h : b ≤ a) : interval a b = [] := by
  simp only [interval]
  rw [Int.toNat_eq_zero.mpr (by omega)]
  rfl

theorem interval_cons {start stop : ℤ} (h : start < stop) :
    interval start stop = start :: interval (start + 1) stop := by
  simp only [interval]
  obtain ⟨n, hn⟩ : ∃ n, (stop - start).toNat = n + 1 := ⟨(stop - start).toNat - 1, by omega⟩
  have hn' : (stop - (start + 1)).toNat = n := by omega
  rw [hn, hn', List.range_succ_eq_map, List.map_cons, List.map_map]
  congr 1
  · simp
  · refine List.map_congr_left ?_
    intro i _
    simp only [Function.comp_apply, Nat.succ_eq_add_one, Nat.cast_add, Nat.cast_one]
    ring

theorem interval_append {a b c : ℤ} (hab : a ≤ b) (hbc : b ≤ c) :
    interval a c = interval a b ++ interval b c := by
  simp only [interval]
  have hlength : (c - a).toNat = (b - a).toNat + (c - b).toNat := by omega
  rw [hlength, List.range_add, List.map_append, List.map_map]
  congr 1
  refine List.map_congr_left ?_
  intro i _
  simp only [Function.comp_apply]
  omega

theorem interval_pairwise (a b : ℤ) : (interval a b).Pairwise (· < ·) := by
  simp only [interval]
  rw [List.pairwise_map]
  refine List.pairwise_lt_range.imp ?_
  intro i j hij
  omega

end Canvas

namespace Ellipse

/-! ## 2. The vertical radius -/

/-- The vertical radius is not zero, and its square is. -/
def HasFlatSquare (e : Ellipse) : Prop := (e.ry == 0.0) = false ∧ (e.ry * e.ry == 0.0) = true

/-- An ellipse without a square to divide by, whose topmost row can reach the device. -/
def IsFlat (v : Viewport) (e : Ellipse) : Prop :=
  e.isProper = true ∧ e.HasFlatSquare ∧
    ∃ first last, e.visibleRows v 0 = .ok (first, last) ∧ first ≤ 0 ∧ 0 ≤ last

variable {v : Viewport} {e : Ellipse} {whole row : ℤ}

/-- A proper ellipse has finite numbers and a vertical radius that is not negative. -/
structure Proper (e : Ellipse) : Prop where
  finite_cx : e.cx.isFinite
  finite_cy : e.cy.isFinite
  finite_rx : e.rx.isFinite
  finite_ry : e.ry.isFinite
  ry_nonneg : 0 ≤ value e.ry

theorem isProper_iff : e.isProper = true ↔ e.Proper := by
  simp only [isProper]
  simp only [Bool.and_eq_true, Bool.not_eq_true', decide_eq_false_iff_not]
  constructor
  · rintro ⟨⟨⟨⟨hcx, hcy⟩, hrx⟩, hry⟩, hneg⟩
    rw [lt_iff hry isFinite_zero, value_zero, not_lt] at hneg
    exact ⟨hcx, hcy, hrx, hry, hneg⟩
  · rintro ⟨hcx, hcy, hrx, hry, hnonneg⟩
    refine ⟨⟨⟨⟨hcx, hcy⟩, hrx⟩, hry⟩, ?_⟩
    rwa [lt_iff hry isFinite_zero, value_zero, not_lt]

/-- **A radius whose square is zero is below a half.**  The square of a half is a quarter, and
rounding keeps the order. -/
theorem HasFlatSquare.ry_lt (h : e.HasFlatSquare) (he : e.Proper) :
    0 < value e.ry ∧ value e.ry < 1 / 2 := by
  obtain ⟨hne, hsquare⟩ := h
  have hpos : 0 < value e.ry := by
    refine lt_of_le_of_ne he.ry_nonneg ?_
    intro hzero
    rw [(beq_iff he.finite_ry isFinite_zero).mpr (by rw [value_zero, hzero])] at hne
    cases hne
  refine ⟨hpos, not_le.mp fun hhalf => ?_⟩
  have hnear := isNearest_mul he.finite_ry he.finite_ry
  have hfinite : (e.ry * e.ry).isFinite := by
    by_contra hinf
    rw [not_beq_of_not_isFinite hinf isFinite_zero] at hsquare
    cases hsquare
  rw [beq_iff hfinite isFinite_zero, value_zero,
    (hnear.within (hnear.isFinite_iff.mp hfinite)).2] at hsquare
  have hquarter : (2 : ℚ) ^ (-2 : ℤ) ≤ value e.ry * value e.ry := by
    norm_num
    nlinarith
  have := le_rounded (isBinary_zpow (by norm_num)) hquarter
  rw [hsquare] at this
  norm_num at this

/-! ## 3. Rows -/

theorem floor_ry (he : e.Proper) : Number.floor e.ry = .ok ⌊value e.ry⌋ :=
  floor_of_isFinite he.finite_ry

theorem floor_ry_eq (he : e.Proper) (h : Number.floor e.ry = .ok whole) : ⌊value e.ry⌋ = whole :=
  Except.ok.inj ((floor_ry he).symm.trans h)

/-- A row of the ellipse has a height. -/
theorem rowHeight_ok (he : e.Proper) (hlow : 0 ≤ row) (hhigh : row ≤ 2 * ⌊value e.ry⌋ + 1) :
    ∃ y, e.rowHeight ⌊value e.ry⌋ row = .ok y := by
  have hfloor : 0 ≤ ⌊value e.ry⌋ := Int.floor_nonneg.mpr he.ry_nonneg
  have hwhole : |((⌊value e.ry⌋ : ℤ) : ℚ)| < overflow := by
    have := abs_floor_lt e.ry (k := 0) (by norm_num)
    rwa [add_zero] at this
  have hrow : |((row - ⌊value e.ry⌋ : ℤ) : ℚ)| < overflow := by
    refine lt_of_le_of_lt ?_ (abs_floor_lt e.ry (k := 1) (by norm_num))
    have habs : |row - ⌊value e.ry⌋| ≤ |⌊value e.ry⌋ + 1| := by
      rw [abs_of_nonneg (by omega : 0 ≤ ⌊value e.ry⌋ + 1), abs_le]
      constructor <;> omega
    exact_mod_cast habs
  obtain ⟨x, hx, -⟩ := ofWhole_of_lt hwhole
  obtain ⟨y, hy, -⟩ := ofWhole_of_lt hrow
  exact exists_bind_ok hx (exists_bind_ok hy ⟨_, rfl⟩)

theorem heightRatio_ok_iff (y : Float) :
    (∃ r, e.heightRatio y = .ok r) ↔ ¬ e.HasFlatSquare := by
  simp only [heightRatio, HasFlatSquare]
  cases hzero : e.ry == 0.0 with
  | true => exact iff_of_true ⟨nan, rfl⟩ fun h => by cases h.1
  | false =>
    rw [and_iff_right rfl]
    cases hsquare : e.ry * e.ry == 0.0 with
    | true =>
      refine iff_of_false ?_ (not_not.mpr rfl)
      rintro ⟨r, hr⟩
      obtain ⟨x, -, hr⟩ := of_bind_ok hr
      rw [hsquare] at hr
      cases hr
    | false => exact iff_of_true ⟨_, Coord.divideBy_ok rfl hsquare⟩ Bool.false_ne_true

theorem halfWidth_convertible (ratio : Float) : (e.halfWidth ratio).IsConvertible := by
  simp only [halfWidth]
  split
  · exact (Coord.roundHalfUp_settled _).isConvertible
  · trivial

/-- The line of a row needs the square of the vertical radius, and nothing else. -/
theorem rowLine_ok_iff (hv : v.IsSound) (y : Float) :
    (∃ shape, e.rowLine v y = .ok shape) ↔ ¬ e.HasFlatSquare := by
  rw [← heightRatio_ok_iff y]
  constructor
  · rintro ⟨shape, h⟩
    obtain ⟨r, hr, -⟩ := of_bind_ok h
    exact ⟨r, hr⟩
  · rintro ⟨r, hr⟩
    obtain ⟨w, hw⟩ := (halfWidth_convertible (e := e) r).toFloat_ok
    obtain ⟨x0, hx0, -⟩ := hv.scaleX_ok (e.cx - w)
    obtain ⟨x1, hx1, -⟩ := hv.scaleX_ok (e.cx + w)
    obtain ⟨y0, hy0, -⟩ := hv.scaleY_ok (e.cy + y)
    refine exists_bind_ok hr (exists_bind_ok (Coord.real_sub hw) (exists_bind_ok hx0
      (exists_bind_ok hy0 ?_)))
    exact exists_bind_ok (Coord.real_add hw) (exists_bind_ok hx1 (exists_bind_ok hy0 ⟨_, rfl⟩))

/-! ## 4. Rows that can reach the device -/

/-- The pixels of a unit of the view box are some number above zero, or an infinity. -/
theorem pixelsPerUnit_ok (hv : v.IsSound) :
    ∃ k, (Coord.whole v.height).divideBy v.viewHeight = .ok k ∧ k.isNaN = false ∧
      (k == 0.0) = false ∧ (k.isFinite → value k ≠ 0) ∧
        IsNearest k (v.height / value v.viewHeight) := by
  obtain ⟨h, hh, hfinite, hvalue⟩ := Viewport.ofWhole_side hv.height_pos hv.height_le
  have hzero := not_beq_zero hv.finite_viewHeight hv.viewHeight_pos.ne' isFinite_zero value_zero
  have hnear := isNearest_div hfinite hv.finite_viewHeight hv.viewHeight_pos.ne'
  -- The quotient is at least one over the greatest float, and so is not rounded to zero.
  have hleast : (2 : ℚ) ^ (-1024 : ℤ) ≤ value h / value v.viewHeight := by
    have hview : value v.viewHeight ≤ 2 ^ (1024 : ℤ) := by
      have hlt := (abs_lt.mp (abs_value_lt v.viewHeight)).2
      exact (hlt.trans (sub_lt_self _ (two_zpow_pos 970))).le
    have hone : (1 : ℚ) ≤ v.height := by exact_mod_cast hv.height_pos
    rw [hvalue, le_div_iff₀ hv.viewHeight_pos]
    calc
      (2 : ℚ) ^ (-1024 : ℤ) * value v.viewHeight ≤ 2 ^ (-1024 : ℤ) * 2 ^ (1024 : ℤ) :=
        mul_le_mul_of_nonneg_left hview (two_zpow_pos _).le
      _ = 1 := by rw [← zpow_add₀ (by norm_num), neg_add_cancel, zpow_zero]
      _ ≤ v.height := hone
  have hpos : (h / v.viewHeight).isFinite → value (h / v.viewHeight) ≠ 0 := by
    intro hk
    rw [(hnear.within (hnear.isFinite_iff.mp hk)).2]
    have := le_rounded (isBinary_zpow (by norm_num)) hleast
    exact (lt_of_lt_of_le (two_zpow_pos _) this).ne'
  refine ⟨h / v.viewHeight, Coord.divideBy_ok hh hzero, hnear.not_isNaN, ?_, hpos, hvalue ▸ hnear⟩
  by_cases hk : (h / v.viewHeight).isFinite
  · exact not_beq_zero hk (hpos hk) isFinite_zero value_zero
  · exact not_beq_of_not_isFinite hk isFinite_zero

/-- **Which rows can reach the device can be told,** and they are rows of the ellipse. -/
theorem visibleRows_spec (hv : v.IsSound) (he : e.Proper) (hwhole : 0 ≤ whole) :
    ∃ first last, e.visibleRows v whole = .ok (first, last) ∧ 0 ≤ first ∧
      last ≤ 2 * whole + 1 := by
  obtain ⟨k, hk, hnan, hzero, hne, -⟩ := pixelsPerUnit_ok hv
  obtain ⟨h, hh, hfinite, -⟩ := Viewport.ofWhole_side hv.height_pos hv.height_le
  have hhalf : (-0.5 : Float).isFinite := by decide +kernel
  have habove : (-0.5 / k - e.cy + e.ry - 1.0).isNaN = false :=
    not_isNaN_sub (not_isNaN_add (not_isNaN_sub (not_isNaN_div hhalf hnan hne) he.finite_cy)
      he.finite_ry) isFinite_one
  have hbelow : (h / k - e.cy + e.ry + 1.0).isNaN = false :=
    not_isNaN_add (not_isNaN_add (not_isNaN_sub (not_isNaN_div hfinite hnan hne) he.finite_cy)
      he.finite_ry) isFinite_one
  have habove' : 0 ≤ 2 * whole + 1 + 1 := by omega
  have hbelow' : -1 ≤ 2 * whole + 1 := by omega
  obtain ⟨first, hfirst, hlow, -⟩ := floorWithin_spec habove' habove
  obtain ⟨last, hlast, -, hhigh⟩ := floorWithin_spec hbelow' hbelow
  refine ⟨first, last, ?_, hlow, hhigh⟩
  exact bind_ok hk (bind_ok (Coord.divideBy_ok rfl hzero) (bind_ok hfirst
    (bind_ok (Coord.divideBy_ok hh hzero) (bind_ok hlast rfl))))

/-! ## 5. Ellipses -/

/-- Without a flat square all rows of the ellipse are painted. -/
theorem rows_succeeds (hv : v.IsSound) (he : e.Proper) (hflat : ¬ e.HasFlatSquare) (color : ℤ)
    {rows : List ℤ} (hrows : ∀ row ∈ rows, 0 ≤ row ∧ row ≤ 2 * ⌊value e.ry⌋ + 1) :
    (Ellipse.rows v e ⌊value e.ry⌋ color rows).Succeeds := by
  induction rows with
  | nil => exact Journal.succeeds_pure _
  | cons row rest ih =>
    obtain ⟨hlow, hhigh⟩ := hrows row List.mem_cons_self
    obtain ⟨y, hy⟩ := rowHeight_ok he hlow hhigh
    obtain ⟨shape, hshape⟩ := (rowLine_ok_iff hv y).mpr hflat
    simp only [Ellipse.rows]
    rw [Journal.succeeds_lift_bind hy]
    split
    · exact Journal.succeeds_pure _
    · rw [Journal.succeeds_lift_bind hshape]
      refine (Journal.succeeds_enter _).bind ?_
      intro _ _
      exact ih fun r hr => hrows r (List.mem_cons_of_mem _ hr)

/-- The heights of the topmost row and of the next one, where the radius is below a half. -/
theorem rowHeight_of_lt (he : e.Proper) (hlt : value e.ry < 1 / 2) (hrow : row = 0 ∨ row = 1) :
    ∃ y, e.rowHeight 0 row = .ok y ∧ y.isFinite ∧ value y = rounded (row - value e.ry) := by
  have hnonneg := he.ry_nonneg
  obtain ⟨z, hz, hzfinite, hzvalue⟩ := Viewport.ofWhole_of_moderate (n := 0) (by norm_num)
  obtain ⟨n, hn, hnfinite, hnvalue⟩ := Viewport.ofWhole_of_moderate (n := row) (by
    rcases hrow with rfl | rfl <;> norm_num)
  have hfraction := isNearest_sub he.finite_ry hzfinite
  rw [hzvalue, Int.cast_zero, sub_zero] at hfraction
  obtain ⟨hffinite, hfvalue⟩ := hfraction.within (abs_value_lt e.ry)
  rw [rounded_value] at hfvalue
  have hheight := isNearest_sub hnfinite hffinite
  rw [hnvalue, hfvalue] at hheight
  have hsmall : |(row : ℚ) - value e.ry| < overflow := by
    refine lt_overflow ?_
    rw [abs_le]
    rcases hrow with rfl | rfl <;> constructor <;> norm_num <;> linarith
  obtain ⟨hyfinite, hyvalue⟩ := hheight.within hsmall
  refine ⟨n - (e.ry - z), ?_, hyfinite, hyvalue⟩
  refine bind_ok hz (bind_ok ?_ rfl)
  rwa [sub_zero]

/-- **With a flat square the ellipse has no row that can be painted.**  The topmost one needs the
square, and the next one lies below the ellipse already. -/
theorem rows_succeeds_iff_of_flat (hv : v.IsSound) (he : e.Proper) (hflat : e.HasFlatSquare)
    (color : ℤ) {first last : ℤ} (hfirst : 0 ≤ first) (hlast : last ≤ 1) :
    (Ellipse.rows v e 0 color (Canvas.interval first (last + 1))).Succeeds ↔
      ¬ (first ≤ 0 ∧ 0 ≤ last) := by
  obtain ⟨hpos, hlt⟩ := hflat.ry_lt he
  by_cases hnone : last < first
  · rw [Canvas.interval_eq_nil (by omega)]
    exact iff_of_true (Journal.succeeds_pure _) (by omega)
  rw [Canvas.interval_cons (by omega)]
  simp only [Ellipse.rows]
  obtain hzero | hone : first = 0 ∨ first = 1 := by omega
  · subst hzero
    refine iff_of_false ?_ (by omega)
    obtain ⟨y, hy, hyfinite, hyvalue⟩ := rowHeight_of_lt he hlt (Or.inl rfl)
    have habove : ¬ e.ry < y := by
      have hnegative : rounded (((0 : ℤ) : ℚ) - value e.ry) ≤ rounded 0 := rounded_mono (by
        rw [Int.cast_zero]
        linarith)
      rw [rounded_zero] at hnegative
      rw [lt_iff he.finite_ry hyfinite, hyvalue]
      linarith
    rw [Journal.succeeds_lift_bind hy, if_neg habove]
    intro h
    obtain ⟨shape, hshape, -⟩ := Journal.succeeds_bind_iff.mp h
    exact (rowLine_ok_iff hv y).mp ⟨shape, hshape⟩ hflat
  · subst hone
    refine iff_of_true ?_ (by omega)
    obtain ⟨y, hy, hyfinite, hyvalue⟩ := rowHeight_of_lt he hlt (Or.inr rfl)
    have hbelow : e.ry < y := by
      have hhalf : (2 : ℚ) ^ (-1 : ℤ) ≤ ((1 : ℤ) : ℚ) - value e.ry := by
        norm_num
        linarith
      have := le_rounded (isBinary_zpow (by norm_num)) hhalf
      rw [lt_iff he.finite_ry hyfinite, hyvalue]
      norm_num at this ⊢
      linarith
    rw [Journal.succeeds_lift_bind hy, if_pos hbelow]
    exact Journal.succeeds_pure _

/-- **An ellipse is painted unless it is too flat.** -/
theorem acts_succeeds_iff (hv : v.IsSound) (color : ℤ) :
    (Ellipse.acts v e color).Succeeds ↔ ¬ e.IsFlat v := by
  simp only [Ellipse.acts]
  by_cases hproper : e.isProper = true
  · have he := isProper_iff.mp hproper
    have hfloor : 0 ≤ ⌊value e.ry⌋ := Int.floor_nonneg.mpr he.ry_nonneg
    obtain ⟨first, last, hvisible, hlow, hhigh⟩ := visibleRows_spec hv he hfloor
    rw [if_pos hproper, Journal.succeeds_lift_bind (floor_ry he),
      Journal.succeeds_lift_bind hvisible]
    dsimp only
    by_cases hflat : e.HasFlatSquare
    · have hwhole : ⌊value e.ry⌋ = 0 := by
        have hlt := (hflat.ry_lt he).2
        rw [Int.floor_eq_zero_iff]
        exact ⟨he.ry_nonneg, by linarith⟩
      rw [hwhole] at hvisible hhigh ⊢
      rw [rows_succeeds_iff_of_flat hv he hflat color hlow hhigh]
      refine not_congr ⟨fun h => ⟨hproper, hflat, first, last, hvisible, h⟩, ?_⟩
      rintro ⟨-, -, first', last', hvisible', h⟩
      cases hvisible.symm.trans hvisible'
      exact h
    · refine iff_of_true (rows_succeeds hv he hflat color fun row hrow => ?_) fun h => hflat h.2.1
      have := Canvas.mem_interval.mp hrow
      omega
  · rw [if_neg hproper]
    exact iff_of_true (Journal.succeeds_pure _) fun h => hproper h.1

end Ellipse

end VectorPaint
