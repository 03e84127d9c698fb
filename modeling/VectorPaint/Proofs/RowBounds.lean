/-
# Which rows of an ellipse reach the device

The first and the last row that an ellipse is painted with are found by dividing the device's
height by the pixels of a unit and adding the vertical radius.  This module shows that the two
bounds leave out no row that lands on the device (`visibleRows_cover`), for ellipses that are not
too large and not too far away (`Ellipse.IsModerate`).  Nothing is asked of the view box.

From both sides there are errors.  The bounds are sums of four numbers, and every operation is
rounded; the place of a row is a sum as well, and is rounded again when it is carried across to the
device.  All these errors together are less than the row to spare on each side.

A view box can be so high that the quotients leave the range in which an error is small, or even
the range of the floats.  Then a bound is not known with an error, but it lies beyond every row of
the ellipse, and so leaves out none (`above_isBeyond`, `below_isBeyond`).
-/
import VectorPaint.Proofs.Rows
import VectorPaint.Proofs.Float.Estimates

namespace VectorPaint

open Number
open Float.Model.UnpackedFloat (Sign)

/-! ## 1. The rows of the device -/

/-- A float that is rounded to a whole number is finite. -/
theorem Coord.of_roundHalfUp_eq_whole {x : Float} {n : ℤ} (hx : x.isNaN = false)
    (h : Coord.roundHalfUp x = .whole n) :
    x.isFinite ∧ n = ⌊rounded (Number.value x + 1 / 2)⌋ := by
  simp only [Coord.roundHalfUp] at h
  split at h
  · rename_i v hv
    cases h
    obtain ⟨hsum, hvalue⟩ := isFinite_of_scaled? hv
    have hfinite : x.isFinite := by
      by_contra hinf
      obtain ⟨s, hs⟩ := unpack_eq_infinity hx hinf
      have hsum' : (x + 0.5).toModel.unpack.isFinite := hsum
      rw [unpack_add_infinity hs isFinite_half] at hsum'
      cases hsum'
    have hnear := isNearest_add hfinite isFinite_half
    rw [value_half] at hnear
    refine ⟨hfinite, ?_⟩
    rw [v.floor_eq, ← hvalue, (hnear.within (hnear.isFinite_iff.mp hsum)).2]
  · cases h

/-- What is rounded to a whole number that is not negative is at least minus a half, up to a
rounding. -/
theorem Coord.lt_of_nonneg_roundHalfUp {q : ℚ} (h : 0 ≤ ⌊rounded (rounded q + 1 / 2)⌋) :
    -(1 / 2 + 1 / 2 ^ 52) < q := by
  have hbinary : IsBinary (-(1 / 2 + 1 / 2 ^ 52) : ℚ) := by
    refine ⟨-(2 ^ 51 + 1), -52, by norm_num, by norm_num, ?_⟩
    norm_num
  by_contra hle
  have hround := rounded_le hbinary (not_lt.mp hle)
  have htiny : rounded q + 1 / 2 ≤ -2 ^ (-52 : ℤ) := by
    norm_num at hround ⊢
    linarith
  have hneg := rounded_le (isBinary_zpow (by norm_num)).neg htiny
  norm_num at hneg
  linarith [Int.floor_nonneg.mp h]

/-- What is rounded to less than a whole number is below it. -/
theorem Coord.lt_of_roundHalfUp_lt {q : ℚ} {n : ℤ} (hn : |n| ≤ 2 ^ 53)
    (h : ⌊rounded (rounded q + 1 / 2)⌋ < n) : q < n := by
  by_contra hle
  have hround := le_rounded (isBinary_intCast hn) (not_lt.mp hle)
  have hmore := le_rounded (isBinary_intCast hn) (by linarith : (n : ℚ) ≤ rounded q + 1 / 2)
  linarith [Int.floor_lt.mp h]

namespace Viewport

variable {v : Viewport}

/-- The height of a pixel in units of the view box. -/
def pixelHeight (v : Viewport) : ℚ := Number.value v.viewHeight / v.height

theorem IsSound.height_cast (hv : v.IsSound) : (1 : ℚ) ≤ v.height ∧ (v.height : ℚ) ≤ 2 ^ 15 := by
  have h1 := hv.height_pos
  have h2 := hv.height_le
  unfold longestSide at h2
  exact ⟨by exact_mod_cast h1, by exact_mod_cast h2⟩

theorem IsSound.isBinary_height_div (hv : v.IsSound) : IsBinary ((v.height : ℚ) / 2 ^ 49) := by
  have h1 := hv.height_pos
  have h2 := hv.height_le
  unfold longestSide at h2
  refine ⟨v.height, -49, abs_le.mpr ⟨by linarith, by linarith⟩, by norm_num, ?_⟩
  rw [zpow_neg, ← div_eq_mul_inv]
  rfl

theorem IsSound.pixelHeight_pos (hv : v.IsSound) : 0 < v.pixelHeight :=
  div_pos hv.viewHeight_pos (by linarith [hv.height_cast.1])

theorem IsSound.height_mul (hv : v.IsSound) :
    (v.height : ℚ) * v.pixelHeight = Number.value v.viewHeight :=
  mul_div_cancel₀ _ (by linarith [hv.height_cast.1])

/-- A height that is carried across to a row of the device, before it is rounded. -/
theorem IsSound.of_scaleY (hv : v.IsSound) {y : Float} {n : ℤ} (hy : y.isFinite)
    (hlarge : |Number.value y| ≤ 2 ^ 50) (hn : v.scaleY (.real y) = .ok (.whole n)) :
    n = ⌊rounded (rounded (rounded (Number.value y * v.height) / Number.value v.viewHeight) +
      1 / 2)⌋ := by
  obtain ⟨h, hh, hfinite, hvalue⟩ := ofWhole_side hv.height_pos hv.height_le
  have hzero := not_beq_zero hv.finite_viewHeight hv.viewHeight_pos.ne' isFinite_zero value_zero
  have hscale : v.scaleY (.real y) = .ok (Coord.roundHalfUp (y * h / v.viewHeight)) :=
    bind_ok (Coord.real_mul hh) (bind_ok (Coord.divideBy_ok rfl hzero) rfl)
  rw [hscale] at hn
  have hrange : |Number.value y * v.height| < overflow := by
    refine lt_of_le_of_lt ?_ (two_zpow_lt_overflow (e := 65) (by norm_num))
    have hside : |(v.height : ℚ)| ≤ 2 ^ 15 := by
      rw [abs_of_nonneg (by linarith [hv.height_cast.1])]
      exact hv.height_cast.2
    rw [abs_mul]
    refine (mul_le_mul hlarge hside (abs_nonneg _) (by norm_num)).trans ?_
    norm_num
  have hmul := isNearest_mul hy hfinite
  rw [hvalue] at hmul
  obtain ⟨hproduct, hproduct'⟩ := hmul.within hrange
  have hdiv := isNearest_div hproduct hv.finite_viewHeight hv.viewHeight_pos.ne'
  rw [hproduct'] at hdiv
  obtain ⟨hquotient, hn⟩ := Coord.of_roundHalfUp_eq_whole hdiv.not_isNaN (Except.ok.inj hn)
  rw [hn, (hdiv.within (hdiv.isFinite_iff.mp hquotient)).2]

/-- **A height that lands on the device is in the view box,** apart from half a pixel above it and
from the errors of two roundings. -/
theorem IsSound.bounds_of_scaleY (hv : v.IsSound) {y : Float} {n : ℤ} (hy : y.isFinite)
    (hlarge : |Number.value y| ≤ 2 ^ 50) (hn : v.scaleY (.real y) = .ok (.whole n)) (hlow : 0 ≤ n)
    (hhigh : n < v.height) :
    -(1 / 2 + 1 / 2 ^ 52) * v.pixelHeight - (|Number.value y| + 1) / 2 ^ 53 < Number.value y ∧
      Number.value y < Number.value v.viewHeight + (|Number.value y| + 1) / 2 ^ 53 := by
  rw [hv.of_scaleY hy hlarge hn] at hlow hhigh
  obtain ⟨hone, hside⟩ := hv.height_cast
  have hpos := hv.viewHeight_pos
  have hheight : |v.height| ≤ 2 ^ 53 := by
    have := abs_of_nonneg (by linarith : (0 : ℚ) ≤ v.height)
    exact_mod_cast (this.le.trans hside).trans (by norm_num : (2 : ℚ) ^ 15 ≤ 2 ^ 53)
  have habove := Coord.lt_of_nonneg_roundHalfUp hlow
  have hbelow := Coord.lt_of_roundHalfUp_lt hheight hhigh
  rw [lt_div_iff₀ hpos, ← hv.height_mul] at habove
  rw [div_lt_iff₀ hpos] at hbelow
  -- The error of the product, in units of the view box.
  have hproduct := abs_rounded_sub_le_of_le (le_add_of_nonneg_right zero_le_one)
    (le_add_of_nonneg_left (abs_nonneg (Number.value y * v.height)))
  rw [abs_mul, abs_of_nonneg (by linarith : (0 : ℚ) ≤ v.height), abs_le] at hproduct
  have herror : (|Number.value y| * v.height + 1) / 2 ^ 53 ≤
      (|Number.value y| + 1) / 2 ^ 53 * v.height := by
    rw [div_mul_eq_mul_div]
    refine div_le_div_of_nonneg_right ?_ (by norm_num)
    linarith
  constructor
  · refine lt_of_mul_lt_mul_right ?_ (by linarith : (0 : ℚ) ≤ v.height)
    linarith [hproduct.2]
  · refine lt_of_mul_lt_mul_right ?_ (by linarith : (0 : ℚ) ≤ v.height)
    linarith [hproduct.1]

end Viewport

/-! ## 2. Quotients by the scale -/

section Quotients

variable {s : Sign} {x k : Float} {d : ℚ}

/-- The pixels of a unit times the units of a pixel are nearly one. -/
theorem abs_scale_mul_sub_le (hd : 0 < d) (hd' : d ≤ 2 ^ 50) (hk : IsNearest k (1 / d))
    (hrange : 1 / d < overflow) : |value k * d - 1| ≤ 1 / 2 ^ 53 := by
  have hinverse : 0 < 1 / d := one_div_pos.mpr hd
  have hlarge : (2 : ℚ) ^ (-1021 : ℤ) ≤ |1 / d| := by
    rw [abs_of_pos hinverse, le_div_iff₀ hd]
    calc
      (2 : ℚ) ^ (-1021 : ℤ) * d ≤ 2 ^ (-50 : ℤ) * 2 ^ 50 :=
        mul_le_mul (two_zpow_le (by norm_num)) hd' hd.le (two_zpow_pos _).le
      _ = 1 := by norm_num
  have herror := abs_rounded_sub_le_mul hlarge
  rw [← (hk.within (by rwa [abs_of_pos hinverse])).2, abs_of_pos hinverse] at herror
  have hsplit : value k * d - 1 = (value k - 1 / d) * d := by
    rw [sub_mul, one_div_mul_cancel hd.ne']
  rw [hsplit, abs_mul, abs_of_pos hd]
  calc
    |value k - 1 / d| * d ≤ 1 / d / 2 ^ 53 * d := mul_le_mul_of_nonneg_right herror hd.le
    _ = 1 / 2 ^ 53 := by rw [div_mul_eq_mul_div, one_div_mul_cancel hd.ne']

/-- So dividing by the one is nearly multiplying with the other. -/
theorem abs_div_sub_mul_le {q r : ℚ} (hr : r ≠ 0) (hunit : |r * d - 1| ≤ 1 / 2 ^ 53) :
    |q / r - q * d| ≤ |q * d| / 2 ^ 52 := by
  have hhalf : 1 / 2 ≤ r * d := by linarith [(abs_le.mp hunit).1]
  have hd : d ≠ 0 := right_ne_zero_of_mul (lt_of_lt_of_le one_half_pos hhalf).ne'
  have hsplit : q / r - q * d = q * d * (1 - r * d) / (r * d) := by
    field_simp
  rw [hsplit, abs_div, abs_mul, abs_sub_comm, abs_of_pos (by linarith : 0 < r * d),
    div_le_iff₀ (by linarith)]
  calc
    |q * d| * |r * d - 1| ≤ |q * d| * (1 / 2 ^ 53) :=
      mul_le_mul_of_nonneg_left hunit (abs_nonneg _)
    _ = |q * d| / 2 ^ 52 * (1 / 2) := by ring
    _ ≤ |q * d| / 2 ^ 52 * (r * d) :=
      mul_le_mul_of_nonneg_left hhalf (div_nonneg (abs_nonneg _) (by norm_num))

/-- Where the pixels of a unit are beyond the range, all numbers of pixels are no units. -/
theorem quotient_isAbout_of_overflow (hx : x.isFinite) (hd : 0 < d) (hk : IsNearest k (1 / d))
    (hrange : overflow ≤ 1 / d) (hside : |value x| ≤ 2 ^ 15) :
    IsAbout (x / k) (value x * d) (1 / 4) := by
  obtain ⟨t, ht⟩ := unpack_div_infinity hx (hk.above hrange)
  have hfinite : (x / k).isFinite := by
    change (x / k).toModel.unpack.isFinite = true
    rw [ht]
    rfl
  have hzero : value (x / k) = 0 := by
    rw [value, ht, unpackedValue_zero]
  refine ⟨hfinite, ?_⟩
  have hless : d ≤ 1 / 2 ^ 53 := by
    have hbig : (2 : ℚ) ^ (53 : ℤ) ≤ 1 / d := (two_zpow_lt_overflow (by norm_num)).le.trans hrange
    rw [le_div_iff₀ hd] at hbig
    rw [le_div_iff₀ (by norm_num), mul_comm]
    exact_mod_cast hbig
  rw [hzero, zero_sub, abs_neg, abs_mul, abs_of_pos hd]
  calc
    |value x| * d ≤ 2 ^ 15 * (1 / 2 ^ 53) := mul_le_mul hside hless hd.le (by norm_num)
    _ ≤ 1 / 4 := by norm_num

/-- **Divided by the pixels of a unit, a number of pixels is turned into units,** with a small error
as long as there are not too many of them. -/
theorem quotient_isAbout (hx : x.isFinite) (hd : 0 < d) (hk : IsNearest k (1 / d))
    (hk0 : k.isFinite → value k ≠ 0) (hhalf : 1 / 2 ≤ |value x|) (hside : |value x| ≤ 2 ^ 15)
    (hnear : |value x * d| ≤ 2 ^ 49) : IsAbout (x / k) (value x * d) (1 / 4) := by
  rcases le_or_gt overflow (1 / d) with hrange | hrange
  · exact quotient_isAbout_of_overflow hx hd hk hrange hside
  have hd' : d ≤ 2 ^ 50 := by
    rw [abs_mul, abs_of_pos hd] at hnear
    nlinarith
  have hfinite := (hk.within (by rwa [abs_of_pos (one_div_pos.mpr hd)])).1
  have hquotient : |value x / value k - value x * d| ≤ 1 / 8 := by
    refine (abs_div_sub_mul_le (hk0 hfinite) (abs_scale_mul_sub_le hd hd' hk hrange)).trans ?_
    linarith
  have hsmall : |value x / value k| ≤ 2 ^ 49 + 1 := by
    have := abs_sub_abs_le_abs_sub (value x / value k) (value x * d)
    linarith
  have hdiv := isNearest_div hx hfinite (hk0 hfinite)
  exact ((hdiv.isAbout hsmall (by norm_num) (by norm_num)).trans hquotient).mono (by norm_num)

/-- More pixels than that are turned into more units than that. -/
theorem quotient_isBeyond (hx : x.isFinite) (hd : 0 < d) (hk : IsNearest k (1 / d))
    (hk0 : k.isFinite → value k ≠ 0) (hsign : signFactor s * value x = |value x|)
    (hbinary : IsBinary (|value x| / 2 ^ 49)) (hside : |value x| ≤ 2 ^ 15)
    (hfar : 2 ^ 49 ≤ |value x * d|) : IsBeyond s (x / k) (signFactor s * 2 ^ 49) := by
  have hscale : 1 / d ≤ |value x| / 2 ^ 49 := by
    rw [div_le_div_iff₀ hd (by norm_num), one_mul]
    rwa [abs_mul, abs_of_pos hd] at hfar
  have hinverse : 0 < 1 / d := one_div_pos.mpr hd
  obtain ⟨hfinite, hvalue⟩ := hk.within (lt_overflow (by
    rw [abs_of_pos hinverse]
    refine hscale.trans ?_
    rw [div_le_iff₀ (by norm_num)]
    linarith))
  have hpos : 0 < value k :=
    lt_of_le_of_ne (hvalue ▸ rounded_nonneg hinverse.le) (hk0 hfinite).symm
  have hle : value k ≤ |value x| / 2 ^ 49 := hvalue ▸ rounded_le hbinary hscale
  have hsquare : signFactor s * signFactor s = 1 := by
    rcases signFactor_cases s with h | h <;> rw [h] <;> norm_num
  have hreach : (2 : ℚ) ^ 49 ≤ |value x| / value k := by
    rw [le_div_iff₀ hpos]
    rw [le_div_iff₀ (by norm_num)] at hle
    linarith
  have hwhole : IsBinary ((2 : ℚ) ^ 49) := by exact_mod_cast isBinary_zpow (e := 49) (by norm_num)
  refine (isNearest_div hx hfinite hpos.ne').isBeyond ?_ (lt_overflow ?_) ?_
  · rcases signFactor_cases s with h | h <;> rw [h]
    · rw [neg_one_mul]
      exact hwhole.neg
    · rwa [one_mul]
  · rcases signFactor_cases s with h | h <;> rw [h] <;> norm_num
  · rw [← mul_assoc, hsquare, one_mul, ← mul_div_assoc, hsign]
    exact hreach

end Quotients

/-! ## 3. Heights of rows -/

namespace Ellipse

variable {v : Viewport} {e : Ellipse} {row : ℤ}

/-- **The height of a row.**  The part of the radius behind the point is exact. -/
theorem rowHeight_spec (he : e.Proper)
    (hrow : |((row - ⌊value e.ry⌋ : ℤ) : ℚ)| < overflow) :
    ∃ y, e.rowHeight ⌊value e.ry⌋ row = .ok y ∧ y.isFinite ∧
      value y = rounded (rounded ((row - ⌊value e.ry⌋ : ℤ) : ℚ) -
        (value e.ry - ⌊value e.ry⌋)) := by
  obtain ⟨hfloor, hfract⟩ := (isBinary_value e.ry).floor_and_fract he.ry_nonneg
  have hwhole : |((⌊value e.ry⌋ : ℤ) : ℚ)| < overflow := by
    have := abs_floor_lt e.ry (k := 0) (by norm_num)
    rwa [add_zero] at this
  have hlow := Int.floor_le (value e.ry)
  have hhigh := Int.lt_floor_add_one (value e.ry)
  have hpart : |value e.ry - ⌊value e.ry⌋| ≤ 2 ^ 53 := by
    rw [abs_le]
    constructor <;> linarith
  obtain ⟨x, hx, hxfinite, hxvalue⟩ := ofWhole_of_lt hwhole
  obtain ⟨n, hn, hnfinite, hnvalue⟩ := ofWhole_of_lt hrow
  rw [rounded_of_isBinary hfloor] at hxvalue
  have hfraction := isNearest_sub he.finite_ry hxfinite
  rw [hxvalue] at hfraction
  obtain ⟨hffinite, hfvalue⟩ := hfraction.within (lt_overflow hpart)
  rw [rounded_of_isBinary hfract] at hfvalue
  have hheight := isNearest_sub hnfinite hffinite
  rw [hnvalue, hfvalue] at hheight
  obtain ⟨hyfinite, hyvalue⟩ := hheight.within (by
    rw [sub_eq_neg_add]
    refine Raster.abs_add_lt_overflow (by rwa [abs_neg]) ?_
    rw [← hnvalue]
    exact abs_value_le n)
  exact ⟨n - (e.ry - x), bind_ok hx (bind_ok hn rfl), hyfinite, hyvalue⟩

/-- A center that is not too far away, and a vertical radius that is not too large. -/
structure IsModerate (e : Ellipse) : Prop where
  cy_le : |value e.cy| ≤ 2 ^ 48
  ry_le : value e.ry ≤ 2 ^ 48

theorem IsModerate.floor_ry_le (hm : e.IsModerate) : ⌊value e.ry⌋ ≤ 2 ^ 48 := by
  have h := (Int.floor_le (value e.ry)).trans hm.ry_le
  exact_mod_cast h

/-- The exact height of a row of a moderate ellipse. -/
theorem IsModerate.abs_row_sub_le (hm : e.IsModerate) (hlow : 0 ≤ row)
    (hhigh : row ≤ 2 * ⌊value e.ry⌋ + 2) : |(row : ℚ) - value e.ry| ≤ 2 ^ 48 + 2 := by
  have hfloor : (⌊value e.ry⌋ : ℚ) ≤ 2 ^ 48 := by exact_mod_cast hm.floor_ry_le
  have hlow' : (0 : ℚ) ≤ row := by exact_mod_cast hlow
  have hhigh' : (row : ℚ) ≤ 2 * ⌊value e.ry⌋ + 2 := by exact_mod_cast hhigh
  have hfract := Int.floor_le (value e.ry)
  have hry := hm.ry_le
  rw [abs_le]
  constructor <;> linarith

/-- The height of a row of a moderate ellipse is off by one rounding. -/
theorem rowHeight_of_moderate (he : e.Proper) (hm : e.IsModerate) (hlow : 0 ≤ row)
    (hhigh : row ≤ 2 * ⌊value e.ry⌋ + 2) : ∃ y, e.rowHeight ⌊value e.ry⌋ row = .ok y ∧
      y.isFinite ∧ value y = rounded (row - value e.ry) := by
  have hfloor := hm.floor_ry_le
  have hmiddle : |row - ⌊value e.ry⌋| ≤ 2 ^ 53 := abs_le.mpr ⟨by omega, by omega⟩
  obtain ⟨y, hy, hfinite, hvalue⟩ := rowHeight_spec he (lt_overflow (by exact_mod_cast hmiddle))
  refine ⟨y, hy, hfinite, ?_⟩
  rw [hvalue, rounded_intCast hmiddle, Int.cast_sub,
    sub_sub_sub_cancel_right]

theorem rowHeight_isAbout (he : e.Proper) (hm : e.IsModerate) (hlow : 0 ≤ row)
    (hhigh : row ≤ 2 * ⌊value e.ry⌋ + 2) {y : Float} (hy : e.rowHeight ⌊value e.ry⌋ row = .ok y) :
    IsAbout y (row - value e.ry) (1 / 16) := by
  obtain ⟨y', hy', hfinite, hvalue⟩ := rowHeight_of_moderate he hm hlow hhigh
  cases hy.symm.trans hy'
  refine ⟨hfinite, ?_⟩
  rw [hvalue]
  exact (abs_rounded_sub_le_of_le (hm.abs_row_sub_le hlow hhigh) (by norm_num)).trans
    (by norm_num)

/-- The place of a row in the view box is off by one rounding more. -/
theorem rowPlace_isAbout (he : e.Proper) (hm : e.IsModerate) (hlow : 0 ≤ row)
    (hhigh : row ≤ 2 * ⌊value e.ry⌋ + 2) {y : Float} (hy : e.rowHeight ⌊value e.ry⌋ row = .ok y) :
    IsAbout (e.cy + y) (value e.cy + (row - value e.ry)) (3 / 16) := by
  have h := rowHeight_isAbout he hm hlow hhigh hy
  have hy' : |value y| ≤ 2 ^ 48 + 3 := by
    have := abs_sub_abs_le_abs_sub (value y) (row - value e.ry)
    linarith [h.near, hm.abs_row_sub_le hlow hhigh]
  have hsum : |value e.cy + value y| ≤ 2 ^ 50 :=
    (abs_add_le _ _).trans (by linarith [hm.cy_le])
  have hmove : |value e.cy + value y - (value e.cy + (row - value e.ry))| ≤ 1 / 16 := by
    rw [add_sub_add_left_eq_sub]
    exact h.near
  exact (((isNearest_add he.finite_cy h.finite).isAbout hsum (by norm_num)
    (by norm_num)).trans hmove).mono (by norm_num)

/-- A row that lands on the device is in the view box, apart from half a pixel and a third of a
row. -/
theorem row_of_scaleY (hv : v.IsSound) (he : e.Proper) (hm : e.IsModerate) (hlow : 0 ≤ row)
    (hhigh : row ≤ 2 * ⌊value e.ry⌋ + 2) {y : Float} (hy : e.rowHeight ⌊value e.ry⌋ row = .ok y)
    {n : ℤ} (hn : v.scaleY (.real (e.cy + y)) = .ok (.whole n)) (hn0 : 0 ≤ n)
    (hnh : n < v.height) :
    -(1 / 2 + 1 / 2 ^ 52) * v.pixelHeight - 1 / 3 < value e.cy + (row - value e.ry) ∧
      value e.cy + (row - value e.ry) < value v.viewHeight + 1 / 3 := by
  have h := rowPlace_isAbout he hm hlow hhigh hy
  have hlarge : |value (e.cy + y)| ≤ 2 ^ 50 := by
    have hplace := abs_le.mp h.near
    have hrow := abs_le.mp (hm.abs_row_sub_le hlow hhigh)
    have hcy := abs_le.mp hm.cy_le
    rw [abs_le]
    constructor <;> linarith
  obtain ⟨h1, h2⟩ := hv.bounds_of_scaleY h.finite hlarge hn hn0 hnh
  have hnear := abs_le.mp h.near
  constructor <;> linarith

/-- What is compared with the rows: the floats under both floors. -/
theorem of_visibleRows (hv : v.IsSound) {whole first last : ℤ}
    (h : e.visibleRows v whole = .ok (first, last)) :
    ∃ k height : Float, IsNearest k (1 / v.pixelHeight) ∧ (k.isFinite → value k ≠ 0) ∧
      height.isFinite ∧ value height = v.height ∧
      floorWithin 0 (2 * whole + 1 + 1) (-0.5 / k - e.cy + e.ry - 1.0) = .ok first ∧
      floorWithin (-1) (2 * whole + 1) (height / k - e.cy + e.ry + 1.0) = .ok last := by
  obtain ⟨k, hk, -, hzero, hne, hnear⟩ := pixelsPerUnit_ok hv
  obtain ⟨height, hheight, hfinite, hvalue⟩ := Viewport.ofWhole_side hv.height_pos hv.height_le
  refine ⟨k, height, ?_, hne, hfinite, hvalue, ?_⟩
  · rwa [Viewport.pixelHeight, one_div_div]
  · obtain ⟨k', hk', h⟩ := of_bind_ok h
    cases hk.symm.trans hk'
    obtain ⟨above, habove, h⟩ := of_bind_ok h
    cases (Coord.divideBy_ok rfl hzero).symm.trans habove
    obtain ⟨first', hfirst, h⟩ := of_bind_ok h
    obtain ⟨below, hbelow, h⟩ := of_bind_ok h
    have hbelow' : (Coord.whole v.height).divideBy k = .ok (height / k) :=
      Coord.divideBy_ok hheight hzero
    cases hbelow'.symm.trans hbelow
    obtain ⟨last', hlast, h⟩ := of_bind_ok h
    cases h
    exact ⟨hfirst, hlast⟩

section Bounds

variable {k height : Float}

theorem scaled?_minusHalf : scaled? (-0.5) = some ⟨-2 ^ 52, -53⟩ := by decide

theorem isFinite_minusHalf : (-0.5 : Float).isFinite := (isFinite_of_scaled? scaled?_minusHalf).1

@[simp] theorem value_minusHalf : value (-0.5) = -(1 / 2) := by
  rw [value_of_scaled scaled?_minusHalf]
  norm_num

/-- What the first row is found from, where pixels are not too high. -/
theorem above_isAbout (he : e.Proper) (hm : e.IsModerate) (hd : 0 < v.pixelHeight)
    (hk : IsNearest k (1 / v.pixelHeight)) (hne : k.isFinite → value k ≠ 0)
    (hnear : v.pixelHeight ≤ 2 ^ 50) :
    IsAbout (-0.5 / k - e.cy + e.ry - 1.0)
      (-(1 / 2) * v.pixelHeight - value e.cy + value e.ry - 1) (2 / 3) := by
  obtain ⟨hcy, hcy'⟩ := abs_le.mp hm.cy_le
  have hry := hm.ry_le
  have hry' := he.ry_nonneg
  have hsize : |-(1 / 2) * v.pixelHeight| ≤ 2 ^ 49 := by
    rw [abs_le]
    constructor <;> linarith
  have h := quotient_isAbout isFinite_minusHalf hd hk hne (by rw [value_minusHalf]; norm_num)
    (by rw [value_minusHalf]; norm_num) (by rwa [value_minusHalf])
  rw [value_minusHalf] at h
  have h := h.sub (b := 2 ^ 50) he.finite_cy (le_sub_iff_add_le.mp (abs_le.mpr (by
    constructor <;> linarith))) (by norm_num) (by norm_num)
  have h := h.add (b := 2 ^ 50) he.finite_ry (le_sub_iff_add_le.mp (abs_le.mpr (by
    constructor <;> linarith))) (by norm_num) (by norm_num)
  have h := h.sub (b := 2 ^ 50) isFinite_one (le_sub_iff_add_le.mp (abs_le.mpr (by
    rw [value_one]
    constructor <;> linarith))) (by norm_num) (by norm_num)
  rw [value_one] at h
  exact h.mono (by norm_num)

/-- Where they are, all rows are below the edge of the device. -/
theorem above_isBeyond (he : e.Proper) (hm : e.IsModerate)
    (hk : IsNearest k (1 / v.pixelHeight)) (hne : k.isFinite → value k ≠ 0)
    (hfar : 2 ^ 50 ≤ v.pixelHeight) :
    IsBeyond .negative (-0.5 / k - e.cy + e.ry - 1.0) ((0 : ℤ) : ℚ) := by
  obtain ⟨hcy, -⟩ := abs_le.mp hm.cy_le
  have hry := hm.ry_le
  have hd : 0 < v.pixelHeight := by linarith
  have habs : |(-(1 / 2) : ℚ)| = 1 / 2 := by norm_num
  have h := quotient_isBeyond (s := .negative) isFinite_minusHalf hd hk hne
    (by rw [value_minusHalf, habs]; norm_num [signFactor])
    (by rw [value_minusHalf, habs]; exact ⟨1, -50, by norm_num, by norm_num, by norm_num⟩)
    (by rw [value_minusHalf]; norm_num)
    (by rw [value_minusHalf, abs_mul, habs, abs_of_pos hd]; linarith)
  have h := h.sub (r := -2 ^ 48) he.finite_cy (isBinary_zpow (e := 48) (by norm_num)).neg
    (lt_overflow (by norm_num)) (by simp only [signFactor]; linarith)
  have hzero : IsBinary ((0 : ℤ) : ℚ) := isBinary_intCast (by norm_num)
  have h := h.add he.finite_ry hzero (lt_overflow (by norm_num))
    (by simp only [signFactor]; push_cast; linarith)
  exact h.sub isFinite_one hzero (lt_overflow (by norm_num))
    (by rw [value_one]; norm_num [signFactor])

/-- What the last row is found from, where the view box is not too high. -/
theorem below_isAbout (hv : v.IsSound) (he : e.Proper) (hm : e.IsModerate)
    (hk : IsNearest k (1 / v.pixelHeight)) (hne : k.isFinite → value k ≠ 0)
    (hfinite : height.isFinite) (hheight : value height = v.height)
    (hnear : value v.viewHeight ≤ 2 ^ 49) :
    IsAbout (height / k - e.cy + e.ry + 1.0)
      (value v.viewHeight - value e.cy + value e.ry + 1) (2 / 3) := by
  obtain ⟨hcy, hcy'⟩ := abs_le.mp hm.cy_le
  have hry := hm.ry_le
  have hry' := he.ry_nonneg
  have hpos := hv.viewHeight_pos
  obtain ⟨hone, hside⟩ := hv.height_cast
  have habs : |(v.height : ℚ)| = v.height := abs_of_nonneg (by linarith)
  have h := quotient_isAbout hfinite hv.pixelHeight_pos hk hne
    (by rw [hheight, habs]; linarith) (by rwa [hheight, habs])
    (by rwa [hheight, hv.height_mul, abs_of_pos hpos])
  rw [hheight, hv.height_mul] at h
  have h := h.sub (b := 2 ^ 50) he.finite_cy (le_sub_iff_add_le.mp (abs_le.mpr (by
    constructor <;> linarith))) (by norm_num) (by norm_num)
  have h := h.add (b := 2 ^ 50 + 1) he.finite_ry (le_sub_iff_add_le.mp (abs_le.mpr (by
    constructor <;> linarith))) (by norm_num) (by norm_num)
  have h := h.add (b := 2 ^ 50 + 2) isFinite_one (le_sub_iff_add_le.mp (abs_le.mpr (by
    rw [value_one]
    constructor <;> linarith))) (by norm_num) (by norm_num)
  rw [value_one] at h
  exact h.mono (by norm_num)

/-- Where it is, all rows are above the end of the device. -/
theorem below_isBeyond (hv : v.IsSound) (he : e.Proper) (hm : e.IsModerate)
    (hk : IsNearest k (1 / v.pixelHeight)) (hne : k.isFinite → value k ≠ 0)
    (hfinite : height.isFinite) (hheight : value height = v.height)
    (hfar : 2 ^ 49 ≤ value v.viewHeight) :
    IsBeyond .positive (height / k - e.cy + e.ry + 1.0) ((2 * ⌊value e.ry⌋ + 1 : ℤ) : ℚ) := by
  obtain ⟨-, hcy⟩ := abs_le.mp hm.cy_le
  have hry := hm.ry_le
  have hfloor := Int.floor_le (value e.ry)
  have hfloor' := hm.floor_ry_le
  have hfloor0 : 0 ≤ ⌊value e.ry⌋ := Int.floor_nonneg.mpr he.ry_nonneg
  obtain ⟨hone, hside⟩ := hv.height_cast
  have habs : |(v.height : ℚ)| = v.height := abs_of_nonneg (by linarith)
  have h := quotient_isBeyond (s := .positive) hfinite hv.pixelHeight_pos hk hne
    (by rw [hheight, habs]; exact one_mul _)
    (by rw [hheight, habs]; exact hv.isBinary_height_div)
    (by rwa [hheight, habs])
    (by rwa [hheight, hv.height_mul, abs_of_pos hv.viewHeight_pos])
  have h := h.sub (r := 2 ^ 48) he.finite_cy (isBinary_zpow (e := 48) (by norm_num))
    (lt_overflow (by norm_num)) (by simp only [signFactor]; linarith)
  have hwhole : |2 * ⌊value e.ry⌋| ≤ 2 ^ 53 := abs_le.mpr ⟨by omega, by omega⟩
  have hwhole' : |2 * ⌊value e.ry⌋ + 1| ≤ 2 ^ 53 := abs_le.mpr ⟨by omega, by omega⟩
  have h := h.add (r := (2 * ⌊value e.ry⌋ : ℤ)) he.finite_ry (isBinary_intCast hwhole)
    (lt_overflow (by exact_mod_cast hwhole)) (by simp only [signFactor]; push_cast; linarith)
  exact h.add isFinite_one (isBinary_intCast hwhole') (lt_overflow (by exact_mod_cast hwhole'))
    (by simp only [signFactor]; rw [value_one]; push_cast; linarith)

end Bounds

/-! ## 4. The rows that are visited -/

/-- **Every row that lands on the device is visited,** if the ellipse is moderate.  The row to spare
on both sides is more than all the roundings. -/
theorem visibleRows_cover (hv : v.IsSound) (he : e.Proper) (hm : e.IsModerate) {first last n : ℤ}
    (hrows : e.visibleRows v ⌊value e.ry⌋ = .ok (first, last)) (hlow : 0 ≤ row)
    (hhigh : row ≤ 2 * ⌊value e.ry⌋ + 1) {y : Float} (hy : e.rowHeight ⌊value e.ry⌋ row = .ok y)
    (hn : v.scaleY (.real (e.cy + y)) = .ok (.whole n)) (hn0 : 0 ≤ n) (hnh : n < v.height) :
    first ≤ row ∧ row ≤ last := by
  obtain ⟨k, height, hk, hne, hfinite, hheight, hfirst, hlast⟩ := of_visibleRows hv hrows
  obtain ⟨habove, hbelow⟩ := row_of_scaleY hv he hm hlow (by omega) hy hn hn0 hnh
  constructor
  · by_contra hout
    rcases le_or_gt v.pixelHeight (2 ^ 50) with hnear | hfar
    · have h := above_isAbout he hm hv.pixelHeight_pos hk hne hnear
      have hle := add_one_le_of_lt_floorWithin hfirst h.finite hlow (not_le.mp hout)
      linarith [(abs_le.mp h.near).2]
    · have := floorWithin_le hfirst (above_isBeyond he hm hk hne hfar.le)
      omega
  · by_contra hout
    rcases le_or_gt (value v.viewHeight) (2 ^ 49) with hnear | hfar
    · have h := below_isAbout hv he hm hk hne hfinite hheight hnear
      have hlt := lt_of_floorWithin_lt hlast h.finite hhigh (not_le.mp hout)
      linarith [(abs_le.mp h.near).1]
    · have := le_floorWithin hlast (below_isBeyond hv he hm hk hne hfinite hheight hfar.le)
      omega

end Ellipse

end VectorPaint
