/-
# Which sizes select the nearest font

A size selects the font whose height is nearest to it, the smaller one of two that are equally
near, so a larger size should never select a smaller font.  But the distances that are compared are
computed, and a difference has no more than 53 digits.

* Up to a size of ten nothing is lost.  The comparison that decides is between distances that are
  exact, and the others follow from the order that rounding keeps (`ofSize_of_le_ten`).
* Above ten the large font is selected exactly if its computed distance is less than that of the
  middle one (`ofSize_eq_large_iff`).  Both distances are exact up to `2 ^ 55 + 8`.  From there on
  they are rounded, and they stay apart only where the last digit of the size is even, up to
  `2 ^ 57` (`rounded_abs_sub_lt_iff`).
* The distances of an infinity are all infinite, and the first font is kept (`ofSize_infinity`).

A size whose distances stay apart is discerned (`IsDiscerned`).  These are exactly the sizes that
select the nearest font, and exactly those that no smaller size exceeds (`grows_and_suits_iff`).
-/
import VectorPaint.Proofs.Faults
import VectorPaint.Proofs.Float.Monotone
import VectorPaint.Proofs.Float.Nearness

namespace VectorPaint

open Number
open Float.Model (UnpackedFloat pack)
open Float.Model.UnpackedFloat (Sign)

namespace Number

/-! ## 1. Floats without their sign -/

variable {x : Float}

/-- A finite float without its sign is finite, and a number without its sign. -/
theorem abs_of_isFinite (hx : x.isFinite) : x.abs.isFinite ∧ value x.abs = |value x| := by
  have hx' : x.toModel.unpack.isFinite := hx
  have hfits := fits_unpack x.toModel
  have hunpack : Fits x.toModel.unpack.abs ∧ x.toModel.unpack.abs.isFinite ∧
      unpackedValue x.toModel.unpack.abs = |unpackedValue x.toModel.unpack| := by
    generalize x.toModel.unpack = u at hx' hfits ⊢
    cases u with
    | infinity s => cases hx'
    | notANumber => cases hx'
    | zero s => exact ⟨trivial, rfl, abs_zero.symm⟩
    | finite s m e hm =>
      refine ⟨hfits, rfl, ?_⟩
      rw [abs_unpackedValue_finite]
      exact one_mul _
  obtain ⟨hfitsAbs, hfinite, hvalue⟩ := hunpack
  have hpack : x.abs.toModel.unpack = x.toModel.unpack.abs := unpack_pack hfitsAbs
  refine ⟨?_, ?_⟩
  · change x.abs.toModel.unpack.isFinite
    rw [hpack]
    exact hfinite
  · simp only [value]
    rw [hpack, hvalue]

/-- Without its sign an infinity is the upper one. -/
theorem unpack_abs_infinity {s : Sign} (hx : x.toModel.unpack = .infinity s) :
    x.abs.toModel.unpack = .infinity .positive := by
  have habs : x.toModel.unpack.abs = .infinity .positive := by rw [hx]; rfl
  exact (congrArg (fun u => (pack u).unpack) habs).trans (unpack_pack trivial)

theorem le_iff_compare {x y : Float} :
    x ≤ y ↔ (x.toModel.unpack.compare y.toModel.unpack).any (·.isLE) = true := by
  change decide (x.toModel ≤ y.toModel) = true ↔ _
  rw [decide_eq_true_iff]
  rfl

/-- A positive float that is not finite is above all finite ones, and not up to them. -/
theorem infinity_of_pos {x y : Float} (hx : 0.0 < x) (hinf : ¬ x.isFinite) (hy : y.isFinite) :
    y ≤ x ∧ ¬ x ≤ y := by
  obtain ⟨s, hs⟩ := unpack_eq_infinity (not_isNaN_of_lt hx).2 hinf
  have hy' : y.toModel.unpack.isFinite := hy
  rw [le_iff_compare, le_iff_compare, hs]
  cases s with
  | negative =>
    rw [lt_iff_compare, hs] at hx
    exact absurd hx (by decide)
  | positive =>
    generalize y.toModel.unpack = v at hy' ⊢
    cases v with
    | infinity t => cases hy'
    | notANumber => cases hy'
    | zero t => exact ⟨rfl, Bool.false_ne_true⟩
    | finite t m e hm => cases t <;> exact ⟨rfl, Bool.false_ne_true⟩

/-! ## 2. Differences that are exact -/

variable {q c : ℚ} {u : ℤ}

/-- **A difference of multiples of a digit is exact up to 53 digits.** -/
theorem isBinary_sub_of_multiple {k n : ℤ} (hu : -1074 ≤ u) (hq : q = k * 2 ^ u)
    (hc : c = n * 2 ^ u) (h : |q - c| ≤ 2 ^ (u + 53)) : IsBinary (q - c) := by
  have hsub : q - c = ((k - n : ℤ) : ℚ) * 2 ^ u := by
    rw [hq, hc]
    push_cast
    ring
  refine ⟨k - n, u, ?_, hu, hsub⟩
  have hsplit : (2 : ℚ) ^ (u + 53) = 2 ^ 53 * 2 ^ u := two_zpow_split u 53
  rw [hsub, abs_mul, abs_of_pos (two_zpow_pos u), hsplit] at h
  exact_mod_cast le_of_mul_le_mul_right h (two_zpow_pos u)

/-- A number with few digits is a multiple of its last one. -/
theorem IsBinary.eq_multiple (hq : IsBinary q) : ∃ k : ℤ, q = k * 2 ^ unit q :=
  ⟨halfEven (q / 2 ^ unit q), (rounded_of_isBinary hq).symm⟩

/-- It is then a multiple of every finer digit. -/
theorem IsBinary.eq_multiple_of_le (hq : IsBinary q) (hu : u ≤ unit q) :
    ∃ k : ℤ, q = k * 2 ^ u := by
  obtain ⟨k, hk⟩ := hq.eq_multiple
  refine ⟨k * 2 ^ (unit q - u).toNat, ?_⟩
  push_cast
  rw [mul_assoc, ← zpow_natCast, ← zpow_add₀ two_ne_zero, Int.toNat_of_nonneg (by omega),
    sub_add_cancel]
  exact hk

/-- **A multiple of a coarser digit that leads to no greater number can be subtracted exactly.** -/
theorem IsBinary.sub_multiple (hq : IsBinary q) {n : ℤ} (hc : c = n * 2 ^ u) (hu : unit q ≤ u)
    (h : |q - c| ≤ |q|) : IsBinary (q - c) := by
  obtain ⟨k, hk⟩ := hq.eq_multiple
  refine isBinary_sub_of_multiple (n := n * 2 ^ (u - unit q).toNat) (neg_le_unit q) hk ?_
    (h.trans (abs_lt_unit q).le)
  push_cast
  rw [mul_assoc, ← zpow_natCast, ← zpow_add₀ two_ne_zero, Int.toNat_of_nonneg (by omega),
    sub_add_cancel]
  exact hc

/-- A difference whose last digit divides the minuend is rounded after the digit is cancelled. -/
theorem rounded_sub_of_multiple {k : ℤ} (hq : q = k * 2 ^ u) (hu : unit (q - c) = u) :
    rounded (q - c) = halfEven (k - c / 2 ^ u) * 2 ^ u := by
  have hdiv : (q - c) / 2 ^ u = k - c / 2 ^ u := by
    rw [hq, sub_div, mul_div_cancel_right₀ _ (two_zpow_pos u).ne']
  simp only [rounded]
  rw [hu, hdiv]

/-- Three halves below a whole number the lower neighbor is nearest to an even one. -/
theorem halfEven_sub_three_halves_lt_iff (k : ℤ) : halfEven (k - 3 / 2) < k - 1 ↔ Even k := by
  obtain ⟨j, rfl | rfl⟩ := Int.even_or_odd' k
  · have htie : ((2 * j : ℤ) : ℚ) - 3 / 2 = ((2 * (j - 1) : ℤ) : ℚ) + 1 / 2 := by
      push_cast
      ring
    rw [htie, halfEven_tie]
    exact iff_of_true (by omega) (even_two_mul j)
  · have htie : ((2 * j + 1 : ℤ) : ℚ) - 3 / 2 = -(((2 * -j : ℤ) : ℚ) + 1 / 2) := by
      push_cast
      ring
    rw [htie, halfEven_neg, halfEven_tie]
    exact iff_of_false (by omega) (Int.not_even_two_mul_add_one j)

/-- Three quarters and one half below a whole number different ones are nearest only to an even
one. -/
theorem halfEven_sub_three_quarters_lt_iff (k : ℤ) :
    halfEven (k - 3 / 4) < halfEven (k - 1 / 2) ↔ Even k := by
  have hquarters : halfEven ((k : ℚ) - 3 / 4) = k - 1 := by
    refine halfEven_of_near ?_
    push_cast
    rw [abs_lt]
    constructor <;> linarith
  rw [hquarters]
  obtain ⟨j, rfl | rfl⟩ := Int.even_or_odd' k
  · have htie : ((2 * j : ℤ) : ℚ) - 1 / 2 = -(((2 * -j : ℤ) : ℚ) + 1 / 2) := by
      push_cast
      ring
    rw [htie, halfEven_neg, halfEven_tie]
    exact iff_of_true (by omega) (even_two_mul j)
  · have htie : ((2 * j + 1 : ℤ) : ℚ) - 1 / 2 = ((2 * j : ℤ) : ℚ) + 1 / 2 := by
      push_cast
      ring
    rw [htie, halfEven_tie]
    exact iff_of_false (by omega) (Int.not_even_two_mul_add_one j)

end Number

namespace Font

/-! ## 3. Sizes that are discerned -/

/-- A number so large that the distances from it need more than 53 digits is discerned if its last
digit is even, up to `2 ^ 57`.  All lesser numbers are. -/
def Discerned (q : ℚ) : Prop :=
  q ≤ 2 ^ 55 + 8 ∨ q ≤ 2 ^ 56 ∧ (∃ k : ℤ, q = 16 * k) ∨ q ≤ 2 ^ 57 ∧ ∃ k : ℤ, q = 32 * k

/-- A size that is discerned. -/
def IsDiscerned (size : Float) : Prop := size.isFinite ∧ Discerned (value size)

variable {q : ℚ}

/-- Up to here the distances from the two larger fonts are exact. -/
theorem isBinary_sub (hq : IsBinary q) (hlow : 10 < q) (hhigh : q ≤ 2 ^ 55 + 8) {n : ℤ}
    (hn : n = 2 ∨ n = 3) : IsBinary (q - 4 * n) := by
  have habs : |q - 4 * n| ≤ q - 8 := by
    rw [abs_le]
    rcases hn with rfl | rfl <;> push_cast <;> constructor <;> linarith
  have hfour : (4 * n : ℚ) = n * 2 ^ (2 : ℤ) := by
    norm_num
    ring
  rcases le_total (unit q) 2 with hfine | hcoarse
  · refine hq.sub_multiple hfour hfine ?_
    rw [abs_of_pos (show 0 < q by linarith)]
    linarith
  · obtain ⟨k, hk⟩ := hq.eq_multiple_of_le hcoarse
    refine isBinary_sub_of_multiple (by norm_num) hk hfour ?_
    norm_num
    linarith

/-- Distances of which a digit is the last one are compared after it is cancelled. -/
theorem rounded_sub_lt_iff_halfEven {k e : ℤ} (he : -1074 ≤ e) (hk : q = k * 2 ^ e)
    (hlow : 2 ^ (e + 52) + 12 ≤ q) (hhigh : q ≤ 2 ^ (e + 53)) :
    rounded (q - 12) < rounded (q - 8) ↔
      halfEven (k - 12 / 2 ^ e) < halfEven (k - 8 / 2 ^ e) := by
  have hdigit : ∀ c : ℚ, 0 < c → c ≤ 12 → unit (q - c) = e := by
    intro c hc hc'
    have hpos : 0 < q - c := by
      have := two_zpow_pos (e + 52)
      linarith
    refine unit_eq (Or.inr ⟨he, ?_⟩) ?_ <;> rw [abs_of_pos hpos] <;> linarith
  rw [rounded_sub_of_multiple hk (hdigit 12 (by norm_num) (by norm_num)),
    rounded_sub_of_multiple hk (hdigit 8 (by norm_num) (by norm_num)),
    mul_lt_mul_iff_left₀ (two_zpow_pos e), Int.cast_lt]

/-- A multiple of a digit is one of twice the digit if it is an even multiple. -/
theorem exists_eq_two_mul_iff {k : ℤ} {d : ℚ} (hd : d ≠ 0) :
    (∃ j : ℤ, k * d = 2 * d * j) ↔ Even k := by
  refine exists_congr fun j => ?_
  have hswap : (2 : ℚ) * d * j = ((j + j : ℤ) : ℚ) * d := by
    push_cast
    ring
  rw [hswap, mul_left_inj' hd, Int.cast_inj]

/-- A number beyond a multiple of a digit that has 53 digits from there on is a multiple of it as
well, the next one at the least. -/
theorem exists_eq_mul_two_zpow (hq : IsBinary q) {e m : ℤ} (hm : 2 ^ 52 ≤ m)
    (h : m * 2 ^ e < q) : ∃ k : ℤ, q = k * 2 ^ e ∧ (m : ℚ) + 1 ≤ k := by
  have hpos := two_zpow_pos e
  have hm' : (2 ^ 52 : ℚ) ≤ m := by exact_mod_cast hm
  have hlead : (2 : ℚ) ^ (e + 52) ≤ |q| := by
    have hsplit : (2 : ℚ) ^ (e + 52) = 2 ^ 52 * 2 ^ e := two_zpow_split e 52
    rw [hsplit]
    exact (mul_le_mul_of_nonneg_right hm' hpos.le).trans (h.le.trans (le_abs_self q))
  obtain ⟨k, rfl⟩ := hq.eq_multiple_of_le (le_unit hlead)
  have hlt : m < k := by exact_mod_cast lt_of_mul_lt_mul_right h hpos.le
  exact ⟨k, rfl, by exact_mod_cast hlt⟩

/-- From `2 ^ 55 + 8` to `2 ^ 56` the distances lack one digit, and they differ if the size lacks
it as well. -/
theorem rounded_sub_lt_iff_of_le (hq : IsBinary q) (hlow : 2 ^ 55 + 8 < q) (hhigh : q ≤ 2 ^ 56) :
    rounded (q - 12) < rounded (q - 8) ↔ ∃ k : ℤ, q = 16 * k := by
  obtain ⟨k, hk, hnext⟩ := exists_eq_mul_two_zpow (e := 3) (m := 2 ^ 52 + 1) hq (by norm_num)
    (by norm_num; linarith)
  have hlarge : (k : ℚ) - 12 / 2 ^ (3 : ℤ) = k - 3 / 2 := by norm_num
  have hmedium : (k : ℚ) - 8 / 2 ^ (3 : ℤ) = ((k - 1 : ℤ) : ℚ) := by norm_num
  rw [rounded_sub_lt_iff_halfEven (by norm_num) hk (by norm_num at hk hnext ⊢; linarith)
    (by norm_num; linarith), hlarge, hmedium, halfEven_intCast, halfEven_sub_three_halves_lt_iff,
    ← exists_eq_two_mul_iff (d := 8) (by norm_num)]
  norm_num at hk ⊢
  rw [hk]

/-- From `2 ^ 56` to `2 ^ 57` they lack two, and differ under the same condition. -/
theorem rounded_sub_lt_iff_of_lt (hq : IsBinary q) (hlow : 2 ^ 56 < q) (hhigh : q ≤ 2 ^ 57) :
    rounded (q - 12) < rounded (q - 8) ↔ ∃ k : ℤ, q = 32 * k := by
  obtain ⟨k, hk, hnext⟩ := exists_eq_mul_two_zpow (e := 4) (m := 2 ^ 52) hq (by norm_num)
    (by norm_num; linarith)
  have hlarge : (k : ℚ) - 12 / 2 ^ (4 : ℤ) = k - 3 / 4 := by norm_num
  have hmedium : (k : ℚ) - 8 / 2 ^ (4 : ℤ) = k - 1 / 2 := by norm_num
  rw [rounded_sub_lt_iff_halfEven (by norm_num) hk (by norm_num at hk hnext ⊢; linarith)
    (by norm_num; linarith), hlarge, hmedium, halfEven_sub_three_quarters_lt_iff,
    ← exists_eq_two_mul_iff (d := 16) (by norm_num)]
  norm_num at hk ⊢
  rw [hk]

/-- Where they lack more, the distance from the large font is the size itself, and no distance is
greater. -/
theorem not_rounded_sub_lt (hq : IsBinary q) (hlow : 2 ^ 57 < q) :
    ¬ rounded (q - 12) < rounded (q - 8) := by
  obtain ⟨k, hk, hnext⟩ := exists_eq_mul_two_zpow (e := 5) (m := 2 ^ 52) hq (by norm_num)
    (by norm_num; linarith)
  norm_num at hk hnext
  have hpos : 0 < q - 12 := by linarith
  have hfive : 5 ≤ unit (q - 12) := by
    refine le_unit ?_
    rw [abs_of_pos hpos]
    norm_num
    linarith
  have hle : unit (q - 12) ≤ unit q := by
    refine unit_mono ?_
    rw [abs_of_pos hpos, abs_of_pos (by linarith)]
    linarith
  obtain ⟨j, hj⟩ := hq.eq_multiple_of_le hle
  have hcoarse := two_zpow_le hfive
  have hnear : halfEven (j - 12 / 2 ^ unit (q - 12)) = j := by
    have hsmall : 12 / 2 ^ unit (q - 12) < (1 / 2 : ℚ) := by
      rw [div_lt_iff₀ (two_zpow_pos _)]
      norm_num at hcoarse
      linarith
    refine halfEven_of_near ?_
    rw [sub_sub_cancel_left, abs_neg, abs_of_pos (div_pos (by norm_num) (two_zpow_pos _))]
    exact hsmall
  rw [not_lt, rounded_sub_of_multiple hj rfl, hnear, ← hj]
  exact rounded_le hq (by linarith)

/-- **The computed distance from the large font is the lesser one exactly from the sizes that are
discerned.**  The cases are how many digits the distances lack. -/
theorem rounded_abs_sub_lt_iff (hq : IsBinary q) (hlow : 10 < q) :
    rounded |q - 12| < rounded |q - 8| ↔ Discerned q := by
  rcases le_or_gt q (2 ^ 55 + 8) with hexact | hlong
  · have hlarge := isBinary_sub hq hlow hexact (Or.inr rfl)
    have hmedium := isBinary_sub hq hlow hexact (Or.inl rfl)
    norm_num only [Int.cast_ofNat] at hlarge hmedium
    rw [← abs_rounded, ← abs_rounded, rounded_of_isBinary hlarge, rounded_of_isBinary hmedium]
    refine iff_of_true ?_ (Or.inl hexact)
    rw [abs_of_pos (show 0 < q - 8 by linarith), abs_lt]
    constructor <;> linarith
  rw [abs_of_pos (show 0 < q - 12 by linarith), abs_of_pos (show 0 < q - 8 by linarith)]
  rcases le_or_gt q (2 ^ 56) with hone | hone
  · rw [rounded_sub_lt_iff_of_le hq hlong hone]
    constructor
    · exact fun h => Or.inr (Or.inl ⟨hone, h⟩)
    · rintro (h | ⟨-, h⟩ | ⟨-, k, h⟩)
      · exact absurd h (not_le.mpr hlong)
      · exact h
      · refine ⟨2 * k, ?_⟩
        rw [h]
        push_cast
        ring
  rcases le_or_gt q (2 ^ 57) with htwo | htwo
  · rw [rounded_sub_lt_iff_of_lt hq hone htwo]
    constructor
    · exact fun h => Or.inr (Or.inr ⟨htwo, h⟩)
    · rintro (h | ⟨h, -⟩ | ⟨-, h⟩)
      · exact absurd h (not_le.mpr hlong)
      · exact absurd h (not_le.mpr hone)
      · exact h
  · refine iff_of_false (not_rounded_sub_lt hq htwo) ?_
    rintro (h | ⟨h, -⟩ | ⟨h, -⟩) <;> linarith

/-! ## 4. What a size selects -/

/-- The sizes of the fonts taken apart. -/
theorem scaled?_sizes : scaled? 5.0 = some ⟨5 * 2 ^ 50, -50⟩ ∧ scaled? 8.0 = some ⟨2 ^ 52, -49⟩ ∧
    scaled? 12.0 = some ⟨3 * 2 ^ 51, -49⟩ := by
  decide

theorem isFinite_five : (5.0 : Float).isFinite := (isFinite_of_scaled? scaled?_sizes.1).1

theorem isFinite_eight : (8.0 : Float).isFinite := (isFinite_of_scaled? scaled?_sizes.2.1).1

theorem isFinite_twelve : (12.0 : Float).isFinite := (isFinite_of_scaled? scaled?_sizes.2.2).1

@[simp] theorem value_five : value 5.0 = 5 := by
  rw [value_of_scaled scaled?_sizes.1]
  norm_num

@[simp] theorem value_eight : value 8.0 = 8 := by
  rw [value_of_scaled scaled?_sizes.2.1]
  norm_num

@[simp] theorem value_twelve : value 12.0 = 12 := by
  rw [value_of_scaled scaled?_sizes.2.2]
  norm_num

/-- The three distances are compared in the order of the sizes. -/
theorem ofSize_of_pos {t : Float} (ht : 0.0 < t) :
    ofSize t =
      if (t - 8.0).abs < (t - 5.0).abs then
        if (t - 12.0).abs < (t - 8.0).abs then large else medium
      else if (t - 12.0).abs < (t - 5.0).abs then large else small := by
  simp only [ofSize, sizes, List.foldl, nearer]
  rw [if_pos ht]
  by_cases hmedium : (t - 8.0).abs < (t - 5.0).abs
  · rw [if_pos hmedium, if_pos hmedium]
    by_cases hlarge : (t - 12.0).abs < (t - 8.0).abs
    · simp only [if_pos hlarge]
    · simp only [if_neg hlarge]
  · rw [if_neg hmedium, if_neg hmedium]
    by_cases hlarge : (t - 12.0).abs < (t - 5.0).abs
    · simp only [if_pos hlarge]
    · simp only [if_neg hlarge]

/-- The computed distances of an infinity are infinite, and none is less than another. -/
theorem ofSize_infinity {t : Float} (ht : 0.0 < t) (hinf : ¬ t.isFinite) : ofSize t = small := by
  obtain ⟨s, hs⟩ := unpack_eq_infinity (not_isNaN_of_lt ht).2 hinf
  have hnot : ∀ {size other : Float}, size.isFinite → other.isFinite →
      ¬ (t - size).abs < (t - other).abs := by
    intro size other hsize hother
    rw [lt_iff_compare, unpack_abs_infinity (unpack_sub_infinity hs hsize),
      unpack_abs_infinity (unpack_sub_infinity hs hother)]
    decide
  rw [ofSize_of_pos ht, if_neg (hnot isFinite_eight isFinite_five),
    if_neg (hnot isFinite_twelve isFinite_five)]

/-- The computed distance of a finite size is the rounded one. -/
theorem abs_sub_of_isFinite {t size : Float} (ht : t.isFinite) (hpos : 0 < value t)
    (hsize : size.isFinite) (hpos' : 0 < value size) :
    (t - size).abs.isFinite ∧ value (t - size).abs = rounded |value t - value size| := by
  have hrange : |value t - value size| < overflow := by
    have h := (abs_lt.mp (abs_value_lt t)).2
    have h' := (abs_lt.mp (abs_value_lt size)).2
    rw [abs_lt]
    constructor <;> linarith
  obtain ⟨hfinite, hvalue⟩ := (isNearest_sub ht hsize).within hrange
  rw [← abs_rounded, ← hvalue]
  exact abs_of_isFinite hfinite

/-- **A finite size selects a font by its rounded distances.** -/
theorem ofSize_of_isFinite {t : Float} (ht : t.isFinite) (hpos : 0 < value t) :
    ofSize t =
      if rounded |value t - 8| < rounded |value t - 5| then
        if rounded |value t - 12| < rounded |value t - 8| then large else medium
      else if rounded |value t - 12| < rounded |value t - 5| then large else small := by
  obtain ⟨hfive, hfive'⟩ := abs_sub_of_isFinite ht hpos isFinite_five (by norm_num)
  obtain ⟨height, height'⟩ := abs_sub_of_isFinite ht hpos isFinite_eight (by norm_num)
  obtain ⟨htwelve, htwelve'⟩ := abs_sub_of_isFinite ht hpos isFinite_twelve (by norm_num)
  have hzero : 0.0 < t := (lt_iff isFinite_zero ht).mpr (by rwa [value_zero])
  rw [value_five] at hfive'
  rw [value_eight] at height'
  rw [value_twelve] at htwelve'
  simp only [ofSize_of_pos hzero, lt_iff height hfive, lt_iff htwelve height, lt_iff htwelve hfive,
    hfive', height', htwelve']

/-! ## 5. The nearest font -/

/-- Of two numbers the lesser one is at least as near up to their middle. -/
theorem abs_sub_le_iff_of_lt {q a b : ℚ} (h : a < b) : |q - a| ≤ |q - b| ↔ 2 * q ≤ a + b := by
  have hsquares : (q - b) ^ 2 - (q - a) ^ 2 = (b - a) * (a + b - 2 * q) := by ring
  rw [← sq_le_sq, ← sub_nonneg, hsquares, mul_nonneg_iff_of_pos_left (sub_pos.mpr h), sub_nonneg]

/-- A font whose size is nearest to a number, and nearer than the sizes of all smaller fonts. -/
def Suits (q : ℚ) (font : Font) : Prop :=
  ∃ size : Float, (size, font) ∈ sizes ∧ ∀ other ∈ sizes,
    |q - value size| ≤ |q - value other.1| ∧
      (other.2.charHeight < font.charHeight → |q - value size| < |q - value other.1|)

/-- The font between whose bounds a number lies. -/
def nearestTo (q : ℚ) : Font := if q ≤ 13 / 2 then small else if q ≤ 10 then medium else large

variable {q : ℚ} {font other : Font}

/-- A font that suits a number is not larger than another one. -/
theorem Suits.charHeight_le (h : Suits q font) (hother : Suits q other) :
    font.charHeight ≤ other.charHeight := by
  obtain ⟨size, hmem, hbest⟩ := h
  obtain ⟨size', hmem', hbest'⟩ := hother
  by_contra hlt
  have hnear := (hbest _ hmem').2 (not_le.mp hlt)
  exact absurd (hbest' _ hmem).1 (not_le.mpr hnear)

/-- The fonts differ in their heights. -/
theorem eq_of_charHeight {size size' : Float} (h : (size, font) ∈ sizes)
    (h' : (size', other) ∈ sizes) (heq : font.charHeight = other.charHeight) : font = other := by
  simp only [sizes, List.mem_cons, Prod.mk.injEq, List.not_mem_nil, or_false] at h h'
  rcases h with ⟨-, rfl⟩ | ⟨-, rfl⟩ | ⟨-, rfl⟩ <;>
    rcases h' with ⟨-, rfl⟩ | ⟨-, rfl⟩ | ⟨-, rfl⟩ <;> revert heq <;> decide

theorem forall_sizes {P : Float × Font → Prop} :
    (∀ size ∈ sizes, P size) ↔ P (5.0, small) ∧ P (8.0, medium) ∧ P (12.0, large) := by
  simp [sizes]

/-- The font between whose bounds a number lies suits it. -/
theorem suits_nearestTo (q : ℚ) : Suits q (nearestTo q) := by
  have hsmall : |q - 5| ≤ |q - 8| ↔ 2 * q ≤ 5 + 8 := abs_sub_le_iff_of_lt (by norm_num)
  have hmedium : |q - 8| ≤ |q - 12| ↔ 2 * q ≤ 8 + 12 := abs_sub_le_iff_of_lt (by norm_num)
  have hsame : ∀ {m : ℤ} {P : Prop}, m < m → P := fun h => absurd h (lt_irrefl _)
  simp only [nearestTo]
  split
  · have hnear := hsmall.mpr (by linarith)
    have hfar := hmedium.mpr (by linarith)
    refine ⟨5.0, by simp [sizes], forall_sizes.mpr ?_⟩
    simp only [value_five, value_eight, value_twelve]
    exact ⟨⟨le_rfl, hsame⟩, ⟨hnear, fun h => absurd h (by decide)⟩,
      hnear.trans hfar, fun h => absurd h (by decide)⟩
  · have hnear : |q - 8| < |q - 5| := not_le.mp fun h => by linarith [hsmall.mp h]
    split
    · refine ⟨8.0, by simp [sizes], forall_sizes.mpr ?_⟩
      have hfar := hmedium.mpr (by linarith)
      simp only [value_five, value_eight, value_twelve]
      exact ⟨⟨hnear.le, fun _ => hnear⟩, ⟨le_rfl, hsame⟩, hfar, fun h => absurd h (by decide)⟩
    · have hnearest : |q - 12| < |q - 8| := not_le.mp fun h => by linarith [hmedium.mp h]
      have htransitive := hnearest.trans hnear
      refine ⟨12.0, by simp [sizes], forall_sizes.mpr ?_⟩
      simp only [value_five, value_eight, value_twelve]
      exact ⟨⟨htransitive.le, fun _ => htransitive⟩, ⟨hnearest.le, fun _ => hnearest⟩,
        le_rfl, hsame⟩

/-- **It is the only one that does.** -/
theorem suits_iff : Suits q font ↔ font = nearestTo q := by
  constructor
  · intro h
    have hnearest := suits_nearestTo q
    have heq := le_antisymm (h.charHeight_le hnearest) (hnearest.charHeight_le h)
    obtain ⟨size, hmem, -⟩ := h
    obtain ⟨size', hmem', -⟩ := hnearest
    exact eq_of_charHeight hmem hmem' heq
  · rintro rfl
    exact suits_nearestTo q

/-- Larger numbers are suited by larger fonts. -/
theorem charHeight_nearestTo_mono {p q : ℚ} (h : p ≤ q) :
    (nearestTo p).charHeight ≤ (nearestTo q).charHeight := by
  by_cases hsmall : q ≤ 13 / 2
  · rw [nearestTo, nearestTo, if_pos hsmall, if_pos (h.trans hsmall)]
  by_cases hmedium : q ≤ 10
  · simp only [nearestTo]
    rw [if_neg hsmall, if_pos hmedium, if_pos (h.trans hmedium)]
    split <;> decide
  · simp only [nearestTo]
    rw [if_neg hsmall, if_neg hmedium]
    split_ifs <;> decide

/-- Whole numbers up to twice a number below `2 ^ 53` can be subtracted exactly. -/
theorem rounded_sub_intCast (hq : IsBinary q) (hpos : 0 < q) (hsmall : q < 2 ^ 53) {n : ℤ}
    (hn : 0 ≤ (n : ℚ)) (hle : n ≤ 2 * q) : rounded (q - n) = q - n := by
  have hfine : unit q ≤ 0 := by
    refine unit_le_of_abs_lt (by norm_num) ?_
    rw [abs_of_pos hpos]
    exact_mod_cast hsmall
  refine rounded_of_isBinary (hq.sub_multiple (n := n) (by rw [zpow_zero, mul_one]) hfine ?_)
  rw [abs_of_pos hpos, abs_le]
  constructor <;> linarith

/-- **Up to ten the nearest font is selected.**  Only the comparison of the two lesser distances
has to be strict, and these are exact. -/
theorem ofSize_of_le_ten {t : Float} (ht : t.isFinite) (hpos : 0 < value t)
    (hten : value t ≤ 10) : ofSize t = nearestTo (value t) := by
  rw [ofSize_of_isFinite ht hpos, nearestTo]
  by_cases hsmall : value t ≤ 13 / 2
  · have hmedium : |value t - 5| ≤ |value t - 8| :=
      (abs_sub_le_iff_of_lt (by norm_num)).mpr (by linarith)
    have hlarge : |value t - 5| ≤ |value t - 12| :=
      (abs_sub_le_iff_of_lt (by norm_num)).mpr (by linarith)
    rw [if_neg (not_lt.mpr (rounded_mono hmedium)), if_neg (not_lt.mpr (rounded_mono hlarge)),
      if_pos hsmall]
  · have hlarge : |value t - 8| ≤ |value t - 12| :=
      (abs_sub_le_iff_of_lt (by norm_num)).mpr (by linarith)
    have hmedium : rounded |value t - 8| < rounded |value t - 5| := by
      have hfive := rounded_sub_intCast (n := 5) (isBinary_value t) hpos (by linarith)
        (by norm_num) (by norm_num; linarith)
      have height := rounded_sub_intCast (n := 8) (isBinary_value t) hpos (by linarith)
        (by norm_num) (by norm_num; linarith)
      norm_num only [Int.cast_ofNat] at hfive height
      rw [← abs_rounded, ← abs_rounded, hfive, height, ← not_le,
        abs_sub_le_iff_of_lt (by norm_num)]
      linarith
    rw [if_pos hmedium, if_neg (not_lt.mpr (rounded_mono hlarge)), if_neg hsmall, if_pos hten]

/-- Above ten the nearest font is selected if the size is discerned. -/
theorem ofSize_eq_large_iff {t : Float} (ht : t.isFinite) (hten : 10 < value t) :
    ofSize t = large ↔ Discerned (value t) := by
  have hle : rounded |value t - 8| ≤ rounded |value t - 5| := by
    refine rounded_mono ?_
    rw [abs_of_pos (by linarith), abs_of_pos (by linarith)]
    linarith
  rw [ofSize_of_isFinite ht (by linarith), ← rounded_abs_sub_lt_iff (isBinary_value t) hten]
  rcases lt_or_eq_of_le hle with hlt | heq
  · rw [if_pos hlt]
    split_ifs with h
    · exact iff_of_true rfl h
    · exact iff_of_false (by decide) h
  · rw [heq, if_neg (lt_irrefl _)]
    split_ifs with h
    · exact iff_of_true rfl h
    · exact iff_of_false (by decide) h

/-- **A finite size selects the nearest font exactly if it is discerned.** -/
theorem ofSize_eq_nearestTo_iff {t : Float} (ht : t.isFinite) (hpos : 0 < value t) :
    ofSize t = nearestTo (value t) ↔ Discerned (value t) := by
  rcases le_or_gt (value t) 10 with hten | hten
  · refine iff_of_true (ofSize_of_le_ten ht hpos hten) (Or.inl ?_)
    linarith
  · have hlarge : nearestTo (value t) = large := by
      rw [nearestTo, if_neg (by linarith), if_neg (by linarith)]
    rw [hlarge, ofSize_eq_large_iff ht hten]

/-! ## 6. Larger sizes -/

section

variable {s t : Float}

theorem charHeight_ofSize_le (ht : 0.0 < t) : (ofSize t).charHeight ≤ large.charHeight := by
  rw [ofSize_of_pos ht]
  split_ifs <;> decide

theorem eq_large_of_charHeight_le (ht : 0.0 < t) (h : large.charHeight ≤ (ofSize t).charHeight) :
    ofSize t = large := by
  rw [ofSize_of_pos ht] at h ⊢
  split_ifs at h ⊢
  · rfl
  · exact absurd h (by decide)
  · rfl
  · exact absurd h (by decide)

/-- A positive float up to a finite one is finite. -/
theorem isFinite_of_pos_of_le (hs : 0.0 < s) (hle : s ≤ t) (ht : t.isFinite) :
    s.isFinite ∧ value s ≤ value t := by
  have hfinite : s.isFinite := by
    by_contra hinf
    exact (infinity_of_pos hs hinf ht).2 hle
  exact ⟨hfinite, (le_iff hfinite ht).mp hle⟩

theorem pos_of_lt (ht : 0.0 < t) (hfinite : t.isFinite) : 0 < value t := by
  rwa [lt_iff isFinite_zero hfinite, value_zero] at ht

/-- A discerned size is selected a font that is at least as large as those of lesser sizes. -/
theorem IsDiscerned.charHeight_le (ht : IsDiscerned t) (hs : 0.0 < s) (hle : s ≤ t) :
    (ofSize s).charHeight ≤ (ofSize t).charHeight := by
  obtain ⟨hfinite, hdiscerned⟩ := ht
  obtain ⟨hsfinite, hvalue⟩ := isFinite_of_pos_of_le hs hle hfinite
  have hspos := pos_of_lt hs hsfinite
  rcases le_or_gt (value t) 10 with hten | hten
  · rw [ofSize_of_le_ten hfinite (hspos.trans_le hvalue) hten,
      ofSize_of_le_ten hsfinite hspos (hvalue.trans hten)]
    exact charHeight_nearestTo_mono hvalue
  · rw [(ofSize_eq_large_iff hfinite hten).mpr hdiscerned]
    exact charHeight_ofSize_le hs

/-- A size that is not discerned is selected a font smaller than that of twelve. -/
theorem isDiscerned_of_charHeight_le (ht : 0.0 < t)
    (h : 12.0 ≤ t → (ofSize 12.0).charHeight ≤ (ofSize t).charHeight) : IsDiscerned t := by
  have htwelve : ofSize 12.0 = large := by
    refine (ofSize_eq_large_iff isFinite_twelve ?_).mpr (Or.inl ?_) <;> rw [value_twelve] <;>
      norm_num
  rw [htwelve] at h
  by_cases hfinite : t.isFinite
  · refine ⟨hfinite, ?_⟩
    by_contra hnot
    have hlong : 2 ^ 55 + 8 < value t := not_le.mp fun hle => hnot (Or.inl hle)
    have hle : 12.0 ≤ t := by
      rw [le_iff isFinite_twelve hfinite, value_twelve]
      linarith
    have hlarge := eq_large_of_charHeight_le ht (h hle)
    exact hnot ((ofSize_eq_large_iff hfinite (by linarith)).mp hlarge)
  · have hle : 12.0 ≤ t := (infinity_of_pos ht hfinite isFinite_twelve).1
    have hlarge := eq_large_of_charHeight_le ht (h hle)
    rw [ofSize_infinity ht hfinite] at hlarge
    exact absurd hlarge (by decide)

/-- **No lesser size is selected a larger font exactly if a size is discerned, and exactly then it
selects the nearest font,** if it is finite. -/
theorem grows_and_suits_iff (ht : 0.0 < t) :
    ((∀ s : Float, 0.0 < s → s ≤ t → (ofSize s).charHeight ≤ (ofSize t).charHeight) ↔
        IsDiscerned t) ∧
      (t.isFinite → (Suits (value t) (ofSize t) ↔ IsDiscerned t)) := by
  have htwelve : (0.0 : Float) < 12.0 := by
    rw [lt_iff isFinite_zero isFinite_twelve, value_zero, value_twelve]
    norm_num
  refine ⟨⟨fun h => isDiscerned_of_charHeight_le ht (h 12.0 htwelve), ?_⟩, fun hfinite => ?_⟩
  · intro hdiscerned s hs hle
    exact hdiscerned.charHeight_le hs hle
  · rw [suits_iff, ofSize_eq_nearestTo_iff hfinite (pos_of_lt ht hfinite)]
    exact ⟨fun h => ⟨hfinite, h⟩, And.right⟩

/-- The greatest size that is discerned, `2 ^ 57`. -/
def greatestDiscerned : Float := 144115188075855872.0

/-- No size up to the greatest one that is discerned is selected a larger font, and this one is the
nearest. -/
theorem grows_and_suits_greatestDiscerned :
    (0.0 < greatestDiscerned ∧ greatestDiscerned.isFinite) ∧
      (∀ s : Float, 0.0 < s → s ≤ greatestDiscerned →
        (ofSize s).charHeight ≤ (ofSize greatestDiscerned).charHeight) ∧
      Suits (value greatestDiscerned) (ofSize greatestDiscerned) := by
  have hscaled : scaled? greatestDiscerned = some ⟨2 ^ 52, 5⟩ := by decide
  obtain ⟨hfinite, -⟩ := isFinite_of_scaled? hscaled
  have hvalue : value greatestDiscerned = 2 ^ 57 := by
    rw [value_of_scaled hscaled]
    norm_num
  have hpos : 0.0 < greatestDiscerned := by
    rw [lt_iff isFinite_zero hfinite, value_zero, hvalue]
    norm_num
  have hdiscerned : IsDiscerned greatestDiscerned := by
    refine ⟨hfinite, Or.inr (Or.inr ⟨hvalue.le, 2 ^ 52, ?_⟩)⟩
    rw [hvalue]
    norm_num
  obtain ⟨hgrows, hsuits⟩ := grows_and_suits_iff hpos
  exact ⟨⟨hpos, hfinite⟩, hgrows.mpr hdiscerned, (hsuits hfinite).mpr hdiscerned⟩

end

/-- The size that a tag has where a number is written. -/
def sizeWritten (number : Text) : Float :=
  Markup.numberOf ("font-size=\"".toList ++ number ++ ['"'])
    ['f', 'o', 'n', 't', '-', 's', 'i', 'z', 'e']

/-- Not all sizes that can be written grow, and not all finite ones select the nearest font: an
infinity, and a number a little above `2 ^ 55` whose last digit is odd, select the small one. -/
theorem not_all_sizes_grow :
    (¬ ∀ lesser greater : Text, 0.0 < sizeWritten lesser →
      sizeWritten lesser ≤ sizeWritten greater →
      (ofSize (sizeWritten lesser)).charHeight ≤ (ofSize (sizeWritten greater)).charHeight) ∧
    ¬ ∀ number : Text, (sizeWritten number).isFinite → 0.0 < sizeWritten number →
      Suits (value (sizeWritten number)) (ofSize (sizeWritten number)) := by
  refine ⟨fun h => ?_, fun h => ?_⟩
  · have hle := h "12".toList "1e999".toList (by decide +kernel) (by decide +kernel)
    exact absurd hle (by decide +kernel)
  · have hsuits := h "36028797018963992".toList (by decide +kernel) (by decide +kernel)
    have hscaled : scaled? (sizeWritten "36028797018963992".toList) = some ⟨2 ^ 52 + 3, 3⟩ := by
      decide +kernel
    have hsmall : ofSize (sizeWritten "36028797018963992".toList) = small := by decide +kernel
    rw [suits_iff, hsmall, value_of_scaled hscaled, nearestTo, if_neg (by norm_num),
      if_neg (by norm_num)] at hsuits
    exact absurd hsuits (by decide)

end Font
end VectorPaint
