/-
# The order of floats

Floats are compared by their bits: first the exponents, then the mantissas.  Since the mantissas
are canonical this is the order of the numbers that the floats are, with a zero of either sign
being zero.  An infinity is beyond all of them, and what is not a number is in no order at all.

So a float that has been found on one side of a finite float and not beyond another one is finite
itself and lies between them.  That is all that is known of a quotient that may have left the
range, and it is enough where lines are cut.

The exact value of a float that is taken apart is its number as well, so its floor, its whole part
and its order against a whole number are those of the number.
-/
import VectorPaint.Proofs.Float.Arithmetic

namespace VectorPaint.Number

open Float.Model (UnpackedFloat Format)
open Float.Model.UnpackedFloat (Sign)

/-! ## 1. Unpacked floats -/

/-- A canonical mantissa with a greater exponent is greater. -/
theorem canonical_lt_of_lt {m n : ℕ} {d e : ℤ} (hc : IsCanonical m d) (hc' : IsCanonical n e)
    (h : d < e) : (m : ℚ) * 2 ^ d < n * 2 ^ e := by
  have hd := hc.least
  have hlead : 2 ^ 52 ≤ n := hc'.leading.resolve_right (by omega)
  have hlead' : (2 : ℚ) ^ 52 ≤ n := by exact_mod_cast hlead
  have hfew : (m : ℚ) < 2 ^ 53 := by exact_mod_cast hc.few
  calc (m : ℚ) * 2 ^ d < 2 ^ 53 * 2 ^ d := mul_lt_mul_of_pos_right hfew (two_zpow_pos d)
    _ = 2 ^ (d + (53 : ℕ)) := (two_zpow_split d 53).symm
    _ ≤ 2 ^ (e + (52 : ℕ)) := two_zpow_le (by push_cast; omega)
    _ = 2 ^ 52 * 2 ^ e := two_zpow_split e 52
    _ ≤ n * 2 ^ e := mul_le_mul_of_nonneg_right hlead' (two_zpow_pos e).le

/-- Exponents first, then mantissas: the order of canonical floats. -/
theorem compare_canonical {m n : ℕ} {d e : ℤ} (hc : IsCanonical m d) (hc' : IsCanonical n e) :
    (compare d e).then (compare m n) = compare ((m : ℚ) * 2 ^ d) (n * 2 ^ e) := by
  rcases lt_trichotomy d e with h | h | h
  · rw [compare_lt_iff_lt.mpr h, compare_lt_iff_lt.mpr (canonical_lt_of_lt hc hc' h)]
    rfl
  · subst h
    have hpos := two_zpow_pos d
    rw [compare_eq_iff_eq.mpr rfl]
    change compare m n = _
    rcases lt_trichotomy m n with hlt | heq | hgt
    · have : (m : ℚ) * 2 ^ d < n * 2 ^ d :=
        mul_lt_mul_of_pos_right (by exact_mod_cast hlt) hpos
      rw [compare_lt_iff_lt.mpr hlt, compare_lt_iff_lt.mpr this]
    · rw [heq, compare_eq_iff_eq.mpr rfl, compare_eq_iff_eq.mpr rfl]
    · have : (n : ℚ) * 2 ^ d < m * 2 ^ d :=
        mul_lt_mul_of_pos_right (by exact_mod_cast hgt) hpos
      rw [compare_gt_iff_gt.mpr hgt, compare_gt_iff_gt.mpr this]
  · rw [compare_gt_iff_gt.mpr h, compare_gt_iff_gt.mpr (canonical_lt_of_lt hc' hc h)]
    rfl

/-- **Finite floats are in the order of their numbers.** -/
theorem compare_unpacked {u v : UnpackedFloat} (hu : Fits u) (hv : Fits v) (hu' : u.isFinite)
    (hv' : v.isFinite) : u.compare v = some (compare (unpackedValue u) (unpackedValue v)) := by
  have hpos : ∀ (m : ℕ) (e : ℤ), 0 < m → (0 : ℚ) < m * 2 ^ e := fun m e hm =>
    mul_pos (by exact_mod_cast hm) (two_zpow_pos e)
  cases u with
  | infinity s => cases hu'
  | notANumber => cases hu'
  | zero s =>
    cases v with
    | infinity t => cases hv'
    | notANumber => cases hv'
    | zero t =>
      rw [unpackedValue_zero, unpackedValue_zero, compare_eq_iff_eq.mpr rfl]
      rfl
    | finite t n e hn =>
      have hn' := hpos n e hn
      rw [unpackedValue_zero, unpackedValue_finite]
      cases t with
      | negative =>
        rw [compare_gt_iff_gt.mpr (by unfold signFactor; linarith)]
        rfl
      | positive =>
        rw [compare_lt_iff_lt.mpr (by unfold signFactor; linarith)]
        rfl
  | finite s m d hm =>
    have hm' := hpos m d hm
    cases v with
    | infinity t => cases hv'
    | notANumber => cases hv'
    | zero t =>
      rw [unpackedValue_zero, unpackedValue_finite]
      cases s with
      | negative =>
        rw [compare_lt_iff_lt.mpr (by unfold signFactor; linarith)]
        rfl
      | positive =>
        rw [compare_gt_iff_gt.mpr (by unfold signFactor; linarith)]
        rfl
    | finite t n e hn =>
      have hn' := hpos n e hn
      rw [unpackedValue_finite, unpackedValue_finite]
      cases s with
      | negative =>
        cases t with
        | negative =>
          have hswap : compare (signFactor .negative * ((m : ℚ) * 2 ^ d))
              (signFactor .negative * (n * 2 ^ e)) =
                (compare ((m : ℚ) * 2 ^ d) (n * 2 ^ e)).swap := by
            simp only [signFactor]
            rcases lt_trichotomy ((m : ℚ) * 2 ^ d) (n * 2 ^ e) with h | h | h
            · rw [compare_lt_iff_lt.mpr h, compare_gt_iff_gt.mpr (by linarith)]
              rfl
            · rw [compare_eq_iff_eq.mpr h, compare_eq_iff_eq.mpr (by rw [h])]
              rfl
            · rw [compare_gt_iff_gt.mpr h, compare_lt_iff_lt.mpr (by linarith)]
              rfl
          rw [hswap, ← compare_canonical hu.1 hv.1]
          rfl
        | positive =>
          rw [compare_lt_iff_lt.mpr (by unfold signFactor; linarith)]
          rfl
      | positive =>
        cases t with
        | negative =>
          rw [compare_gt_iff_gt.mpr (by unfold signFactor; linarith)]
          rfl
        | positive =>
          have hone : ∀ q : ℚ, signFactor .positive * q = q := one_mul
          rw [hone, hone, ← compare_canonical hu.1 hv.1]
          rfl

/-! ## 2. Floats -/

variable {x y : Float}

theorem compare_floats (hx : x.isFinite) (hy : y.isFinite) :
    x.toModel.unpack.compare y.toModel.unpack = some (compare (value x) (value y)) :=
  compare_unpacked (fits_unpack _) (fits_unpack _) hx hy

theorem lt_iff_compare : x < y ↔ x.toModel.unpack.compare y.toModel.unpack = some .lt := by
  change decide (x.toModel < y.toModel) = true ↔ _
  rw [decide_eq_true_iff]
  exact beq_iff_eq

theorem beq_iff_compare : (x == y) = true ↔
    x.toModel.unpack.compare y.toModel.unpack = some .eq := by
  change (x.toModel.unpack.compare y.toModel.unpack == some .eq) = true ↔ _
  exact beq_iff_eq

/-- **Being less is being a lesser number,** among finite floats. -/
theorem lt_iff (hx : x.isFinite) (hy : y.isFinite) : x < y ↔ value x < value y := by
  rw [lt_iff_compare, compare_floats hx hy, Option.some_inj, compare_lt_iff_lt]

theorem beq_iff (hx : x.isFinite) (hy : y.isFinite) : (x == y) = true ↔ value x = value y := by
  rw [beq_iff_compare, compare_floats hx hy, Option.some_inj, compare_eq_iff_eq]

/-- Zero is the only float that is equal to zero. -/
theorem not_beq_zero (hx : x.isFinite) (h : value x ≠ 0) (hy : y.isFinite) (hzero : value y = 0) :
    (x == y) = false := by
  rw [← Bool.not_eq_true, beq_iff hx hy, hzero]
  exact h

/-- What is not finite is not equal to what is. -/
theorem not_beq_of_not_isFinite (hx : ¬ x.isFinite) (hy : y.isFinite) : (x == y) = false := by
  have hx' : ¬ x.toModel.unpack.isFinite := hx
  have hy' : y.toModel.unpack.isFinite := hy
  rw [← Bool.not_eq_true, beq_iff_compare]
  generalize x.toModel.unpack = u at hx' ⊢
  generalize y.toModel.unpack = v at hy' ⊢
  cases u with
  | zero s => exact absurd rfl hx'
  | finite s m e hm => exact absurd rfl hx'
  | notANumber => exact fun h => by cases h
  | infinity s =>
    cases v with
    | infinity t => cases hy'
    | notANumber => cases hy'
    | zero t => cases s <;> exact fun h => by cases h
    | finite t n e hn => cases s <;> cases t <;> exact fun h => by cases h

/-- Nothing is less or greater than what is not a number. -/
theorem not_isNaN_of_lt (h : x < y) : x.isNaN = false ∧ y.isNaN = false := by
  rw [lt_iff_compare] at h
  change x.toModel.unpack.isNaN = false ∧ y.toModel.unpack.isNaN = false
  generalize x.toModel.unpack = u at h ⊢
  generalize y.toModel.unpack = v at h ⊢
  cases u with
  | notANumber => cases h
  | _ =>
    cases v with
    | notANumber => cases h
    | _ => exact ⟨rfl, rfl⟩

/-- One infinity is above all finite floats, and the other one is below all of them. -/
theorem infinity_cases (h : x.isNaN = false) (hfinite : ¬ x.isFinite) :
    (∀ y : Float, y.isFinite → y < x ∧ ¬ x < y) ∨ ∀ y : Float, y.isFinite → x < y ∧ ¬ y < x := by
  obtain ⟨s, hs⟩ := unpack_eq_infinity h hfinite
  have hcompare : ∀ (v : UnpackedFloat), v.isFinite →
      v.compare (.infinity .positive) = some .lt ∧
        (UnpackedFloat.infinity .positive).compare v = some .gt ∧
        v.compare (.infinity .negative) = some .gt ∧
        (UnpackedFloat.infinity .negative).compare v = some .lt := by
    intro v hv
    cases v with
    | infinity t => cases hv
    | notANumber => cases hv
    | zero t => exact ⟨rfl, rfl, rfl, rfl⟩
    | finite t n e hn => cases t <;> exact ⟨rfl, rfl, rfl, rfl⟩
  cases s with
  | negative =>
    right
    intro y hy
    obtain ⟨-, -, h1, h2⟩ := hcompare _ hy
    rw [lt_iff_compare, lt_iff_compare, hs, h1, h2]
    simp
  | positive =>
    left
    intro y hy
    obtain ⟨h1, h2, -, -⟩ := hcompare _ hy
    rw [lt_iff_compare, lt_iff_compare, hs, h1, h2]
    simp

/-- **What lies between finite floats is finite.**  It may be equal to the upper one. -/
theorem isFinite_of_lt_of_not_lt {a b t : Float} (ha : a.isFinite) (hb : b.isFinite) (h : a < t)
    (h' : ¬ b < t) : t.isFinite ∧ value a < value t ∧ value t ≤ value b := by
  have hfinite : t.isFinite := by
    by_contra hinf
    rcases infinity_cases (not_isNaN_of_lt h).2 hinf with habove | hbelow
    · exact h' (habove b hb).1
    · exact (hbelow a ha).2 h
  rw [lt_iff ha hfinite] at h
  rw [lt_iff hb hfinite, not_lt] at h'
  exact ⟨hfinite, h, h'⟩

/-- It may be equal to the lower one. -/
theorem isFinite_of_not_lt_of_lt {a b t : Float} (ha : a.isFinite) (hb : b.isFinite) (h : ¬ t < a)
    (h' : t < b) : t.isFinite ∧ value a ≤ value t ∧ value t < value b := by
  have hfinite : t.isFinite := by
    by_contra hinf
    rcases infinity_cases (not_isNaN_of_lt h').1 hinf with habove | hbelow
    · exact (habove b hb).2 h'
    · exact h (hbelow a ha).1
  rw [lt_iff hfinite ha, not_lt] at h
  rw [lt_iff hfinite hb] at h'
  exact ⟨hfinite, h, h'⟩

/-! ## 3. Floats taken apart -/

/-- The number that a float is taken apart into. -/
def Scaled.value (v : Scaled) : ℚ := v.mantissa * 2 ^ v.exponent

/-- The number as a fraction. -/
theorem Scaled.value_eq_div (v : Scaled) : v.value = v.numerator / v.denominator := by
  have hpos : (0 : ℚ) < v.denominator := by exact_mod_cast v.denominator_pos
  rw [eq_div_iff hpos.ne']
  simp only [Scaled.value, numerator, denominator]
  simp only [Nat.pow_eq]
  push_cast
  rw [mul_assoc, ← zpow_natCast, ← zpow_natCast, ← zpow_add₀ two_ne_zero]
  congr 2
  omega

theorem Scaled.floor_eq (v : Scaled) : v.floor = ⌊v.value⌋ := by
  rw [v.value_eq_div, Rat.floor_intCast_div_natCast]
  rfl

/-- The order against a whole number is that of the number. -/
theorem Scaled.compareWhole_eq (v : Scaled) (n : ℤ) : v.compareWhole n = compare v.value n := by
  have hpos : (0 : ℚ) < v.denominator := by exact_mod_cast v.denominator_pos
  simp only [Scaled.compareWhole]
  rw [v.value_eq_div]
  rcases lt_trichotomy v.numerator (n * v.denominator) with h | h | h
  · have : (v.numerator : ℚ) < n * v.denominator := by exact_mod_cast h
    rw [compare_lt_iff_lt.mpr h, compare_lt_iff_lt.mpr ((div_lt_iff₀ hpos).mpr this)]
  · have : (v.numerator : ℚ) = n * v.denominator := by exact_mod_cast h
    rw [compare_eq_iff_eq.mpr h, compare_eq_iff_eq.mpr ((div_eq_iff hpos.ne').mpr this)]
  · have : (n : ℚ) * v.denominator < v.numerator := by exact_mod_cast h
    rw [compare_gt_iff_gt.mpr h, compare_gt_iff_gt.mpr ((lt_div_iff₀ hpos).mpr this)]

/-- A finite float is taken apart into its number. -/
theorem scaled?_of_isFinite (hx : x.isFinite) : ∃ v, scaled? x = some v ∧ v.value = value x := by
  have hx' : x.toModel.unpack.isFinite := hx
  simp only [scaled?, value]
  generalize x.toModel.unpack = u at hx' ⊢
  cases u with
  | infinity s => cases hx'
  | notANumber => cases hx'
  | zero s =>
    refine ⟨_, rfl, ?_⟩
    simp only [Scaled.value]
    rw [Int.cast_zero, zero_mul, unpackedValue_zero]
  | finite s m e hm =>
    refine ⟨_, rfl, ?_⟩
    simp only [Scaled.value]
    rw [signFactor_apply, unpackedValue_finite, Int.cast_natCast, mul_assoc]

theorem scaled?_of_not_isFinite (hx : ¬ x.isFinite) : scaled? x = none := by
  have hx' : ¬ x.toModel.unpack.isFinite := hx
  simp only [scaled?]
  generalize x.toModel.unpack = u at hx' ⊢
  cases u with
  | infinity s => rfl
  | notANumber => rfl
  | zero s => exact absurd rfl hx'
  | finite s m e hm => exact absurd rfl hx'

/-- A float that is taken apart is finite, and the number is its number. -/
theorem isFinite_of_scaled? {v : Scaled} (h : scaled? x = some v) :
    x.isFinite ∧ value x = v.value := by
  by_cases hx : x.isFinite
  · obtain ⟨w, hw, hvalue⟩ := scaled?_of_isFinite hx
    rw [h, Option.some_inj] at hw
    exact ⟨hx, by rw [hw, hvalue]⟩
  · rw [scaled?_of_not_isFinite hx] at h
    cases h

/-- The floor of a finite float. -/
theorem floor_of_isFinite (hx : x.isFinite) : floor x = .ok ⌊value x⌋ := by
  obtain ⟨v, hv, hvalue⟩ := scaled?_of_isFinite hx
  simp only [floor]
  rw [hv, ← hvalue, ← v.floor_eq]

/-- The whole part of a finite float exists. -/
theorem truncate_of_isFinite (hx : x.isFinite) : ∃ n, truncate x = .ok n := by
  obtain ⟨v, hv, -⟩ := scaled?_of_isFinite hx
  simp only [truncate]
  rw [hv]
  exact ⟨_, rfl⟩

/-- The order of a finite float against a whole number. -/
theorem compareWhole?_of_isFinite (hx : x.isFinite) (n : ℤ) :
    compareWhole? x n = some (compare (value x) n) := by
  obtain ⟨v, hv, hvalue⟩ := scaled?_of_isFinite hx
  simp only [compareWhole?]
  rw [if_neg (by rw [not_isNaN_of_isFinite hx]; decide), hv, ← hvalue, ← v.compareWhole_eq]

/-- An infinity is compared like the number that it is beyond all of. -/
theorem compareWhole?_of_not_isFinite (hx : x.isNaN = false) (hfinite : ¬ x.isFinite) :
    (∀ n, compareWhole? x n = some .lt) ∨ ∀ n, compareWhole? x n = some .gt := by
  by_cases hsign : x < 0.0
  · refine Or.inl ?_
    intro n
    simp only [compareWhole?]
    rw [hx, scaled?_of_not_isFinite hfinite]
    simp only [hsign]
    rfl
  · refine Or.inr ?_
    intro n
    simp only [compareWhole?]
    rw [hx, scaled?_of_not_isFinite hfinite]
    simp only [hsign]
    rfl

/-- **A number has a floor within any bounds.** -/
theorem floorWithin_spec {low high : ℤ} (hle : low ≤ high) (hx : x.isNaN = false) :
    ∃ n, floorWithin low high x = .ok n ∧ low ≤ n ∧ n ≤ high := by
  simp only [floorWithin]
  by_cases hfinite : x.isFinite
  · rw [compareWhole?_of_isFinite hfinite, compareWhole?_of_isFinite hfinite, Option.any_some,
      Option.any_some]
    split
    · exact ⟨low, rfl, le_refl low, hle⟩
    · rename_i hlow
      split
      · exact ⟨high, rfl, hle, le_refl high⟩
      · rename_i hhigh
        rw [Std.LawfulBCmp.isLE_iff_le] at hlow
        rw [Ordering.isGE_iff_ne_lt, compare_lt_iff_lt, not_lt] at hhigh
        refine ⟨⌊value x⌋, floor_of_isFinite hfinite, ?_, ?_⟩
        · exact Int.le_floor.mpr (not_le.mp hlow).le
        · exact Int.floor_le_iff.mpr ((not_le.mp hhigh).trans (by linarith))
  · rcases compareWhole?_of_not_isFinite hx hfinite with h | h
    · rw [h low]
      exact ⟨low, rfl, le_refl low, hle⟩
    · rw [h low, h high]
      exact ⟨high, rfl, hle, le_refl high⟩

/-! ## 4. Whole numbers and halves -/

theorem isNearest_nearest (v : Scaled) : IsNearest v.nearest v.value :=
  isNearest_pack (isRounding_normalize _ _ _)

/-- A whole number within the range has a nearest float. -/
theorem ofWhole_of_lt {n : ℤ} (h : |(n : ℚ)| < overflow) :
    ∃ x, ofWhole n = .ok x ∧ x.isFinite ∧ value x = rounded n := by
  have hnear := isNearest_nearest ⟨n, 0⟩
  have hvalue : Scaled.value ⟨n, 0⟩ = n := by
    simp only [Scaled.value]
    rw [zpow_zero, mul_one]
  rw [hvalue] at hnear
  obtain ⟨hfinite, hrounded⟩ := hnear.within h
  exact ⟨_, if_pos hfinite, hfinite, hrounded⟩

/-- **A whole number beyond the range has none.** -/
theorem ofWhole_of_le {n : ℤ} (h : overflow ≤ |(n : ℚ)|) : ofWhole n = .error .wholeTooLarge := by
  have hnear := isNearest_nearest ⟨n, 0⟩
  have hvalue : Scaled.value ⟨n, 0⟩ = n := by
    simp only [Scaled.value]
    rw [zpow_zero, mul_one]
  rw [hvalue] at hnear
  exact if_neg (hnear.isFinite_iff.not.mpr (not_lt.mpr h))

/-- A whole number has a half if this is within the range. -/
theorem halfOfWhole_of_lt {n : ℤ} (h : |(n : ℚ) / 2| < overflow) :
    ∃ x, halfOfWhole n = .ok x ∧ x.isFinite ∧ value x = rounded (n / 2) := by
  have hnear := isNearest_nearest ⟨n, -1⟩
  have hvalue : Scaled.value ⟨n, -1⟩ = n / 2 := by
    simp only [Scaled.value]
    rw [zpow_neg_one, div_eq_mul_inv]
  rw [hvalue] at hnear
  obtain ⟨hfinite, hrounded⟩ := hnear.within h
  exact ⟨_, if_pos hfinite, hfinite, hrounded⟩

/-- The greatest finite float, a whole number. -/
def greatest : ℤ := (2 ^ 53 - 1) * 2 ^ 971

theorem two_pow_cast (n : ℕ) : (((2 : ℤ) ^ n : ℤ) : ℚ) = 2 ^ (n : ℤ) := by
  rw [zpow_natCast]
  push_cast
  rfl

theorem greatest_cast : (greatest : ℚ) = ((2 ^ 53 - 1 : ℤ) : ℚ) * 2 ^ (971 : ℤ) := by
  rw [greatest, Int.cast_mul, two_pow_cast, Nat.cast_ofNat]

theorem overflow_eq_greatest : overflow = greatest + 2 ^ (970 : ℤ) := by
  have h := two_zpow_split 970 1
  norm_num only at h
  rw [overflow_eq, greatest_cast, h]
  generalize (2 : ℚ) ^ (970 : ℤ) = c
  ring

/-- No finite float is beyond the greatest one. -/
theorem abs_value_le (x : Float) : |value x| ≤ greatest := by
  have h := fits_unpack x.toModel
  rw [greatest_cast]
  simp only [value]
  generalize x.toModel.unpack = u at h ⊢
  cases u with
  | finite s m e hm =>
    have hfew : (m : ℚ) ≤ ((2 ^ 53 - 1 : ℤ) : ℚ) := by
      have : (m : ℤ) ≤ 2 ^ 53 - 1 := by
        have := h.1.few
        omega
      exact_mod_cast this
    rw [abs_unpackedValue_finite]
    exact mul_le_mul hfew (two_zpow_le h.2) (two_zpow_pos e).le (by norm_num)
  | _ =>
    simp only [unpackedValue]
    rw [abs_zero]
    exact mul_nonneg (by norm_num) (two_zpow_pos _).le

/-- The floor of a float is within the range, and so are the whole numbers next to it. -/
theorem abs_floor_lt (x : Float) {k : ℤ} (hk : |k| ≤ 2) :
    |((⌊value x⌋ + k : ℤ) : ℚ)| < overflow := by
  have h := abs_le.mp (abs_value_le x)
  have hlow : -greatest ≤ ⌊value x⌋ := by
    refine Int.le_floor.mpr ?_
    rw [Int.cast_neg]
    exact h.1
  have hhigh : ⌊value x⌋ ≤ greatest := by
    have := (Int.floor_le (value x)).trans h.2
    exact_mod_cast this
  have hk' := abs_le.mp hk
  have hsum : |⌊value x⌋ + k| ≤ greatest + 2 := abs_le.mpr ⟨by omega, by omega⟩
  have hsum' : |((⌊value x⌋ + k : ℤ) : ℚ)| ≤ (greatest : ℚ) + 2 := by exact_mod_cast hsum
  have hpow : (2 : ℚ) < 2 ^ (970 : ℤ) := by
    calc (2 : ℚ) < 2 ^ (2 : ℤ) := by norm_num
      _ ≤ 2 ^ (970 : ℤ) := two_zpow_le (by norm_num)
  rw [overflow_eq_greatest]
  generalize (2 : ℚ) ^ (970 : ℤ) = c at hpow ⊢
  linarith

/-! ## 5. Constants -/

theorem value_of_scaled {m e : ℤ} (h : scaled? x = some ⟨m, e⟩) : value x = m * 2 ^ e :=
  (isFinite_of_scaled? h).2

/-- Constants taken apart. -/
theorem scaled?_constants : scaled? 0.0 = some ⟨0, 0⟩ ∧ scaled? 1.0 = some ⟨2 ^ 52, -52⟩ ∧
    scaled? 0.5 = some ⟨2 ^ 52, -53⟩ := by
  decide

theorem isFinite_zero : (0.0 : Float).isFinite := (isFinite_of_scaled? scaled?_constants.1).1

theorem isFinite_one : (1.0 : Float).isFinite := (isFinite_of_scaled? scaled?_constants.2.1).1

theorem isFinite_half : (0.5 : Float).isFinite := (isFinite_of_scaled? scaled?_constants.2.2).1

@[simp] theorem value_zero : value 0.0 = 0 := by
  rw [value_of_scaled scaled?_constants.1]
  norm_num

@[simp] theorem value_one : value 1.0 = 1 := by
  rw [value_of_scaled scaled?_constants.2.1]
  norm_num

@[simp] theorem value_half : value 0.5 = 1 / 2 := by
  rw [value_of_scaled scaled?_constants.2.2]
  norm_num

end VectorPaint.Number
