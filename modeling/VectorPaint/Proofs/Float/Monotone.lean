/-
# Operations that keep the order

A float operation rounds to the nearest float, and past the range of the floats it makes an
infinity.  Both keep the order of the numbers: rounding because it is monotone, and the step to an
infinity because everything beyond the range on one side becomes the same float, which no float on
that side exceeds.  So two floats in order are in order after both are multiplied by a positive
number (`IsAtMost.mul`) or divided by one (`IsAtMost.div`).

The order takes in the infinities, for a product may already have left the range before it is
divided.  An infinity stays what it is under both operations.
-/
import VectorPaint.Proofs.Float.Order

namespace VectorPaint.Number

open Float.Model (UnpackedFloat Format pack)
open Float.Model.UnpackedFloat (Sign)

variable {x y s : Float} {q r : ℚ}

/-! ## 1. Floats in order -/

/-- Being at most is being at most as a number, among finite floats. -/
theorem le_iff (hx : x.isFinite) (hy : y.isFinite) : x ≤ y ↔ value x ≤ value y := by
  change decide (x.toModel ≤ y.toModel) = true ↔ _
  rw [decide_eq_true_iff]
  change (x.toModel.unpack.compare y.toModel.unpack).any (·.isLE) = true ↔ _
  rw [compare_floats hx hy, Option.any_some, Std.LawfulBCmp.isLE_iff_le]

/-- The first float does not exceed the second: it is the lower infinity, or the second one is the
upper infinity, or both are finite and their numbers are in order. -/
def IsAtMost (x y : Float) : Prop :=
  x.toModel.unpack = .infinity .negative ∨ y.toModel.unpack = .infinity .positive ∨
    x.isFinite ∧ y.isFinite ∧ value x ≤ value y

/-- **The nearest floats are in the order of the numbers,** also beyond the range. -/
theorem IsNearest.isAtMost (hx : IsNearest x q) (hy : IsNearest y r) (h : q ≤ r) :
    IsAtMost x y := by
  rcases le_or_gt q (-overflow) with hlow | hlow
  · exact Or.inl (hx.below hlow)
  rcases le_or_gt overflow r with hhigh | hhigh
  · exact Or.inr (Or.inl (hy.above hhigh))
  obtain ⟨hxfinite, hxvalue⟩ := hx.within (abs_lt.mpr ⟨hlow, by linarith⟩)
  obtain ⟨hyfinite, hyvalue⟩ := hy.within (abs_lt.mpr ⟨by linarith, hhigh⟩)
  refine Or.inr (Or.inr ⟨hxfinite, hyfinite, ?_⟩)
  rw [hxvalue, hyvalue]
  exact rounded_mono h

/-! ## 2. Infinities -/

/-- A finite positive float is taken apart with a positive sign. -/
theorem unpack_eq_positive (hs : s.isFinite) (hpos : 0 < value s) :
    ∃ m e hm, s.toModel.unpack = .finite .positive m e hm := by
  have hfinite : s.toModel.unpack.isFinite := hs
  have hvalue : 0 < unpackedValue s.toModel.unpack := hpos
  generalize s.toModel.unpack = u at hfinite hvalue ⊢
  cases u with
  | infinity t => cases hfinite
  | notANumber => cases hfinite
  | zero t => exact absurd hvalue (lt_irrefl _)
  | finite t m e hm =>
    cases t with
    | positive => exact ⟨m, e, hm, rfl⟩
    | negative =>
      have hmantissa : (0 : ℚ) < m * 2 ^ e :=
        mul_pos (by exact_mod_cast hm) (two_zpow_pos e)
      rw [unpackedValue_finite] at hvalue
      simp only [signFactor] at hvalue
      linarith

/-- A positive factor leaves an infinity what it is. -/
theorem unpack_mul_infinity {t : Sign} (hx : x.toModel.unpack = .infinity t) (hs : s.isFinite)
    (hpos : 0 < value s) : (x * s).toModel.unpack = .infinity t := by
  obtain ⟨m, e, hm, hunpack⟩ := unpack_eq_positive hs hpos
  have hmul : UnpackedFloat.mul Format.binary64 x.toModel.unpack s.toModel.unpack =
      .infinity t := by
    rw [hx, hunpack]
    cases t <;> rfl
  exact (congrArg (fun u => (pack u).unpack) hmul).trans (unpack_pack trivial)

/-- A positive divisor leaves an infinity what it is. -/
theorem unpack_infinity_div {t : Sign} (hx : x.toModel.unpack = .infinity t) (hs : s.isFinite)
    (hpos : 0 < value s) : (x / s).toModel.unpack = .infinity t := by
  obtain ⟨m, e, hm, hunpack⟩ := unpack_eq_positive hs hpos
  have hdiv : UnpackedFloat.div Format.binary64 x.toModel.unpack s.toModel.unpack =
      .infinity t := by
    rw [hx, hunpack]
    cases t <;> rfl
  exact (congrArg (fun u => (pack u).unpack) hdiv).trans (unpack_pack trivial)

/-! ## 3. Products and quotients -/

/-- **A positive factor keeps the order.** -/
theorem IsAtMost.mul (h : IsAtMost x y) (hs : s.isFinite) (hpos : 0 < value s) :
    IsAtMost (x * s) (y * s) := by
  rcases h with hx | hy | ⟨hx, hy, hle⟩
  · exact Or.inl (unpack_mul_infinity hx hs hpos)
  · exact Or.inr (Or.inl (unpack_mul_infinity hy hs hpos))
  · exact (isNearest_mul hx hs).isAtMost (isNearest_mul hy hs)
      (mul_le_mul_of_nonneg_right hle hpos.le)

/-- **A positive divisor keeps the order.** -/
theorem IsAtMost.div (h : IsAtMost x y) (hs : s.isFinite) (hpos : 0 < value s) :
    IsAtMost (x / s) (y / s) := by
  rcases h with hx | hy | ⟨hx, hy, hle⟩
  · exact Or.inl (unpack_infinity_div hx hs hpos)
  · exact Or.inr (Or.inl (unpack_infinity_div hy hs hpos))
  · exact (isNearest_div hx hs hpos.ne').isAtMost (isNearest_div hy hs hpos.ne')
      (div_le_div_of_nonneg_right hle hpos.le)

/-- A number is a number after a multiplication with a positive one. -/
theorem not_isNaN_mul (hx : x.isNaN = false) (hs : s.isFinite) (hpos : 0 < value s) :
    (x * s).isNaN = false := by
  by_cases hfinite : x.isFinite
  · exact (isNearest_mul hfinite hs).not_isNaN
  · obtain ⟨t, ht⟩ := unpack_eq_infinity hx hfinite
    exact not_isNaN_of_unpack (unpack_mul_infinity ht hs hpos) rfl

/-- A number is a number after a division by a positive one. -/
theorem not_isNaN_div_of_pos (hx : x.isNaN = false) (hs : s.isFinite) (hpos : 0 < value s) :
    (x / s).isNaN = false := by
  by_cases hfinite : x.isFinite
  · exact not_isNaN_div hfinite (not_isNaN_of_isFinite hs) fun _ => hpos.ne'
  · obtain ⟨t, ht⟩ := unpack_eq_infinity hx hfinite
    exact not_isNaN_of_unpack (unpack_infinity_div ht hs hpos) rfl

end VectorPaint.Number
