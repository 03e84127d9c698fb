/-
# Estimates of floats

What a chain of float operations computes is known in two ways.

* A float is about a number if it is finite and off by no more than some error (`IsAbout`).  An
  operation adds the error of one rounding, which is a `2 ^ 53`-th part of the magnitude.
* Where a computation may leave the range of the floats, its result is still known to be large.  A
  float is beyond a number, on the side of a sign, if it is the infinity of that sign or a finite
  float that is not on the other side of the number (`IsBeyond`).  Sums and differences with finite
  floats stay beyond what they exceed.

Both say what a floor within bounds is.
-/
import VectorPaint.Proofs.Float.Order
import VectorPaint.Proofs.Float.Nearness

namespace VectorPaint.Number

open Float.Model (UnpackedFloat)
open Float.Model.UnpackedFloat (Sign)

/-! ## 1. About a number -/

variable {x y : Float} {q r : ℚ}

/-- **Numbers that are not tiny move by their own `2 ^ 53`-th part.** -/
theorem abs_rounded_sub_le_mul (h : 2 ^ (-1021 : ℤ) ≤ |q|) : |rounded q - q| ≤ |q| / 2 ^ 53 := by
  have hunit : -1074 < unit q := by
    by_contra hle
    have hlt := lt_of_lt_of_le (abs_lt_unit q) (two_zpow_le (show unit q + 53 ≤ -1021 by omega))
    exact absurd h (not_le.mpr hlt)
  have hlead := unit_le_abs hunit
  have hsplit : (2 : ℚ) ^ (unit q + 52) = 2 ^ 52 * 2 ^ unit q := two_zpow_split (unit q) 52
  rw [hsplit] at hlead
  refine (abs_rounded_sub_le q).trans ?_
  rw [le_div_iff₀ (by norm_num)]
  linarith

/-- A finite float that is off from a number by no more than some error. -/
structure IsAbout (x : Float) (q error : ℚ) : Prop where
  finite : x.isFinite
  near : |value x - q| ≤ error

/-- What is nearest to a number of moderate size is off by one rounding. -/
theorem IsNearest.isAbout {b : ℚ} (h : IsNearest x q) (hq : |q| ≤ b) (hone : 1 ≤ b)
    (hb : b ≤ 2 ^ 53) : IsAbout x q (b / 2 ^ 53) := by
  obtain ⟨hfinite, hvalue⟩ := h.within (lt_overflow (hq.trans hb))
  exact ⟨hfinite, hvalue ▸ abs_rounded_sub_le_of_le hq hone⟩

/-- An estimate of an estimate. -/
theorem IsAbout.trans {error more : ℚ} (h : IsAbout x r error) (hr : |r - q| ≤ more) :
    IsAbout x q (error + more) := by
  refine ⟨h.finite, ?_⟩
  calc
    |value x - q| = |(value x - r) + (r - q)| := by rw [sub_add_sub_cancel]
    _ ≤ |value x - r| + |r - q| := abs_add_le _ _
    _ ≤ error + more := add_le_add h.near hr

theorem IsAbout.mono {error more : ℚ} (h : IsAbout x q error) (hle : error ≤ more) :
    IsAbout x q more := ⟨h.finite, h.near.trans hle⟩

/-- **A sum is off by one rounding more.** -/
theorem IsAbout.add {error b : ℚ} (h : IsAbout x q error) (hy : y.isFinite)
    (hq : |q + value y| + error ≤ b) (hone : 1 ≤ b) (hb : b ≤ 2 ^ 53) :
    IsAbout (x + y) (q + value y) (b / 2 ^ 53 + error) := by
  have hmove : |value x + value y - (q + value y)| ≤ error := by
    rw [add_sub_add_right_eq_sub]
    exact h.near
  refine ((isNearest_add h.finite hy).isAbout ?_ hone hb).trans hmove
  have := abs_sub_abs_le_abs_sub (value x + value y) (q + value y)
  linarith

theorem IsAbout.sub {error b : ℚ} (h : IsAbout x q error) (hy : y.isFinite)
    (hq : |q - value y| + error ≤ b) (hone : 1 ≤ b) (hb : b ≤ 2 ^ 53) :
    IsAbout (x - y) (q - value y) (b / 2 ^ 53 + error) := by
  have hmove : |value x - value y - (q - value y)| ≤ error := by
    rw [sub_sub_sub_cancel_right]
    exact h.near
  refine ((isNearest_sub h.finite hy).isAbout ?_ hone hb).trans hmove
  have := abs_sub_abs_le_abs_sub (value x - value y) (q - value y)
  linarith

/-! ## 2. Beyond a number -/

/-- A float on the side of a sign of a number: the infinity of that sign, or a finite float that is
not on the other side. -/
def IsBeyond (s : Sign) (x : Float) (q : ℚ) : Prop :=
  x.toModel.unpack = .infinity s ∨ x.isFinite ∧ signFactor s * q ≤ signFactor s * value x

variable {s : Sign}

/-- What is nearest to a number is beyond all floats that the number is beyond. -/
theorem IsNearest.isBeyond (h : IsNearest x q) (hr : IsBinary r) (hrange : |r| < overflow)
    (hle : signFactor s * r ≤ signFactor s * q) : IsBeyond s x r := by
  obtain ⟨hlow, hhigh⟩ := abs_lt.mp hrange
  rcases lt_or_ge |q| overflow with hq | hq
  · obtain ⟨hfinite, hvalue⟩ := h.within hq
    refine Or.inr ⟨hfinite, ?_⟩
    rw [hvalue]
    cases s with
    | positive =>
      simp only [signFactor, one_mul] at hle ⊢
      exact le_rounded hr hle
    | negative =>
      simp only [signFactor, neg_one_mul, neg_le_neg_iff] at hle ⊢
      exact rounded_le hr hle
  · cases s with
    | positive =>
      simp only [signFactor, one_mul] at hle
      rcases le_abs.mp hq with hq | hq
      · exact Or.inl (h.above hq)
      · exact absurd hle (not_le.mpr (by linarith))
    | negative =>
      simp only [signFactor, neg_one_mul, neg_le_neg_iff] at hle
      rcases le_abs.mp hq with hq | hq
      · exact absurd hle (not_le.mpr (by linarith))
      · exact Or.inl (h.below (by linarith))

/-- **A sum with a finite float stays beyond.** -/
theorem IsBeyond.add (hx : IsBeyond s x q) (hy : y.isFinite) (hr : IsBinary r)
    (hrange : |r| < overflow) (hle : signFactor s * r ≤ signFactor s * (q + value y)) :
    IsBeyond s (x + y) r := by
  rcases hx with hx | ⟨hx, hq⟩
  · exact Or.inl (unpack_add_infinity hx hy)
  · refine (isNearest_add hx hy).isBeyond hr hrange (hle.trans ?_)
    rw [mul_add, mul_add]
    linarith

theorem IsBeyond.sub (hx : IsBeyond s x q) (hy : y.isFinite) (hr : IsBinary r)
    (hrange : |r| < overflow) (hle : signFactor s * r ≤ signFactor s * (q - value y)) :
    IsBeyond s (x - y) r := by
  rcases hx with hx | ⟨hx, hq⟩
  · exact Or.inl (unpack_sub_infinity hx hy)
  · refine (isNearest_sub hx hy).isBeyond hr hrange (hle.trans ?_)
    rw [mul_sub, mul_sub]
    linarith

/-! ## 3. Floors within bounds -/

variable {low high m n : ℤ}

/-- On which side of every number the infinity of a sign is. -/
def outward : Sign → Ordering
  | .negative => .lt
  | .positive => .gt

/-- An infinity is compared by its sign. -/
theorem compareWhole?_of_infinity (hx : x.toModel.unpack = .infinity s) (n : ℤ) :
    compareWhole? x n = some (outward s) := by
  have hnan : x.isNaN = false := not_isNaN_of_unpack hx rfl
  have hinf : ¬ x.isFinite := by
    intro hfinite
    have hfinite' : x.toModel.unpack.isFinite := hfinite
    rw [hx] at hfinite'
    cases hfinite'
  have hsign : x < 0.0 ↔ s = .negative := by
    have hzero : (0.0 : Float).toModel.unpack.isFinite := isFinite_zero
    rw [lt_iff_compare, hx]
    generalize (0.0 : Float).toModel.unpack = v at hzero
    cases v with
    | infinity t => cases hzero
    | notANumber => cases hzero
    | _ => cases s <;> simp [UnpackedFloat.compare]
  simp only [compareWhole?]
  rw [hnan, scaled?_of_not_isFinite hinf]
  rw [if_neg (by decide)]
  cases s with
  | negative => exact congrArg some (if_pos (hsign.mpr rfl))
  | positive =>
    refine congrArg some (if_neg ?_)
    intro hlt
    cases hsign.mp hlt

/-- **What is beyond the upper bound has this as its floor.** -/
theorem le_floorWithin (h : floorWithin low high x = .ok n) (hx : IsBeyond .positive x high) :
    high ≤ n := by
  simp only [floorWithin] at h
  rcases hx with hx | ⟨hfinite, hx⟩
  · rw [compareWhole?_of_infinity hx, compareWhole?_of_infinity hx] at h
    cases h
    exact le_refl high
  · simp only [signFactor, one_mul] at hx
    rw [compareWhole?_of_isFinite hfinite, compareWhole?_of_isFinite hfinite, Option.any_some,
      Option.any_some] at h
    split at h
    · rename_i hlow
      rw [Std.LawfulBCmp.isLE_iff_le] at hlow
      cases h
      exact_mod_cast hx.trans hlow
    · split at h
      · cases h
        exact le_refl high
      · rename_i hhigh
        rw [Ordering.isGE_iff_ne_lt, compare_lt_iff_lt, not_lt] at hhigh
        exact absurd hx hhigh

/-- What is beyond the lower bound, on the other side, has that one. -/
theorem floorWithin_le (h : floorWithin low high x = .ok n)
    (hx : IsBeyond .negative x low) : n ≤ low := by
  simp only [floorWithin] at h
  rcases hx with hx | ⟨hfinite, hx⟩
  · rw [compareWhole?_of_infinity hx] at h
    cases h
    exact le_refl low
  · simp only [signFactor, neg_one_mul, neg_le_neg_iff] at hx
    rw [compareWhole?_of_isFinite hfinite, Option.any_some,
      if_pos (Std.LawfulBCmp.isLE_iff_le.mpr hx)] at h
    cases h
    exact le_refl low

/-- **Below a floor within bounds there is the float,** with a whole number in between. -/
theorem add_one_le_of_lt_floorWithin (h : floorWithin low high x = .ok n) (hfinite : x.isFinite)
    (hm : low ≤ m) (hlt : m < n) : (m : ℚ) + 1 ≤ value x := by
  have hnext : ((m + 1 : ℤ) : ℚ) ≤ n := by exact_mod_cast hlt
  push_cast at hnext
  simp only [floorWithin] at h
  rw [compareWhole?_of_isFinite hfinite, compareWhole?_of_isFinite hfinite, Option.any_some,
    Option.any_some] at h
  split at h
  · cases h
    omega
  · split at h
    · rename_i hhigh
      rw [Ordering.isGE_iff_ne_lt, compare_lt_iff_lt, not_lt] at hhigh
      cases h
      exact hnext.trans hhigh
    · rw [floor_of_isFinite hfinite] at h
      cases h
      exact hnext.trans (Int.floor_le _)

theorem lt_of_floorWithin_lt (h : floorWithin low high x = .ok n) (hfinite : x.isFinite)
    (hm : m ≤ high) (hlt : n < m) : value x < m := by
  simp only [floorWithin] at h
  rw [compareWhole?_of_isFinite hfinite, compareWhole?_of_isFinite hfinite, Option.any_some,
    Option.any_some] at h
  split at h
  · rename_i hlow
    rw [Std.LawfulBCmp.isLE_iff_le] at hlow
    cases h
    exact lt_of_le_of_lt hlow (by exact_mod_cast hlt)
  · split at h
    · cases h
      omega
    · rw [floor_of_isFinite hfinite] at h
      cases h
      exact Int.floor_lt.mp hlt

end VectorPaint.Number
