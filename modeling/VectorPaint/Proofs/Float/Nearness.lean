/-
# How far rounding goes

Rounding a number moves it by half of its last digit at most.  For numbers up to a bound this is
the bound's `2 ^ 53`-th part (`abs_rounded_sub_le_of_le`).

Near whole numbers of up to 53 digits more is known.  A number at most a quarter away from one is
still at most a quarter away when it is rounded (`rounded_near_whole`): where the digits are fine
enough the quarter is one of them, and where they are not the whole number is the even one of its
neighbors or the only one.
-/
import VectorPaint.Proofs.Float.Rounding

namespace VectorPaint.Number

/-! ## 1. In general -/

theorem abs_halfEven_sub_le (q : ℚ) : |(halfEven q : ℚ) - q| ≤ 1 / 2 := by
  have hfloor := Int.floor_add_fract q
  have hlow := Int.fract_nonneg q
  have hhigh := Int.fract_lt_one q
  have hodd := Int.emod_two_eq_zero_or_one ⌊q⌋
  rw [abs_le]
  simp only [halfEven]
  split_ifs with hbelow habove
  · constructor <;> linarith
  · push_cast
    constructor <;> linarith
  · -- A tie: one half away from either neighbor.
    rcases hodd with h | h <;> rw [h] <;> push_cast <;> constructor <;> linarith

/-- **Rounding moves a number by half of its last digit at most.** -/
theorem abs_rounded_sub_le (q : ℚ) : |rounded q - q| ≤ 2 ^ unit q / 2 := by
  have hpos := two_zpow_pos (unit q)
  have hsplit : rounded q - q = (halfEven (q / 2 ^ unit q) - q / 2 ^ unit q) * 2 ^ unit q := by
    simp only [rounded]
    rw [sub_mul, div_mul_cancel₀ _ hpos.ne']
  rw [hsplit, abs_mul, abs_of_pos hpos]
  have := mul_le_mul_of_nonneg_right (abs_halfEven_sub_le (q / 2 ^ unit q)) hpos.le
  linarith

/-- A number with 53 digits above a digit has no coarser one. -/
theorem unit_le_of_abs_lt {q : ℚ} {e : ℤ} (he : -1074 ≤ e) (h : |q| < 2 ^ (e + 53)) :
    unit q ≤ e := by
  by_contra hlt
  have h1 := unit_le_abs (q := q) (by omega)
  have h2 := two_zpow_le (show e + 53 ≤ unit q + 52 by omega)
  linarith

/-- Numbers up to a bound move by the `2 ^ 53`-th part of the bound. -/
theorem abs_rounded_sub_le_of_le {q b : ℚ} (h : |q| ≤ b) (hb : 1 ≤ b) :
    |rounded q - q| ≤ b / 2 ^ 53 := by
  refine (abs_rounded_sub_le q).trans ?_
  rcases eq_or_lt_of_le (neg_le_unit q) with hunit | hunit
  · have hsmall : (2 : ℚ) ^ unit q ≤ 2 ^ (-53 : ℤ) := two_zpow_le (by omega)
    have hpower : (2 : ℚ) ^ (-53 : ℤ) = 1 / 2 ^ 53 := by norm_num
    rw [hpower] at hsmall
    linarith only [hsmall, hb]
  · have hlead := (unit_le_abs hunit).trans h
    have hsplit : (2 : ℚ) ^ (unit q + 52) = 2 ^ 52 * 2 ^ unit q := two_zpow_split (unit q) 52
    rw [hsplit] at hlead
    rw [le_div_iff₀ (by norm_num)]
    linarith

/-- Rounding does not lead out of a range with whole bounds. -/
theorem abs_rounded_le {q : ℚ} {m : ℤ} (h : |q| ≤ m) (hm : |m| ≤ 2 ^ 53) : |rounded q| ≤ m := by
  rw [abs_rounded]
  exact rounded_le (isBinary_intCast hm) h

/-! ## 2. Near whole numbers -/

/-- Multiples of the last digit bound the rounding of what they bound, from below as well. -/
theorem multiple_le_rounded {q : ℚ} {k : ℤ} (h : k * 2 ^ unit q ≤ q) :
    k * 2 ^ unit q ≤ rounded q := by
  have hneg : -q ≤ ((-k : ℤ) : ℚ) * 2 ^ unit (-q) := by
    rw [unit_neg, Int.cast_neg, neg_mul]
    exact neg_le_neg h
  have := rounded_le_multiple hneg
  rw [rounded_neg, unit_neg, Int.cast_neg, neg_mul] at this
  exact neg_le_neg_iff.mp this

/-- The only whole number within less than a half. -/
theorem halfEven_of_near {q : ℚ} {n : ℤ} (h : |q - n| < 1 / 2) : halfEven q = n := by
  obtain ⟨hlow, hhigh⟩ := abs_lt.mp h
  refine le_antisymm (halfEven_le_of_lt_tie (by linarith)) ?_
  have hneg : halfEven (-q) ≤ -n := halfEven_le_of_lt_tie (by push_cast; linarith)
  rw [halfEven_neg] at hneg
  omega

/-- On a tie above an even number that number is nearest. -/
theorem halfEven_tie (n : ℤ) : halfEven ((2 * n : ℤ) + 1 / 2) = 2 * n := by
  have hfloor : ⌊((2 * n : ℤ) : ℚ) + 1 / 2⌋ = 2 * n := by
    rw [Int.floor_eq_iff]
    constructor <;> linarith
  have hfract : Int.fract (((2 * n : ℤ) : ℚ) + 1 / 2) = 1 / 2 := by
    rw [← Int.self_sub_floor, hfloor]
    ring
  simp only [halfEven]
  rw [hfract, hfloor, if_neg (lt_irrefl _), if_neg (lt_irrefl _), Int.mul_emod_right, add_zero]

/-- The even whole number within a half. -/
theorem halfEven_of_near_even {q : ℚ} {n : ℤ} (h : |q - (2 * n : ℤ)| ≤ 1 / 2) :
    halfEven q = 2 * n := by
  obtain ⟨hlow, hhigh⟩ := abs_le.mp h
  refine le_antisymm ?_ ?_
  · rw [← halfEven_tie n]
    exact halfEven_mono (by linarith)
  · have hneg : halfEven (-q) ≤ 2 * -n := by
      rw [← halfEven_tie (-n)]
      refine halfEven_mono ?_
      push_cast at hlow ⊢
      linarith
    rw [halfEven_neg] at hneg
    omega

/-- **What is at most a quarter away from a whole number stays so.**  The cases are how coarse the
last digit is. -/
theorem rounded_near_whole {q : ℚ} {n : ℤ} (hn : |n| ≤ 2 ^ 52) (h : |q - n| ≤ 1 / 4) :
    |rounded q - n| ≤ 1 / 4 := by
  have hcoarse : unit q ≤ 0 := by
    refine unit_le_of_abs_lt (by norm_num) ?_
    have hcast : |(n : ℚ)| ≤ 2 ^ 52 := by exact_mod_cast hn
    calc |q| = |q - n + n| := by rw [sub_add_cancel]
      _ ≤ |q - n| + |(n : ℚ)| := abs_add_le _ _
      _ ≤ 1 / 4 + 2 ^ 52 := add_le_add h hcast
      _ < 2 ^ (0 + 53 : ℤ) := by norm_num
  rcases lt_trichotomy (unit q) (-1) with hfine | hhalf | hwhole
  · -- A quarter is a multiple of the last digit.
    have hquarter : (1 / 4 : ℚ) = ((2 ^ (-2 - unit q).toNat : ℤ) : ℚ) * 2 ^ unit q := by
      push_cast
      rw [← zpow_natCast, ← zpow_add₀ two_ne_zero, Int.toNat_of_nonneg (by omega)]
      norm_num
    have hmultiple : ∀ m : ℤ,
        (m : ℚ) / 4 = ((m * 2 ^ (-2 - unit q).toNat : ℤ) : ℚ) * 2 ^ unit q := by
      intro m
      rw [Int.cast_mul, mul_assoc, ← hquarter]
      ring
    obtain ⟨hlow, hhigh⟩ := abs_le.mp h
    have habove : q ≤ ((4 * n + 1 : ℤ) : ℚ) / 4 := by
      push_cast
      linarith
    have hbelow : ((4 * n - 1 : ℤ) : ℚ) / 4 ≤ q := by
      push_cast
      linarith
    rw [hmultiple] at habove hbelow
    have h1 := rounded_le_multiple habove
    have h2 := multiple_le_rounded hbelow
    rw [← hmultiple] at h1 h2
    push_cast at h1 h2
    rw [abs_le]
    constructor <;> linarith
  · have heven : halfEven (q / 2 ^ (-1 : ℤ)) = 2 * n := by
      refine halfEven_of_near_even ?_
      obtain ⟨hlow, hhigh⟩ := abs_le.mp h
      rw [abs_le]
      push_cast
      norm_num
      constructor <;> linarith
    simp only [rounded]
    rw [hhalf, heven, Int.cast_mul, Int.cast_ofNat, zpow_neg_one, mul_comm (2 : ℚ),
      mul_inv_cancel_right₀ two_ne_zero, sub_self, abs_zero]
    norm_num
  · obtain hzero : unit q = 0 := by omega
    have hnear : halfEven q = n := halfEven_of_near (lt_of_le_of_lt h (by norm_num))
    simp only [rounded]
    rw [hzero, zpow_zero, div_one, hnear, mul_one, sub_self, abs_zero]
    norm_num

end VectorPaint.Number
