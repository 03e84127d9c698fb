/-
# Rounding to 53 binary digits

A float has 53 binary digits and no digit below `2 ^ -1074`.  Rounding a rational number to such
digits is a step of its own here: how coarse the digits are follows from the size of the number
(`unit`), and the number is then rounded to a multiple of the last digit, to the even one on ties
(`rounded`).  Nothing is said about a greatest float, since how far floats reach is a matter of
packing them.

What is used of rounding elsewhere is that it keeps the order (`rounded_mono`), that a number
with few enough digits stays what it is (`rounded_of_isBinary`) and therefore bounds the rounding
of what it bounds, and from where on a number is rounded beyond `2 ^ 1024`
(`abs_rounded_lt_iff`).
-/
import Mathlib.Data.Int.Log
import Mathlib.Data.Rat.Floor
import Mathlib.Tactic.Linarith
import Mathlib.Tactic.NormNum
import Mathlib.Tactic.Positivity
import Mathlib.Tactic.Ring

namespace VectorPaint.Number

/-! ## 1. To whole numbers -/

/-- The nearest whole number, the even one on ties. -/
def halfEven (q : ℚ) : ℤ :=
  if Int.fract q < 1 / 2 then ⌊q⌋
  else if 1 / 2 < Int.fract q then ⌊q⌋ + 1
  else ⌊q⌋ + ⌊q⌋ % 2

/-- The nearest whole number is one of the two whole numbers around. -/
theorem halfEven_cases (q : ℚ) : halfEven q = ⌊q⌋ ∨ halfEven q = ⌊q⌋ + 1 := by
  simp only [halfEven]
  split
  · exact Or.inl rfl
  · split
    · exact Or.inr rfl
    · rcases Int.emod_two_eq_zero_or_one ⌊q⌋ with h | h
      · exact Or.inl (by rw [h, add_zero])
      · exact Or.inr (by rw [h])

@[simp] theorem halfEven_intCast (n : ℤ) : halfEven (n : ℚ) = n := by
  simp [halfEven]

@[simp] theorem halfEven_zero : halfEven 0 = 0 := halfEven_intCast 0

/-- Whole numbers bound the nearest whole number of what they bound. -/
theorem halfEven_le {q : ℚ} {n : ℤ} (h : q ≤ n) : halfEven q ≤ n := by
  have hfloor : ⌊q⌋ ≤ n := by
    have := Int.floor_mono h
    rwa [Int.floor_intCast] at this
  rcases lt_or_eq_of_le hfloor with hlt | heq
  · rcases halfEven_cases q with hq | hq <;> omega
  · have hq : q = n := by
      have := Int.floor_le q
      rw [heq] at this
      exact le_antisymm h this
    rw [hq, halfEven_intCast]

theorem le_halfEven {q : ℚ} {n : ℤ} (h : (n : ℚ) ≤ q) : n ≤ halfEven q := by
  have := Int.le_floor.mpr h
  rcases halfEven_cases q with hq | hq <;> omega

/-- **The nearest whole number keeps the order.** -/
theorem halfEven_mono {p q : ℚ} (h : p ≤ q) : halfEven p ≤ halfEven q := by
  rcases lt_or_eq_of_le (Int.floor_mono h) with hlt | heq
  · rcases halfEven_cases p with hp | hp <;> rcases halfEven_cases q with hq | hq <;> omega
  · have hfract : Int.fract p ≤ Int.fract q := by
      rw [← Int.self_sub_floor, ← Int.self_sub_floor, heq]
      linarith
    simp only [halfEven]
    rw [heq]
    split_ifs <;> first | omega | (exfalso; linarith)

theorem halfEven_neg (q : ℚ) : halfEven (-q) = -halfEven q := by
  by_cases h : Int.fract q = 0
  · obtain ⟨n, rfl⟩ : ∃ n : ℤ, (n : ℚ) = q := ⟨⌊q⌋, by
      have := Int.floor_add_fract q
      rwa [h, add_zero] at this⟩
    rw [← Int.cast_neg, halfEven_intCast, halfEven_intCast]
  · have hfloor : ⌊-q⌋ = -⌊q⌋ - 1 := by
      rw [Int.floor_eq_iff]
      have h1 := Int.floor_add_fract q
      have h2 := Int.fract_lt_one q
      have h3 : 0 < Int.fract q := lt_of_le_of_ne (Int.fract_nonneg q) (Ne.symm h)
      push_cast
      constructor <;> linarith
    simp only [halfEven]
    rw [Int.fract_neg h, hfloor]
    split_ifs <;> first | omega | (exfalso; linarith)

/-! ## 2. How coarse the digits are -/

/-- The exponent of the last digit that a number of this size has.  Zero has the finest ones. -/
def unit (q : ℚ) : ℤ := if q = 0 then -1074 else max (Int.log 2 |q| - 52) (-1074)

@[simp] theorem unit_zero : unit 0 = -1074 := if_pos rfl

theorem unit_of_ne_zero {q : ℚ} (h : q ≠ 0) : unit q = max (Int.log 2 |q| - 52) (-1074) := if_neg h

@[simp] theorem unit_neg (q : ℚ) : unit (-q) = unit q := by simp [unit]

theorem neg_le_unit (q : ℚ) : -1074 ≤ unit q := by
  simp only [unit]
  split
  · exact le_refl _
  · exact le_max_right _ _

theorem two_zpow_pos (e : ℤ) : (0 : ℚ) < 2 ^ e := zpow_pos (by norm_num) e

theorem two_zpow_le {d e : ℤ} (h : d ≤ e) : (2 : ℚ) ^ d ≤ 2 ^ e :=
  zpow_le_zpow_right₀ (by norm_num) h

/-- A number has at most 53 digits. -/
theorem abs_lt_unit (q : ℚ) : |q| < 2 ^ (unit q + 53) := by
  rcases eq_or_ne q 0 with rfl | hq
  · rw [abs_zero]
    exact two_zpow_pos _
  · have h := Int.lt_zpow_succ_log_self (b := 2) (by norm_num) |q|
    rw [Nat.cast_ofNat] at h
    refine lt_of_lt_of_le h (two_zpow_le ?_)
    rw [unit_of_ne_zero hq]
    omega

/-- A number whose last digit is not the last one of all has 53 digits. -/
theorem unit_le_abs {q : ℚ} (h : -1074 < unit q) : (2 : ℚ) ^ (unit q + 52) ≤ |q| := by
  have hq : q ≠ 0 := by
    rintro rfl
    rw [unit_zero] at h
    exact lt_irrefl _ h
  have hunit : unit q = Int.log 2 |q| - 52 := by
    rw [unit_of_ne_zero hq] at h ⊢
    omega
  have := Int.zpow_log_le_self (b := 2) (by norm_num) (abs_pos.mpr hq)
  rw [hunit, sub_add_cancel]
  exact_mod_cast this

/-- Greater numbers have coarser digits. -/
theorem unit_mono {p q : ℚ} (h : |p| ≤ |q|) : unit p ≤ unit q := by
  by_contra hlt
  have hp : -1074 < unit p := lt_of_le_of_lt (neg_le_unit q) (by omega)
  have h1 := unit_le_abs hp
  have h2 := abs_lt_unit q
  have h3 := two_zpow_le (show unit q + 53 ≤ unit p + 52 by omega)
  linarith

/-- The last digit follows from where the first one is. -/
theorem unit_eq {q : ℚ} {e : ℤ} (hlow : e = -1074 ∨ -1074 ≤ e ∧ (2 : ℚ) ^ (e + 52) ≤ |q|)
    (hhigh : |q| < 2 ^ (e + 53)) : unit q = e := by
  have hmin : -1074 ≤ e := by
    rcases hlow with h | h
    · omega
    · exact h.1
  apply le_antisymm
  · by_contra hlt
    have h1 := unit_le_abs (q := q) (by omega)
    have h2 := two_zpow_le (show e + 53 ≤ unit q + 52 by omega)
    linarith
  · rcases hlow with h | ⟨_, h⟩
    · rw [h]
      exact neg_le_unit q
    · by_contra hlt
      have h1 := abs_lt_unit q
      have h2 := two_zpow_le (show unit q + 53 ≤ e + 52 by omega)
      linarith

/-! ## 3. Rounding -/

/-- The number with at most 53 digits and none below `2 ^ -1074` that is nearest. -/
def rounded (q : ℚ) : ℚ := halfEven (q / 2 ^ unit q) * 2 ^ unit q

@[simp] theorem rounded_zero : rounded 0 = 0 := by simp [rounded]

theorem rounded_neg (q : ℚ) : rounded (-q) = -rounded q := by
  simp only [rounded]
  rw [unit_neg, neg_div, halfEven_neg]
  push_cast
  ring

/-- Multiples of the last digit bound the rounding of what they bound. -/
theorem rounded_le_multiple {q : ℚ} {k : ℤ} (h : q ≤ k * 2 ^ unit q) :
    rounded q ≤ k * 2 ^ unit q := by
  have hpos := two_zpow_pos (unit q)
  have hk : halfEven (q / 2 ^ unit q) ≤ k := halfEven_le ((div_le_iff₀ hpos).mpr h)
  exact mul_le_mul_of_nonneg_right (by exact_mod_cast hk) hpos.le

/-- A number that has few enough digits already. -/
def IsBinary (q : ℚ) : Prop := ∃ n e : ℤ, |n| ≤ 2 ^ 53 ∧ -1074 ≤ e ∧ q = n * 2 ^ e

theorem IsBinary.neg {q : ℚ} (h : IsBinary q) : IsBinary (-q) := by
  obtain ⟨n, e, hn, he, rfl⟩ := h
  refine ⟨-n, e, ?_, he, ?_⟩
  · rwa [abs_neg]
  · push_cast
    ring

theorem isBinary_zpow {e : ℤ} (h : -1074 ≤ e) : IsBinary (2 ^ e) :=
  ⟨1, e, by norm_num, h, by norm_num⟩

/-- Whole numbers up to `2 ^ 53` have few enough digits. -/
theorem isBinary_intCast {n : ℤ} (h : |n| ≤ 2 ^ 53) : IsBinary n :=
  ⟨n, 0, h, by norm_num, by norm_num⟩

/-- A number that has few enough digits, cut at the point, leaves two such numbers. -/
theorem IsBinary.floor_and_fract {q : ℚ} (h : IsBinary q) (hq : 0 ≤ q) :
    IsBinary ⌊q⌋ ∧ IsBinary (q - ⌊q⌋) := by
  obtain ⟨n, e, hn, he, rfl⟩ := h
  rcases le_or_gt 0 e with hwhole | hpart
  · -- Without digits behind the point nothing is cut.
    obtain ⟨k, rfl⟩ := Int.eq_ofNat_of_zero_le hwhole
    have hcast : (n : ℚ) * 2 ^ (k : ℤ) = ((n * 2 ^ k : ℤ) : ℚ) := by push_cast [zpow_natCast]; rfl
    rw [hcast, Int.floor_intCast, sub_self]
    exact ⟨hcast ▸ ⟨n, k, hn, he, rfl⟩, isBinary_intCast (n := 0) (by norm_num)⟩
  · have hn0 : (0 : ℚ) ≤ n := nonneg_of_mul_nonneg_left hq (two_zpow_pos e)
    have hn1 : (n : ℚ) ≤ 2 ^ 53 := by exact_mod_cast (abs_le.mp hn).2
    have hle : (n : ℚ) * 2 ^ e ≤ n :=
      mul_le_of_le_one_right hn0 (zpow_le_one_of_nonpos₀ (by norm_num) hpart.le)
    have hcut := Int.floor_le ((n : ℚ) * 2 ^ e)
    have hfloor : 0 ≤ ⌊(n : ℚ) * 2 ^ e⌋ := Int.floor_nonneg.mpr hq
    generalize ⌊(n : ℚ) * 2 ^ e⌋ = whole at hcut hfloor
    have hshift : (2 : ℚ) ^ (-e).toNat * 2 ^ e = 1 := by
      rw [← zpow_natCast, Int.toNat_of_nonneg (by omega), ← zpow_add₀ (by norm_num),
        neg_add_cancel, zpow_zero]
    have hwhole : whole * 2 ^ (-e).toNat ≤ n := by
      have : (whole : ℚ) * 2 ^ (-e).toNat ≤ n * 2 ^ e * 2 ^ (-e).toNat :=
        mul_le_mul_of_nonneg_right hcut (by positivity)
      rw [mul_assoc, mul_comm (2 ^ e), hshift, mul_one] at this
      exact_mod_cast this
    refine ⟨isBinary_intCast ?_, n - whole * 2 ^ (-e).toNat, e, ?_, he, ?_⟩
    · rw [abs_of_nonneg hfloor]
      exact_mod_cast (hcut.trans hle).trans hn1
    · have hrest : 0 ≤ whole * 2 ^ (-e).toNat := mul_nonneg hfloor (by positivity)
      rw [abs_of_nonneg (by omega)]
      exact (sub_le_self _ hrest).trans (abs_le.mp hn).2
    · push_cast
      rw [sub_mul, mul_assoc, hshift, mul_one]

/-- A number with few digits is a multiple of a digit, unless that digit is too coarse for it. -/
theorem IsBinary.multiple_or_small {q : ℚ} (h : IsBinary q) (u : ℤ) :
    (∃ k : ℤ, q = k * 2 ^ u) ∨ -1074 < u ∧ |q| ≤ 2 ^ (u + 52) := by
  obtain ⟨n, e, hn, he, rfl⟩ := h
  by_cases hu : u ≤ e
  · left
    refine ⟨n * 2 ^ (e - u).toNat, ?_⟩
    have hsplit : (2 : ℚ) ^ e = 2 ^ (e - u).toNat * 2 ^ u := by
      rw [← zpow_natCast, ← zpow_add₀ (by norm_num)]
      congr 1
      omega
    rw [hsplit]
    push_cast
    ring
  · right
    refine ⟨by omega, ?_⟩
    rw [abs_mul, abs_of_pos (two_zpow_pos e)]
    calc |(n : ℚ)| * 2 ^ e ≤ 2 ^ (53 : ℤ) * 2 ^ e := by
          refine mul_le_mul_of_nonneg_right ?_ (two_zpow_pos e).le
          exact_mod_cast hn
      _ = 2 ^ (53 + e) := (zpow_add₀ (by norm_num) _ _).symm
      _ ≤ 2 ^ (u + 52) := two_zpow_le (by omega)

/-- **Numbers with few digits bound the rounding of what they bound.** -/
theorem rounded_le {q r : ℚ} (hr : IsBinary r) (h : q ≤ r) : rounded q ≤ r := by
  rcases hr.multiple_or_small (unit q) with ⟨k, rfl⟩ | ⟨hu, hsmall⟩
  · exact rounded_le_multiple h
  · -- The digit is too coarse for `r`, so `q` lies beyond the first digit, which is a multiple.
    have hq := unit_le_abs hu
    have hfirst : (2 : ℚ) ^ (unit q + 52) = ((2 ^ 52 : ℤ) : ℚ) * 2 ^ unit q := by
      rw [zpow_add₀ (by norm_num), mul_comm]
      norm_num
    rcases le_abs.mp hq with hpos | hneg
    · have hup : q ≤ 2 ^ (unit q + 52) := le_trans h (le_trans (le_abs_self r) hsmall)
      rw [hfirst] at hup hpos
      exact le_trans (rounded_le_multiple hup) (le_trans hpos h)
    · have hdown : q ≤ ((-2 ^ 52 : ℤ) : ℚ) * 2 ^ unit q := by
        rw [hfirst] at hneg
        push_cast at hneg ⊢
        linarith
      refine le_trans (rounded_le_multiple hdown) ?_
      have := neg_abs_le r
      rw [hfirst] at hsmall
      push_cast at hsmall ⊢
      linarith

theorem le_rounded {q r : ℚ} (hr : IsBinary r) (h : r ≤ q) : r ≤ rounded q := by
  have := rounded_le hr.neg (neg_le_neg h)
  rw [rounded_neg] at this
  linarith

/-- **A number with few digits is not changed.** -/
theorem rounded_of_isBinary {q : ℚ} (h : IsBinary q) : rounded q = q :=
  le_antisymm (rounded_le h (le_refl q)) (le_rounded h (le_refl q))

/-- So whole numbers of a moderate size are not changed. -/
theorem rounded_intCast {n : ℤ} (h : |n| ≤ 2 ^ 53) : rounded n = n :=
  rounded_of_isBinary (isBinary_intCast h)

/-- **Rounding keeps the order.** -/
theorem rounded_mono {p q : ℚ} (h : p ≤ q) : rounded p ≤ rounded q := by
  rcases lt_trichotomy (unit p) (unit q) with hlt | heq | hgt
  · -- The first digit of `q` lies between the two.
    have hfirst := unit_le_abs (lt_of_le_of_lt (neg_le_unit p) hlt)
    have hp : |p| ≤ 2 ^ (unit q + 52) :=
      le_trans (abs_lt_unit p).le (two_zpow_le (by omega))
    have hbinary : IsBinary (2 ^ (unit q + 52)) := isBinary_zpow (by
      have := neg_le_unit q
      omega)
    rcases le_abs.mp hfirst with hpos | hneg
    · exact le_trans (rounded_le hbinary (le_trans (le_abs_self p) hp)) (le_rounded hbinary hpos)
    · have : unit q ≤ unit p := by
        refine unit_mono ?_
        rw [abs_of_nonpos (by linarith [two_zpow_pos (unit q + 52)]),
          abs_of_nonpos (by linarith [two_zpow_pos (unit q + 52)])]
        linarith
      omega
  · simp only [rounded]
    rw [heq]
    have hpos := two_zpow_pos (unit q)
    refine mul_le_mul_of_nonneg_right ?_ hpos.le
    exact_mod_cast halfEven_mono (div_le_div_of_nonneg_right h hpos.le)
  · have hfirst := unit_le_abs (lt_of_le_of_lt (neg_le_unit q) hgt)
    have hq : |q| ≤ 2 ^ (unit p + 52) :=
      le_trans (abs_lt_unit q).le (two_zpow_le (by omega))
    have hbinary : IsBinary (2 ^ (unit p + 52)) := isBinary_zpow (by
      have := neg_le_unit p
      omega)
    rcases le_abs.mp hfirst with hpos | hneg
    · have : unit p ≤ unit q := by
        refine unit_mono ?_
        rw [abs_of_nonneg (by linarith [two_zpow_pos (unit p + 52)]),
          abs_of_nonneg (by linarith [two_zpow_pos (unit p + 52)])]
        exact h
      omega
    · have hp : p ≤ -2 ^ (unit p + 52) := by linarith
      have hq' : -2 ^ (unit p + 52) ≤ q := by linarith [neg_abs_le q]
      exact le_trans (rounded_le hbinary.neg hp) (le_rounded hbinary.neg hq')

theorem rounded_nonneg {q : ℚ} (h : 0 ≤ q) : 0 ≤ rounded q := by
  have := rounded_mono h
  rwa [rounded_zero] at this

theorem abs_rounded (q : ℚ) : |rounded q| = rounded |q| := by
  rcases le_total 0 q with h | h
  · rw [abs_of_nonneg h, abs_of_nonneg (rounded_nonneg h)]
  · have hneg : 0 ≤ -q := by linarith
    rw [abs_of_nonpos h, ← abs_neg, ← rounded_neg, abs_of_nonneg (rounded_nonneg hneg)]

/-! ## 4. Beyond the range -/

/-- From here on numbers are rounded to `2 ^ 1024` at least.  It is half of a last digit less. -/
def overflow : ℚ := 2 ^ (1024 : ℤ) - 2 ^ (970 : ℤ)

/-- A power of two against a lesser one. -/
theorem two_zpow_split (d : ℤ) (n : ℕ) : (2 : ℚ) ^ (d + n) = 2 ^ n * 2 ^ d := by
  rw [zpow_add₀ (by norm_num), zpow_natCast, mul_comm]

theorem overflow_eq : overflow = (((2 ^ 53 - 1 : ℤ) : ℚ) + 1 / 2) * 2 ^ (971 : ℤ) := by
  have h971 := two_zpow_split 970 1
  have h1024 := two_zpow_split 970 54
  norm_num only at h971 h1024
  rw [overflow, h971, h1024]
  generalize (2 : ℚ) ^ (970 : ℤ) = c
  push_cast
  ring

/-- The powers of two up to `2 ^ 1023` are within the range. -/
theorem two_zpow_lt_overflow {e : ℤ} (he : e ≤ 1023) : (2 : ℚ) ^ e < overflow := by
  have hlast := two_zpow_split 970 53
  have hsplit := two_zpow_split 970 54
  norm_num only at hlast hsplit
  have hpos := two_zpow_pos 970
  refine lt_of_le_of_lt (two_zpow_le he) ?_
  rw [overflow, hlast, hsplit]
  generalize (2 : ℚ) ^ (970 : ℤ) = c at hpos ⊢
  linarith

/-- A number of moderate size is within the range of the floats. -/
theorem lt_overflow {q : ℚ} (h : |q| ≤ 2 ^ 53) : |q| < overflow :=
  lt_of_le_of_lt h (by exact_mod_cast two_zpow_lt_overflow (e := 53) (by norm_num))

theorem overflow_pos : 0 < overflow := by
  rw [overflow_eq]
  exact mul_pos (by norm_num) (two_zpow_pos 971)

theorem unit_overflow : unit overflow = 971 := by
  have hpos := two_zpow_pos 971
  refine unit_eq (Or.inr ⟨by norm_num, ?_⟩) ?_
  · have h := two_zpow_split 971 52
    norm_num only at h ⊢
    rw [abs_of_pos overflow_pos, overflow_eq, h]
    refine mul_le_mul_of_nonneg_right ?_ hpos.le
    norm_num
  · have h := two_zpow_split 971 53
    norm_num only at h ⊢
    rw [abs_of_pos overflow_pos, overflow_eq, h]
    refine mul_lt_mul_of_pos_right ?_ hpos
    norm_num

/-- Below the last tie the lower one of its two whole numbers is nearest. -/
theorem halfEven_le_of_lt_tie {q : ℚ} {n : ℤ} (h : q < n + 1 / 2) : halfEven q ≤ n := by
  by_cases hn : q ≤ n
  · exact halfEven_le hn
  · have hfloor : ⌊q⌋ = n := by
      rw [Int.floor_eq_iff]
      constructor <;> linarith
    have hfract : Int.fract q < 1 / 2 := by
      rw [← Int.self_sub_floor, hfloor]
      linarith
    simp only [halfEven]
    rw [if_pos hfract, hfloor]

/-- The bound itself is a tie, and the even one of its two whole numbers is the upper one. -/
theorem rounded_overflow : rounded overflow = 2 ^ (1024 : ℤ) := by
  have hfloor : ⌊((2 ^ 53 - 1 : ℤ) : ℚ) + 1 / 2⌋ = 2 ^ 53 - 1 := by
    rw [Int.floor_eq_iff]
    constructor <;> norm_num
  have hfract : Int.fract (((2 ^ 53 - 1 : ℤ) : ℚ) + 1 / 2) = 1 / 2 := by
    rw [← Int.self_sub_floor, hfloor]
    norm_num
  have heven : halfEven (((2 ^ 53 - 1 : ℤ) : ℚ) + 1 / 2) = 2 ^ 53 := by
    simp only [halfEven]
    rw [hfract, hfloor]
    norm_num
  have hdiv : overflow / 2 ^ (971 : ℤ) = ((2 ^ 53 - 1 : ℤ) : ℚ) + 1 / 2 := by
    rw [overflow_eq, mul_div_cancel_right₀ _ (two_zpow_pos 971).ne']
  have h := two_zpow_split 971 53
  norm_num only at h
  simp only [rounded]
  rw [unit_overflow, hdiv, heven, h]
  norm_num

/-- **Which numbers are rounded beyond the range.** -/
theorem abs_rounded_lt_iff (q : ℚ) : |rounded q| < 2 ^ (1024 : ℤ) ↔ |q| < overflow := by
  rw [abs_rounded]
  constructor
  · intro h
    by_contra hq
    have := rounded_mono (not_lt.mp hq)
    rw [rounded_overflow] at this
    linarith
  · intro h
    have hle : unit |q| ≤ 971 := by
      rw [← unit_overflow]
      refine unit_mono ?_
      rw [abs_abs, abs_of_pos overflow_pos]
      exact h.le
    rcases lt_or_eq_of_le hle with hlt | heq
    · have hq : |q| ≤ 2 ^ (1023 : ℤ) := by
        have := abs_lt_unit |q|
        rw [abs_abs] at this
        exact le_trans this.le (two_zpow_le (by omega))
      refine lt_of_le_of_lt (rounded_le (isBinary_zpow (by norm_num)) hq) ?_
      exact zpow_lt_zpow_right₀ (by norm_num) (by norm_num)
    · have hpos := two_zpow_pos 971
      have hnear : halfEven (|q| / 2 ^ (971 : ℤ)) ≤ 2 ^ 53 - 1 := by
        refine halfEven_le_of_lt_tie ((div_lt_iff₀ hpos).mpr ?_)
        exact lt_of_lt_of_eq h overflow_eq
      have hsplit := two_zpow_split 971 53
      norm_num only at hsplit
      simp only [rounded]
      rw [heq, hsplit]
      refine mul_lt_mul_of_pos_right ?_ hpos
      have : ((halfEven (|q| / 2 ^ (971 : ℤ)) : ℤ) : ℚ) ≤ ((2 ^ 53 - 1 : ℤ) : ℚ) := by
        exact_mod_cast hnear
      refine lt_of_le_of_lt this ?_
      norm_num

end VectorPaint.Number
