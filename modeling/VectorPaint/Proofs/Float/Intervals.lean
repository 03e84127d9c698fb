/-
# The shortest decimal is read back

The reals that round to a float make up an interval around it.  It reaches half of a last digit up
and half of one down, or a quarter below a power of two, and its ends belong to it where the
mantissa is even (`rounded_of_holds`).  A decimal in the interval of a float is therefore read back
as the float.

A grid of decimals is tried at the two points next to the float.  What is taken from there is in
the interval (`holds_of_onGrid?`), and a grid as fine as a quarter of the last digit has a point to
take (`onGrid?_isSome`).  The grids that are tried start no coarser than the float is large, so the
last of them, nineteen digits on, is as fine as that (`ten_zpow_coarsestGrid_le`).
-/
import VectorPaint.Number.Shortest
import VectorPaint.Proofs.Float.Decimals

namespace VectorPaint.Number

/-! ## 1. The interval of a float -/

namespace RoundingInterval

/-- A number is in an interval. -/
def Holds (r : RoundingInterval) (q : ℚ) : Prop :=
  if r.closed then r.low * 2 ^ r.unit ≤ q ∧ q ≤ r.high * 2 ^ r.unit
  else r.low * 2 ^ r.unit < q ∧ q < r.high * 2 ^ r.unit

theorem Holds.le {r : RoundingInterval} {q : ℚ} (h : r.Holds q) :
    r.low * 2 ^ r.unit ≤ q ∧ q ≤ r.high * 2 ^ r.unit := by
  unfold Holds at h
  split at h
  · exact h
  · exact ⟨h.1.le, h.2.le⟩

end RoundingInterval

variable {m : ℕ} {e : ℤ} {q : ℚ}

/-- The ends of an interval in last digits.  An odd mantissa leaves them out. -/
theorem near_of_holds (hm : 0 < m) (h : (roundingInterval m e).Holds q) :
    |q / 2 ^ e - m| ≤ 1 / 2 ∧ (m % 2 ≠ 0 → |q / 2 ^ e - m| < 1 / 2) ∧
      (m = 2 ^ 52 → -1074 < e → m - 1 / 4 ≤ q / 2 ^ e) := by
  have hpos := two_zpow_pos e
  have hunit : (2 : ℚ) ^ (e - 2) = 2 ^ e / 4 := by
    rw [zpow_sub₀ two_ne_zero]
    norm_num
  have hscale : ∀ c : ℚ, c * 2 ^ (e - 2) = c / 4 * 2 ^ e := by
    intro c
    rw [hunit]
    ring
  have hhigh : ((roundingInterval m e).high : ℚ) = 4 * m + 2 := by
    simp only [roundingInterval]
    push_cast
    ring
  have hlow : (4 * m - 2 : ℚ) ≤ (roundingInterval m e).low ∧
      (m = 2 ^ 52 → -1074 < e → (4 * m - 1 : ℚ) ≤ (roundingInterval m e).low) := by
    simp only [roundingInterval]
    by_cases hlead : m = leastFullMantissa ∧ leastExponent < e
    · rw [if_pos hlead, Nat.cast_sub (by omega)]
      push_cast
      exact ⟨by linarith, fun _ _ => le_refl _⟩
    · rw [if_neg hlead, Nat.cast_sub (by omega)]
      push_cast
      exact ⟨le_refl _, fun h1 h2 => absurd ⟨h1, h2⟩ hlead⟩
  have hle := h.le
  change (roundingInterval m e).low * 2 ^ (e - 2) ≤ q ∧
    q ≤ (roundingInterval m e).high * 2 ^ (e - 2) at hle
  rw [hscale, hscale, ← le_div_iff₀ hpos, ← div_le_iff₀ hpos, hhigh] at hle
  refine ⟨?_, fun hodd => ?_, fun h1 h2 => ?_⟩
  · rw [abs_le]
    constructor <;> linarith [hlow.1, hle.1, hle.2]
  · have hopen : (roundingInterval m e).closed = false := by
      change (m % 2 == 0) = false
      simpa using hodd
    have hlt := h
    unfold RoundingInterval.Holds at hlt
    rw [hopen] at hlt
    change _ * 2 ^ (e - 2) < q ∧ q < _ * 2 ^ (e - 2) at hlt
    rw [hscale, hscale, ← lt_div_iff₀ hpos, ← div_lt_iff₀ hpos, hhigh] at hlt
    rw [abs_lt]
    constructor <;> linarith [hlow.1, hlt.1, hlt.2]
  · linarith [hlow.2 h1 h2, hle.1]

/-- The nearest whole number is the one within a half, or on a tie the even one. -/
theorem halfEven_of_near_natCast {f : ℚ} (h : |f - m| ≤ 1 / 2)
    (hodd : m % 2 ≠ 0 → |f - m| < 1 / 2) : halfEven f = m := by
  rcases Nat.mod_two_eq_zero_or_one m with heven | hone
  · obtain ⟨k, rfl⟩ := Nat.dvd_of_mod_eq_zero heven
    have hcast : ((2 * k : ℤ) : ℚ) = (2 * k : ℕ) := by push_cast; rfl
    rw [← hcast] at h
    rw [halfEven_of_near_even h, Nat.cast_mul, Nat.cast_ofNat]
  · exact halfEven_of_near (by rw [Int.cast_natCast]; exact hodd (by omega))

/-- A number whose last digit is known is rounded there. -/
theorem rounded_mul_zpow {f : ℚ} {n : ℤ} (hunit : unit (f * 2 ^ e) = e) (hn : halfEven f = n) :
    rounded (f * 2 ^ e) = n * 2 ^ e := by
  simp only [rounded]
  rw [hunit, mul_div_cancel_right₀ _ (two_zpow_pos e).ne', hn]

/-- Where a number of 53 digits has its last digit. -/
theorem unit_mul_zpow {f : ℚ} (he : -1074 ≤ e) (hlow : e = -1074 ∨ 2 ^ 52 ≤ f) (hpos : 0 < f)
    (hhigh : f < 2 ^ 53) : unit (f * 2 ^ e) = e := by
  have hunit := two_zpow_pos e
  have hfirst : (2 : ℚ) ^ (e + 52) = 2 ^ 52 * 2 ^ e := two_zpow_split e 52
  have hlast : (2 : ℚ) ^ (e + 53) = 2 ^ 53 * 2 ^ e := two_zpow_split e 53
  have habs : |f * 2 ^ e| = f * 2 ^ e := abs_of_pos (mul_pos hpos hunit)
  refine unit_eq ?_ ?_
  · rw [habs, hfirst]
    exact hlow.imp_right fun h => ⟨he, mul_le_mul_of_nonneg_right h hunit.le⟩
  · rw [habs, hlast]
    exact mul_lt_mul_of_pos_right hhigh hunit

/-- Just below a power of two a number has one digit more, which rounding up to the power drops. -/
theorem rounded_below_power {f : ℚ} (he : -1074 < e) (hlow : 2 ^ 52 - 1 / 4 ≤ f)
    (hhigh : f < 2 ^ 52) : rounded (f * 2 ^ e) = 2 ^ 52 * 2 ^ e := by
  have hsplit : (2 : ℚ) ^ e = 2 * 2 ^ (e - 1) := by
    rw [zpow_sub_one₀ two_ne_zero]
    ring
  have hunit : unit (f * 2 * 2 ^ (e - 1)) = e - 1 :=
    unit_mul_zpow (by omega) (.inr (by linarith)) (by linarith) (by linarith)
  have hhalf : halfEven (f * 2) = 2 * 2 ^ 52 := by
    refine halfEven_of_near_even ?_
    rw [abs_le]
    push_cast
    constructor <;> linarith
  rw [hsplit, ← mul_assoc, ← mul_assoc, rounded_mul_zpow hunit hhalf]
  push_cast
  ring

/-- **What is in the interval of a float is rounded to the float.** -/
theorem rounded_of_holds (hm : 0 < m) (hc : IsCanonical m e)
    (h : (roundingInterval m e).Holds q) : rounded q = m * 2 ^ e := by
  have hpos := two_zpow_pos e
  obtain ⟨hnear, hodd, hpower⟩ := near_of_holds hm h
  obtain ⟨f, rfl⟩ : ∃ f, q = f * 2 ^ e := ⟨q / 2 ^ e, (div_mul_cancel₀ _ hpos.ne').symm⟩
  rw [mul_div_cancel_right₀ _ hpos.ne'] at hnear hodd hpower
  obtain ⟨hlow, hhigh⟩ := abs_le.mp hnear
  have hone : (1 : ℚ) ≤ m := by exact_mod_cast hm
  have hfew : (m : ℚ) + 1 ≤ 2 ^ 53 := by exact_mod_cast hc.few
  by_cases hfirst : e = -1074 ∨ 2 ^ 52 ≤ f
  · -- The number has its last digit where the float has it.
    rw [← Int.cast_natCast m]
    exact rounded_mul_zpow (unit_mul_zpow hc.least hfirst (by linarith) (by linarith))
      (halfEven_of_near_natCast hnear hodd)
  · obtain ⟨he, hlt⟩ := not_or.mp hfirst
    have hleast := lt_of_le_of_ne hc.least (Ne.symm he)
    have hfull : m = 2 ^ 52 := by
      have hlead := hc.leading.resolve_right he
      have hlt' : (m : ℚ) < 2 ^ 52 + 1 := by linarith
      have : m < 2 ^ 52 + 1 := by exact_mod_cast hlt'
      omega
    have hquarter := hpower hfull hleast
    rw [hfull] at hquarter ⊢
    push_cast at hquarter ⊢
    exact rounded_below_power hleast hquarter (not_le.mp hlt)

/-! ## 2. The points of a grid -/

namespace RoundingInterval

variable {r : RoundingInterval} {grid : ℤ} {n : ℕ}

/-- A power of ten as the grids measure it. -/
theorem zpow_eq_mul_toNat {a : ℚ} (ha : a ≠ 0) (k : ℤ) : a ^ k.toNat = a ^ k * a ^ (-k).toNat := by
  rw [← zpow_natCast, ← zpow_natCast, ← zpow_add₀ ha]
  congr 1
  omega

/-- The reals and the points of a grid have one measure. -/
theorem exists_scale (unit grid : ℤ) : ∃ s : ℚ, 0 < s ∧
    ((Nat.pow 2 unit.toNat * Nat.pow 10 (-grid).toNat : ℕ) : ℚ) = 2 ^ unit * s ∧
    ((Nat.pow 10 grid.toNat * Nat.pow 2 (-unit).toNat : ℕ) : ℚ) = 10 ^ grid * s := by
  refine ⟨2 ^ (-unit).toNat * 10 ^ (-grid).toNat, by positivity, ?_, ?_⟩
  · simp only [Nat.pow_eq]
    push_cast
    rw [zpow_eq_mul_toNat two_ne_zero unit, mul_assoc]
  · simp only [Nat.pow_eq]
    push_cast
    rw [zpow_eq_mul_toNat (by norm_num) grid]
    ring

/-- Whether a point is in an interval, in the measure of the grid. -/
theorem inside_iff_holds {reals points : ℕ} {s : ℚ} (hs : 0 < s)
    (hreals : (reals : ℚ) = 2 ^ r.unit * s) (hpoints : (points : ℚ) = 10 ^ grid * s) (c : ℕ) :
    (if r.closed then decide (r.low * reals ≤ c * points) && decide (c * points ≤ r.high * reals)
      else decide (r.low * reals < c * points) && decide (c * points < r.high * reals)) = true ↔
      r.Holds (c * 10 ^ grid) := by
  have hreal : ∀ a : ℕ, ((a * reals : ℕ) : ℚ) = a * 2 ^ r.unit * s := fun a => by
    rw [Nat.cast_mul, hreals, mul_assoc]
  have hpoint : ((c * points : ℕ) : ℚ) = c * 10 ^ grid * s := by
    rw [Nat.cast_mul, hpoints, mul_assoc]
  have hle : ∀ a : ℕ, a * reals ≤ c * points ↔ (a : ℚ) * 2 ^ r.unit ≤ c * 10 ^ grid := by
    intro a
    have hcast : ((a * reals : ℕ) : ℚ) ≤ (c * points : ℕ) ↔ a * reals ≤ c * points := Nat.cast_le
    rw [← hcast, hreal, hpoint, mul_le_mul_iff_of_pos_right hs]
  have hge : ∀ a : ℕ, c * points ≤ a * reals ↔ (c : ℚ) * 10 ^ grid ≤ a * 2 ^ r.unit := by
    intro a
    have hcast : ((c * points : ℕ) : ℚ) ≤ (a * reals : ℕ) ↔ c * points ≤ a * reals := Nat.cast_le
    rw [← hcast, hreal, hpoint, mul_le_mul_iff_of_pos_right hs]
  unfold Holds
  split
  · rw [Bool.and_eq_true, decide_eq_true_iff, decide_eq_true_iff, hle, hge]
  · rw [Bool.and_eq_true, decide_eq_true_iff, decide_eq_true_iff, ← not_le, ← not_le, hge, hle,
      not_le, not_le]

/-- **What is taken from a grid is in the interval.**  Nothing is taken only if the point below the
value is not. -/
theorem onGrid?_spec (r : RoundingInterval) (grid : ℤ) :
    match r.onGrid? grid with
    | some n => r.Holds (n * 10 ^ grid)
    | none => ∃ n : ℕ, (n : ℚ) * 10 ^ grid ≤ r.value * 2 ^ r.unit ∧
        (r.value : ℚ) * 2 ^ r.unit < (n + 1) * 10 ^ grid ∧ ¬ r.Holds (n * 10 ^ grid) := by
  obtain ⟨s, hs, hreals, hpoints⟩ := exists_scale r.unit grid
  unfold onGrid?
  extract_lets reals points below inside gapBelow gapAbove
  change (reals : ℚ) = _ at hreals
  change (points : ℚ) = _ at hpoints
  have hinside : ∀ c : ℕ, inside c = true ↔ r.Holds (c * 10 ^ grid) :=
    inside_iff_holds hs hreals hpoints
  cases hbelow : inside below with
  | true =>
    cases habove : inside (below + 1) with
    | false => simpa using (hinside below).mp hbelow
    | true =>
      split_ifs with hnearer hnone
      · exact (hinside below).mp hbelow
      · exact (hinside (below + 1)).mp habove
      · exact absurd rfl hnone
  | false =>
    cases habove : inside (below + 1) with
    | true => simpa using (hinside (below + 1)).mp habove
    | false =>
      have hpos : 0 < points := by
        have : (0 : ℚ) < points := by
          rw [hpoints]
          exact mul_pos (ten_zpow_pos grid) hs
        exact_mod_cast this
      have hle : below * points ≤ r.value * reals := Nat.div_mul_le_self _ _
      have hlt : r.value * reals < (below + 1) * points :=
        Nat.lt_mul_of_div_lt (Nat.lt_succ_self _) hpos
      have hle' : (below : ℚ) * points ≤ r.value * reals := by exact_mod_cast hle
      have hlt' : (r.value : ℚ) * reals < (below + 1) * points := by exact_mod_cast hlt
      rw [hreals, hpoints, ← mul_assoc, ← mul_assoc] at hle' hlt'
      refine ⟨below, le_of_mul_le_mul_right hle' hs, lt_of_mul_lt_mul_right hlt' hs.le,
        fun hholds => ?_⟩
      rw [(hinside below).mpr hholds] at hbelow
      cases hbelow

/-- A grid as fine as a quarter of the last digit has a point next to the value. -/
theorem onGrid?_ne_none {r : RoundingInterval} (hlow : r.low < r.value) (hhigh : r.value < r.high)
    (hfine : (10 : ℚ) ^ grid ≤ 2 ^ r.unit) : r.onGrid? grid ≠ none := by
  intro hnone
  have hspec := r.onGrid?_spec grid
  rw [hnone] at hspec
  obtain ⟨n, hle, hlt, hout⟩ := hspec
  have hpos := two_zpow_pos r.unit
  have hlow' : (r.low : ℚ) + 1 ≤ r.value := by exact_mod_cast hlow
  have hhigh' : (r.value : ℚ) < r.high := by exact_mod_cast hhigh
  have habove : (r.low : ℚ) * 2 ^ r.unit < n * 10 ^ grid := by nlinarith
  have hbelow : (n : ℚ) * 10 ^ grid < r.high * 2 ^ r.unit :=
    hle.trans_lt (mul_lt_mul_of_pos_right hhigh' hpos)
  refine hout ?_
  unfold Holds
  split
  · exact ⟨habove.le, hbelow.le⟩
  · exact ⟨habove, hbelow⟩

end RoundingInterval

/-! ## 3. The grids that are tried -/

/-- A power of ten against a power of two, by one such pair. -/
theorem ten_zpow_le_of_pair {k : ℕ} {c j l : ℤ} (hk : k ≠ 0)
    (h : ((10 : ℚ) ^ (k : ℤ)) ^ j ≤ (2 ^ c) ^ j) (hl : c * j ≤ l * k) : (10 : ℚ) ^ j ≤ 2 ^ l := by
  refine le_of_pow_le_pow_left₀ hk (two_zpow_pos l).le ?_
  calc ((10 : ℚ) ^ j) ^ k = (10 ^ (k : ℤ)) ^ j := by
        rw [← zpow_natCast, ← zpow_mul, ← zpow_mul, mul_comm]
    _ ≤ (2 ^ c) ^ j := h
    _ = 2 ^ (c * j) := (zpow_mul _ _ _).symm
    _ ≤ 2 ^ (l * k) := two_zpow_le hl
    _ = (2 ^ l) ^ k := by rw [zpow_mul, zpow_natCast]

/-- Powers of ten against powers of two of the sizes that floats have, with a factor of sixteen to
spare.  A power of ten takes 3.32 binary digits, which is less than `10 / 3` and more than
`93 / 28`. -/
theorem ten_zpow_le {j l : ℤ} (h : 100000 * j ≤ 30103 * l) (hlow : -1100 ≤ l) (hhigh : l ≤ 1100) :
    (10 : ℚ) ^ j ≤ 2 ^ (l + 4) := by
  rcases le_total 0 j with hj | hj
  · refine ten_zpow_le_of_pair (k := 3) (c := 10) (by norm_num) ?_ (by push_cast; omega)
    exact zpow_le_zpow_left₀ hj (by norm_num) (by norm_num)
  · refine ten_zpow_le_of_pair (k := 28) (c := 93) (by norm_num) ?_ (by push_cast; omega)
    exact zpow_le_zpow_of_nonpos (by norm_num) (by norm_num) hj

/-- **The last grid that is tried is as fine as a quarter of the last digit.** -/
theorem ten_zpow_coarsestGrid_le (hm : 0 < m) (hc : IsCanonical m e) (he : e ≤ 971) :
    (10 : ℚ) ^ (coarsestGrid m e - 20) ≤ 2 ^ (e - 2) := by
  have hleast := hc.least
  have hlog : m.log2 < 53 := (Nat.log2_lt hm.ne').mpr hc.few
  obtain ⟨j, hj⟩ : ∃ j : ℤ, (m.log2 + e + 1) * 30103 / 100000 = j := ⟨_, rfl⟩
  have hgrid : coarsestGrid m e - 20 = j + -19 := by
    unfold coarsestGrid
    omega
  have hsize : (10 : ℚ) ^ j ≤ 2 ^ (m.log2 + e + 1 + 4) :=
    ten_zpow_le (by omega) (by omega) (by omega)
  have hnineteen : (10 : ℚ) ^ (-19 : ℤ) ≤ 2 ^ (-63 : ℤ) := by norm_num
  rw [hgrid, zpow_add₀ (by norm_num)]
  calc (10 : ℚ) ^ j * 10 ^ (-19 : ℤ) ≤ 2 ^ (m.log2 + e + 1 + 4) * 2 ^ (-63 : ℤ) :=
        mul_le_mul hsize hnineteen (ten_zpow_pos _).le (two_zpow_pos _).le
    _ = 2 ^ (m.log2 + e + 1 + 4 + -63) := (zpow_add₀ two_ne_zero _ _).symm
    _ ≤ 2 ^ (e - 2) := two_zpow_le (by omega)

/-! ## 4. The shortest decimal -/

/-- The number that a decimal is. -/
def Decimal.exact (d : Decimal) : ℚ := d.digits * 10 ^ d.exponent

/-- Some grid has a point of the interval, and the shortest decimal is such a point. -/
theorem holds_shortest (hm : 0 < m) (hc : IsCanonical m e) (he : e ≤ 971) :
    (roundingInterval m e).Holds (shortest m e).exact := by
  obtain ⟨tried, htried⟩ : ∃ tried, ((List.range 21).findSome? fun (i : ℕ) =>
      ((roundingInterval m e).onGrid? (coarsestGrid m e - i)).map fun digits =>
        (⟨digits, coarsestGrid m e - i⟩ : Decimal)) = tried := ⟨_, rfl⟩
  have hshortest : shortest m e = tried.getD ⟨m, e⟩ := by
    rw [← htried]
    rfl
  cases tried with
  | none =>
    have hlast := List.findSome?_eq_none_iff.mp htried 20 (by simp)
    rw [Option.map_eq_none_iff] at hlast
    refine absurd hlast (RoundingInterval.onGrid?_ne_none ?_ ?_ ?_)
    · simp only [roundingInterval]
      split <;> omega
    · simp only [roundingInterval]
      omega
    · exact ten_zpow_coarsestGrid_le hm hc he
  | some d =>
    obtain ⟨i, -, hi⟩ := List.exists_of_findSome?_eq_some htried
    obtain ⟨n, hn, rfl⟩ := Option.map_eq_some_iff.mp hi
    have hspec := (roundingInterval m e).onGrid?_spec (coarsestGrid m e - i)
    rw [hn] at hspec
    rw [hshortest]
    exact hspec

/-- **The shortest decimal of a float is rounded to the float.** -/
theorem rounded_shortest (hm : 0 < m) (hc : IsCanonical m e) (he : e ≤ 971) :
    rounded (shortest m e).exact = m * 2 ^ e :=
  rounded_of_holds hm hc (holds_shortest hm hc he)

end VectorPaint.Number
