/-
# Rounding digit by digit

The arithmetic of floats rounds a mantissa by dropping its last digits one after the other.  Of
what is dropped it keeps two bits, the digit dropped last and whether any digit before was not
zero.  These two bits say where a number lies between two neighbors, so they are what a rational
number shows of itself at a digit: `digits q`.  Dropping a digit halves the number
(`digits_shiftRightOne`), and the mantissa rounded by the two bits is the nearest whole number
(`roundedMantissa_digits`).

So a float that is made from a mantissa, an exponent and the two bits is the number rounded, up to
the range (`isRounding_roundWithAccuracy`).
-/
import VectorPaint.Proofs.Float.Rounding
import VectorPaint.Proofs.Float.Packing

namespace VectorPaint.Number

open Float.Model (UnpackedFloat Format)
open Float.Model.UnpackedFloat (Sign Accuracy ExtendedMantissa)

/-! ## 1. What a number shows at a digit -/

/-- The whole part of a number, whether a half follows, and whether it is not just that. -/
def digits (q : ℚ) : ExtendedMantissa :=
  ⟨⌊q⌋.toNat, decide (1 / 2 ≤ Int.fract q), decide (Int.fract q ≠ 0 ∧ Int.fract q ≠ 1 / 2)⟩

/-- What a number shows whose whole part and fraction are known. -/
theorem digits_add {n : ℕ} {f : ℚ} (h0 : 0 ≤ f) (h1 : f < 1) :
    digits (n + f) = ⟨n, decide (1 / 2 ≤ f), decide (f ≠ 0 ∧ f ≠ 1 / 2)⟩ := by
  have hfloor : ⌊(n : ℚ) + f⌋ = n := by
    rw [Int.floor_eq_iff]
    push_cast
    constructor <;> linarith
  have hfract : Int.fract ((n : ℚ) + f) = f := by
    rw [← Int.self_sub_floor, hfloor]
    push_cast
    ring
  simp only [digits]
  rw [hfloor, hfract, Int.toNat_natCast]

@[simp] theorem digits_natCast (n : ℕ) : digits n = ⟨n, false, false⟩ := by
  have := digits_add (n := n) (f := 0) (le_refl _) (by norm_num)
  rw [add_zero] at this
  rw [this]
  norm_num

/-- A number that is not negative is a whole number and a fraction. -/
theorem exists_add_fract {q : ℚ} (h : 0 ≤ q) : ∃ (n : ℕ) (f : ℚ), 0 ≤ f ∧ f < 1 ∧ q = n + f := by
  refine ⟨⌊q⌋.toNat, Int.fract q, Int.fract_nonneg q, Int.fract_lt_one q, ?_⟩
  have hfloor : ((⌊q⌋.toNat : ℤ) : ℚ) = ⌊q⌋ := by
    rw [Int.toNat_of_nonneg (Int.floor_nonneg.mpr h)]
  rw [← Int.cast_natCast, hfloor, Int.floor_add_fract]

/-- **Dropping a digit halves the number.** -/
theorem digits_shiftRightOne {q : ℚ} (h : 0 ≤ q) : (digits q).shiftRightOne = digits (q / 2) := by
  obtain ⟨n, f, h0, h1, rfl⟩ := exists_add_fract h
  rw [digits_add h0 h1]
  unfold ExtendedMantissa.shiftRightOne
  dsimp only
  rcases Nat.even_or_odd' n with ⟨k, rfl | rfl⟩
  · have hsplit : (((2 * k : ℕ) : ℚ) + f) / 2 = (k : ℚ) + f / 2 := by
      push_cast
      ring
    rw [hsplit, digits_add (by linarith) (by linarith)]
    congr 1
    · omega
    · rw [decide_eq_false (by linarith)]
      simp
    · rw [Bool.eq_iff_iff]
      simp only [Bool.or_eq_true, decide_eq_true_eq]
      constructor
      · rintro (h | h)
        · constructor <;> linarith
        · refine ⟨?_, by linarith⟩
          intro h2
          exact h.1 (by linarith)
      · rintro ⟨h2, -⟩
        by_cases hhalf : 1 / 2 ≤ f
        · exact Or.inl hhalf
        · right
          constructor
          · rintro rfl
            exact h2 (by norm_num)
          · intro h3
            exact hhalf h3.ge
  · have hsplit : (((2 * k + 1 : ℕ) : ℚ) + f) / 2 = (k : ℚ) + (1 / 2 + f / 2) := by
      push_cast
      ring
    rw [hsplit, digits_add (by linarith) (by linarith)]
    congr 1
    · omega
    · rw [decide_eq_true (by linarith)]
      simp
    · rw [Bool.eq_iff_iff]
      simp only [Bool.or_eq_true, decide_eq_true_eq]
      constructor
      · rintro (h | h)
        · constructor
          · linarith
          · intro h2
            linarith
        · constructor
          · linarith
          · intro h2
            exact h.1 (by linarith)
      · rintro ⟨-, h2⟩
        by_cases hhalf : 1 / 2 ≤ f
        · exact Or.inl hhalf
        · right
          constructor
          · rintro rfl
            exact h2 (by norm_num)
          · intro h3
            exact hhalf h3.ge

/-- Dropping several digits. -/
theorem digits_shiftRight {q : ℚ} (h : 0 ≤ q) (n : ℕ) : digits q >>> n = digits (q / 2 ^ n) := by
  change n.repeat ExtendedMantissa.shiftRightOne (digits q) = _
  induction n with
  | zero => rw [Nat.repeat, pow_zero, div_one]
  | succ n ih =>
    rw [Nat.repeat, ih, digits_shiftRightOne (by positivity), div_div, pow_succ]

/-- **The mantissa rounded by its two bits is the nearest whole number.** -/
theorem roundedMantissa_digits {q : ℚ} (h : 0 ≤ q) :
    ((digits q).roundedMantissa : ℤ) = halfEven q := by
  obtain ⟨n, f, h0, h1, rfl⟩ := exists_add_fract h
  have hfloor : ⌊(n : ℚ) + f⌋ = n := by
    rw [Int.floor_eq_iff]
    push_cast
    constructor <;> linarith
  have hfract : Int.fract ((n : ℚ) + f) = f := by
    rw [← Int.self_sub_floor, hfloor]
    push_cast
    ring
  rw [digits_add h0 h1]
  simp only [halfEven, ExtendedMantissa.roundedMantissa]
  rw [hfloor, hfract]
  rcases lt_trichotomy f (1 / 2) with hlt | heq | hgt
  · rw [if_pos hlt, decide_eq_false (not_le.mpr hlt)]
    by_cases hf : f = 0
    · rw [decide_eq_false fun h => h.1 hf]
      rfl
    · rw [decide_eq_true ⟨hf, hlt.ne⟩]
      rfl
  · rw [if_neg heq.not_lt, if_neg heq.not_gt, decide_eq_true heq.ge,
      decide_eq_false fun h => h.2 heq]
    rfl
  · rw [if_neg (not_lt.mpr hgt.le), if_pos hgt, decide_eq_true hgt.le,
      decide_eq_true ⟨(lt_trans (by norm_num) hgt).ne', hgt.ne'⟩]
    rfl

/-! ## 2. Where the last digit goes -/

theorem targetExponent_binary64 (t : ℤ) :
    Format.binary64.targetExponent t = max (t - 53) (-1074) := rfl

/-- A number that has a digit at a place is at least that digit. -/
theorem le_unit {q : ℚ} {e : ℤ} (h : (2 : ℚ) ^ (e + 52) ≤ |q|) : e ≤ unit q := by
  by_contra hlt
  have h1 := abs_lt_unit q
  have h2 := two_zpow_le (show unit q + 53 ≤ e + 52 by omega)
  linarith

/-- **The last digit is where the format asks for it,** if the mantissa reaches as far. -/
theorem targetExponent_digits {q : ℚ} {e : ℤ} (hq : 0 < q) (he : e ≤ unit q) :
    Format.binary64.targetExponent (Float.Model.totalExponent (digits (q / 2 ^ e)).mantissa e) =
      unit q := by
  have hpos := two_zpow_pos e
  obtain ⟨m, f, h0, h1, hsplit⟩ := exists_add_fract (div_nonneg hq.le hpos.le)
  have hq' : q = (m + f) * 2 ^ e := by
    rw [← hsplit, div_mul_cancel₀ _ hpos.ne']
  rw [hsplit, digits_add h0 h1, targetExponent_binary64]
  unfold Float.Model.totalExponent
  dsimp only
  rcases Nat.eq_zero_or_pos m with rfl | hm
  · -- Without a whole part the number lies below the last digit of all.
    have hlt : q < 2 ^ e := by
      rw [hq', Nat.cast_zero, zero_add]
      nlinarith
    have hunit : unit q = -1074 := by
      by_contra hne
      have h2 := unit_le_abs (lt_of_le_of_ne (neg_le_unit q) (Ne.symm hne))
      have h3 := two_zpow_le (show e ≤ unit q + 52 by omega)
      rw [abs_of_pos hq] at h2
      linarith
    have : Nat.log2 0 = 0 := rfl
    omega
  · have hlow : (2 : ℚ) ^ m.log2 ≤ m := by
      exact_mod_cast Nat.log2_self_le hm.ne'
    have hhigh : (m : ℚ) + f < 2 ^ (m.log2 + 1) := by
      have : m + 1 ≤ 2 ^ (m.log2 + 1) := Nat.lt_log2_self
      have : (m : ℚ) + 1 ≤ 2 ^ (m.log2 + 1) := by exact_mod_cast this
      linarith
    have hlog : Int.log 2 q = m.log2 + e := by
      apply le_antisymm
      · have : q < (2 : ℕ) ^ ((m.log2 : ℤ) + e + 1) := by
          push_cast
          rw [hq', show (m.log2 : ℤ) + e + 1 = e + ((m.log2 + 1 : ℕ) : ℤ) by push_cast; ring,
            two_zpow_split]
          exact mul_lt_mul_of_pos_right hhigh hpos
        have := (Int.lt_zpow_iff_log_lt (b := 2) (by norm_num) hq).mp this
        omega
      · refine (Int.zpow_le_iff_le_log (b := 2) (by norm_num) hq).mp ?_
        push_cast
        rw [hq', show (m.log2 : ℤ) + e = e + (m.log2 : ℕ) by ring, two_zpow_split]
        refine mul_le_mul_of_nonneg_right ?_ hpos.le
        linarith
    rw [unit_of_ne_zero hq.ne', abs_of_pos hq, hlog]
    omega

theorem mantissa_ofMantissaAndAccuracy (m : ℕ) (a : Accuracy) :
    (ExtendedMantissa.ofMantissaAndAccuracy m a).mantissa = m := by
  rcases a with _ | (_ | _ | _) <;> rfl

/-- Digits are dropped up to the last one that the number has. -/
theorem shiftToTargetExponent_digits {q : ℚ} {m : ℕ} {e : ℤ} {a : Accuracy} (hq : 0 < q)
    (he : e ≤ unit q)
    (h : ExtendedMantissa.ofMantissaAndAccuracy m a = digits (q / 2 ^ e)) :
    UnpackedFloat.shiftToTargetExponent Format.binary64 m e a =
      (digits (q / 2 ^ unit q), unit q) := by
  have hm : m = (digits (q / 2 ^ e)).mantissa := by
    rw [← h, mantissa_ofMantissaAndAccuracy]
  have hpos := two_zpow_pos e
  have hshift : e + ((unit q - e).toNat : ℤ) = unit q := by omega
  unfold UnpackedFloat.shiftToTargetExponent UnpackedFloat.shiftToExponent
  dsimp only
  rw [h, hm, targetExponent_digits hq he, hshift, digits_shiftRight (div_nonneg hq.le hpos.le),
    div_div, ← zpow_natCast, ← zpow_add₀ (by norm_num), hshift]

/-- What has few enough digits already keeps them. -/
theorem shiftToTargetExponent_of_lt {m : ℕ} {e : ℤ} (hm : m < 2 ^ 53) (he : -1074 ≤ e) :
    UnpackedFloat.shiftToTargetExponent Format.binary64 m e .exact = (⟨m, false, false⟩, e) := by
  have hlog : m.log2 < 53 := by
    rcases Nat.eq_zero_or_pos m with rfl | hpos
    · decide
    · exact (Nat.log2_lt hpos.ne').mpr hm
  have hshift : (Format.binary64.targetExponent (Float.Model.totalExponent m e) - e).toNat = 0 := by
    rw [targetExponent_binary64]
    unfold Float.Model.totalExponent
    omega
  unfold UnpackedFloat.shiftToTargetExponent UnpackedFloat.shiftToExponent
  dsimp only
  rw [hshift]
  simp only [Int.natCast_zero, add_zero]
  rfl

/-- A mantissa that was rounded up to one digit more drops it. -/
theorem shiftToTargetExponent_carry {e : ℤ} (he : -1074 ≤ e) :
    UnpackedFloat.shiftToTargetExponent Format.binary64 (2 ^ 53) e .exact =
      (⟨2 ^ 52, false, false⟩, e + 1) := by
  have hshift : (Format.binary64.targetExponent (Float.Model.totalExponent (2 ^ 53) e) - e).toNat =
      1 := by
    have hlog : Nat.log2 (2 ^ 53) = 53 := Nat.log2_two_pow
    rw [targetExponent_binary64]
    unfold Float.Model.totalExponent
    rw [hlog]
    omega
  unfold UnpackedFloat.shiftToTargetExponent UnpackedFloat.shiftToExponent
  dsimp only
  rw [hshift]
  rfl

/-! ## 3. Rounding a mantissa -/

/-- A sign as a factor. -/
def signFactor : Sign → ℚ
  | .negative => -1
  | .positive => 1

theorem signFactor_apply (s : Sign) (n : ℤ) : ((s.apply n : ℤ) : ℚ) = signFactor s * n := by
  cases s <;> simp [Sign.apply, signFactor]

theorem signFactor_cases (s : Sign) : signFactor s = -1 ∨ signFactor s = 1 := by
  cases s
  · exact Or.inl rfl
  · exact Or.inr rfl

theorem rounded_signFactor (s : Sign) (q : ℚ) :
    rounded (signFactor s * q) = signFactor s * rounded q := by
  rcases signFactor_cases s with h | h
  · rw [h, neg_one_mul, neg_one_mul, rounded_neg]
  · rw [h, one_mul, one_mul]

/-- The number that an unpacked float is, if it is finite. -/
def unpackedValue : UnpackedFloat → ℚ
  | .finite s m e _ => signFactor s * (m * 2 ^ e)
  | _ => 0

@[simp] theorem unpackedValue_finite (s : Sign) (m : ℕ) (e : ℤ) (h : 0 < m) :
    unpackedValue (.finite s m e h) = signFactor s * (m * 2 ^ e) := rfl

/-- A float that is a number rounded, with no regard to the range. -/
def IsRounding (q : ℚ) : UnpackedFloat → Prop
  | .finite s m e h => IsCanonical m e ∧ unpackedValue (.finite s m e h) = rounded q
  | .zero _ => rounded q = 0
  | _ => False

/-- **A mantissa with the two bits behind it makes the number rounded.**  The mantissa must reach
as far as the last digit of the number. -/
theorem isRounding_roundWithAccuracy (s : Sign) {q : ℚ} {m : ℕ} {e : ℤ} {a : Accuracy}
    (hq : 0 < q) (he : e ≤ unit q)
    (h : ExtendedMantissa.ofMantissaAndAccuracy m a = digits (q / 2 ^ e)) :
    IsRounding (signFactor s * q) (UnpackedFloat.roundWithAccuracy Format.binary64 s m e a) := by
  have hpos := two_zpow_pos (unit q)
  have hscaled : 0 ≤ q / 2 ^ unit q := div_nonneg hq.le hpos.le
  obtain ⟨r, hr⟩ : ∃ r, (digits (q / 2 ^ unit q)).roundedMantissa = r := ⟨_, rfl⟩
  have hround : (r : ℤ) = halfEven (q / 2 ^ unit q) := by
    rw [← hr, roundedMantissa_digits hscaled]
  have hvalue : rounded q = r * 2 ^ unit q := by
    simp only [rounded]
    rw [← hround, Int.cast_natCast]
  have hmost : r ≤ 2 ^ 53 := by
    have hlt : q / 2 ^ unit q ≤ ((2 ^ 53 : ℤ) : ℚ) := by
      have := abs_lt_unit q
      rw [abs_of_pos hq, show unit q + 53 = unit q + (53 : ℕ) by norm_num, two_zpow_split] at this
      rw [div_le_iff₀ hpos]
      push_cast
      exact this.le
    have := halfEven_le hlt
    omega
  simp only [UnpackedFloat.roundWithAccuracy]
  rw [shiftToTargetExponent_digits hq he h]
  dsimp only
  rw [hr]
  rcases lt_or_eq_of_le hmost with hlt | heq
  · rw [shiftToTargetExponent_of_lt hlt (neg_le_unit q)]
    dsimp only
    split
    · rename_i h0
      simp only [IsRounding]
      rw [rounded_signFactor, hvalue, h0]
      ring
    · rename_i h0
      refine ⟨⟨hlt, neg_le_unit q, ?_⟩, ?_⟩
      · rcases eq_or_ne (unit q) (-1074) with hu | hu
        · exact Or.inr hu
        · left
          have hfirst := unit_le_abs (lt_of_le_of_ne (neg_le_unit q) (Ne.symm hu))
          rw [abs_of_pos hq, show unit q + 52 = unit q + (52 : ℕ) by norm_num,
            two_zpow_split] at hfirst
          have : ((2 ^ 52 : ℤ) : ℚ) ≤ q / 2 ^ unit q := by
            rw [le_div_iff₀ hpos]
            push_cast
            exact hfirst
          have := le_halfEven this
          omega
      · rw [rounded_signFactor, hvalue, unpackedValue_finite]
  · rw [heq, shiftToTargetExponent_carry (neg_le_unit q)]
    dsimp only
    rw [dif_neg (by norm_num)]
    refine ⟨⟨by norm_num, ?_, Or.inl (le_refl _)⟩, ?_⟩
    · have := neg_le_unit q
      omega
    · rw [rounded_signFactor, hvalue, heq, unpackedValue_finite, zpow_add_one₀ two_ne_zero]
      push_cast
      ring

/-- An exact mantissa has no bits behind it. -/
theorem digits_of_eq {q : ℚ} {m : ℕ} {e : ℤ} (h : q = m * 2 ^ e) :
    ExtendedMantissa.ofMantissaAndAccuracy m .exact = digits (q / 2 ^ e) := by
  rw [h, mul_div_cancel_right₀ _ (two_zpow_pos e).ne', digits_natCast]
  rfl

/-- **A mantissa with an exponent makes the number rounded.** -/
theorem isRounding_round (s : Sign) {m : ℕ} {e : ℤ} (hm : 0 < m) :
    IsRounding (signFactor s * (m * 2 ^ e)) (UnpackedFloat.round Format.binary64 s m e) := by
  have hpos := two_zpow_pos e
  have hq : (0 : ℚ) < m * 2 ^ e := mul_pos (by exact_mod_cast hm) hpos
  have htarget : Format.binary64.targetExponent (Float.Model.totalExponent m e) ≤
      unit (m * 2 ^ e) := by
    rw [targetExponent_binary64]
    unfold Float.Model.totalExponent
    refine max_le (le_unit ?_) (neg_le_unit _)
    have hlow : (2 : ℚ) ^ m.log2 ≤ m := by exact_mod_cast Nat.log2_self_le hm.ne'
    rw [abs_of_pos hq, show (m.log2 : ℤ) + 1 + e - 53 + 52 = e + (m.log2 : ℕ) by ring,
      two_zpow_split]
    exact mul_le_mul_of_nonneg_right hlow hpos.le
  unfold UnpackedFloat.round UnpackedFloat.decreaseExponent
  dsimp only
  generalize Format.binary64.targetExponent (Float.Model.totalExponent m e) = t at htarget ⊢
  refine isRounding_roundWithAccuracy s hq ?_ (digits_of_eq ?_)
  · have hmono : e ≤ unit (m * 2 ^ e) ∨ t < e := by
      rcases lt_or_ge t e with h | h
      · exact Or.inr h
      · exact Or.inl (h.trans htarget)
    omega
  · rw [Nat.shiftLeft_eq]
    push_cast
    rw [mul_assoc, ← zpow_natCast, ← zpow_add₀ (by norm_num)]
    congr 2
    omega

/-- **A whole number with an exponent makes the number rounded.** -/
theorem isRounding_normalize (n e : ℤ) (s : Sign) :
    IsRounding (n * 2 ^ e) (UnpackedFloat.normalize Format.binary64 n e s) := by
  simp only [UnpackedFloat.normalize]
  rcases lt_trichotomy n 0 with h | h | h
  · rw [Int.compare_eq_lt.mpr h]
    have hcast : (n : ℚ) * 2 ^ e = signFactor .negative * (((-n).toNat : ℕ) * 2 ^ e) := by
      have : (((-n).toNat : ℤ) : ℚ) = ((-n : ℤ) : ℚ) := by rw [Int.toNat_of_nonneg (by omega)]
      rw [← Int.cast_natCast, this]
      simp only [signFactor]
      push_cast
      ring
    rw [hcast]
    exact isRounding_round .negative (by omega)
  · rw [Int.compare_eq_eq.mpr h, h]
    simp only [IsRounding]
    rw [Int.cast_zero, zero_mul, rounded_zero]
  · rw [Int.compare_eq_gt.mpr h]
    have hcast : (n : ℚ) * 2 ^ e = signFactor .positive * ((n.toNat : ℕ) * 2 ^ e) := by
      have : ((n.toNat : ℤ) : ℚ) = (n : ℚ) := by rw [Int.toNat_of_nonneg (by omega)]
      rw [← Int.cast_natCast, this]
      simp only [signFactor]
      ring
    rw [hcast]
    exact isRounding_round .positive (by omega)

end VectorPaint.Number
