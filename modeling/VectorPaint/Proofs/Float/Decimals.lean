/-
# Decimals as floats

A decimal is read into the nearest float.  It is multiplied or divided out first and rounded once,
except where its exponent is so far out that the result is known without: such a decimal is above
the range or below half of the last digit of all.  What is read is the same either way
(`isNearest_ofScientific`), and a zero, be it written or rounded to, keeps the sign in front of the
digits (`Literal.isNearest_value`).
-/
import VectorPaint.Number.Literal
import VectorPaint.Proofs.Float.Arithmetic
import VectorPaint.Proofs.Float.Nearness

namespace VectorPaint.Number

open Float.Model (UnpackedFloat Format pack)
open Float.Model.UnpackedFloat (Sign Accuracy)

/-! ## 1. The nearest float and its sign -/

/-- A float is nearest to a number, and has a given sign if it is a zero. -/
structure IsSignedNearest (s : Sign) (x : Float) (q : ℚ) : Prop extends IsNearest x q where
  zero : rounded q = 0 → x.toModel.unpack = .zero s

/-- Rounding a mantissa to zero keeps its sign. -/
theorem sign_roundWithAccuracy {s t : Sign} {m : ℕ} {e : ℤ} {a : Accuracy}
    (h : UnpackedFloat.roundWithAccuracy Format.binary64 s m e a = .zero t) : t = s := by
  simp only [UnpackedFloat.roundWithAccuracy] at h
  split at h
  · cases h
    rfl
  · cases h

/-- Packing a rounded number gives the nearest float, with the sign that its zero has. -/
theorem isSignedNearest_pack {s : Sign} {q : ℚ} {u : UnpackedFloat} (h : IsRounding q u)
    (hsign : ∀ t, u = .zero t → t = s) : IsSignedNearest s (.ofModel (pack u)) q := by
  refine ⟨isNearest_pack h, fun hzero => ?_⟩
  cases u with
  | infinity t => exact h.elim
  | notANumber => exact h.elim
  | zero t =>
    rw [← hsign t rfl]
    exact unpack_pack trivial
  | finite t m e hm =>
    have hpos : (0 : ℚ) < m * 2 ^ e := mul_pos (by exact_mod_cast hm) (two_zpow_pos e)
    have habs := abs_unpackedValue_finite t m e hm
    rw [h.2, hzero, abs_zero] at habs
    exact absurd habs hpos.ne

/-- The opposite float is nearest to the opposite number. -/
theorem IsSignedNearest.neg {s : Sign} {x : Float} {q : ℚ} (h : IsSignedNearest s x q) :
    IsSignedNearest (-s) (-x) (-q) := by
  refine ⟨⟨fun hq => ?_, fun hq => ?_, fun hq => ?_⟩, fun hq => ?_⟩
  · rw [abs_neg] at hq
    obtain ⟨hfinite, hvalue⟩ := h.within hq
    exact ⟨by rwa [isFinite_neg], by rw [value_neg, hvalue, rounded_neg]⟩
  · rw [unpack_neg, h.below (by linarith)]
    rfl
  · rw [unpack_neg, h.above (by linarith)]
    rfl
  · rw [rounded_neg, neg_eq_zero] at hq
    rw [unpack_neg, h.zero hq]
    rfl

/-! ## 2. Powers of ten -/

theorem ten_zpow_pos (e : ℤ) : (0 : ℚ) < 10 ^ e := zpow_pos (by norm_num) e

/-- Powers of ten are above those of two. -/
theorem two_zpow_le_ten_zpow {e : ℤ} (he : 0 ≤ e) : (2 : ℚ) ^ e ≤ 10 ^ e :=
  zpow_le_zpow_left₀ he (by norm_num) (by norm_num)

/-- A negative power is the lesser the greater its base is. -/
theorem zpow_le_zpow_of_nonpos {a b : ℚ} (ha : 0 < a) (h : a ≤ b) {e : ℤ} (he : e ≤ 0) :
    b ^ e ≤ a ^ e := by
  have hinv := zpow_le_zpow_left₀ (neg_nonneg.mpr he) ha.le h
  rw [zpow_neg, zpow_neg] at hinv
  exact (inv_le_inv₀ (zpow_pos ha e) (zpow_pos (ha.trans_le h) e)).mp hinv

/-- Below half of the last digit of all everything is rounded to zero. -/
theorem rounded_of_tiny {q : ℚ} (h : |q| < 2 ^ (-1075 : ℤ)) : rounded q = 0 := by
  have hunit : unit q = -1074 :=
    unit_eq (Or.inl rfl) (h.trans_le (two_zpow_le (by norm_num)))
  have hnear : halfEven (q / 2 ^ (-1074 : ℤ)) = 0 := by
    refine halfEven_of_near ?_
    have hhalf : (2 : ℚ) ^ (-1075 : ℤ) = 1 / 2 * 2 ^ (-1074 : ℤ) := by
      rw [show (-1074 : ℤ) = -1075 + (1 : ℕ) by norm_num, two_zpow_split]
      ring
    rw [Int.cast_zero, sub_zero, abs_div, abs_of_pos (two_zpow_pos _),
      div_lt_iff₀ (two_zpow_pos _), ← hhalf]
    exact h
  simp only [rounded]
  rw [hunit, hnear, Int.cast_zero, zero_mul]

/-! ## 3. The nearest float to a decimal -/

/-- A decimal whose exponent is not negative is multiplied out. -/
theorem isRounding_mul_ten {n : ℕ} (hn : 0 < n) (e : ℕ) :
    IsRounding (n * 10 ^ (e : ℤ)) (UnpackedFloat.roundWithAccuracy Format.binary64 .positive
      (n <<< Format.binary64.mantissaBits * 10 ^ e) (-53 + 0) .exact) := by
  have hone : (1 : ℚ) ≤ n * 10 ^ (e : ℤ) := by
    rw [zpow_natCast]
    exact_mod_cast Nat.mul_pos hn (Nat.pow_pos (by norm_num))
  have hpos := zero_lt_one.trans_le hone
  -- The mantissa is written with 53 binary places behind the point, all of them zero.
  obtain ⟨m, hm⟩ : ∃ m, n <<< Format.binary64.mantissaBits * 10 ^ e = m := ⟨_, rfl⟩
  have hexact : (n : ℚ) * 10 ^ (e : ℤ) = m * 2 ^ (-53 + 0 : ℤ) := by
    rw [← hm, Nat.shiftLeft_eq, zpow_natCast]
    change (n : ℚ) * 10 ^ e = ((n * 2 ^ 53 * 10 ^ e : ℕ) : ℚ) * _
    push_cast
    norm_num
    field_simp
  have hunit : (-53 + 0 : ℤ) ≤ unit (n * 10 ^ (e : ℤ)) := by
    refine le_unit ?_
    rw [abs_of_pos hpos]
    exact le_trans (by norm_num) hone
  have hround := isRounding_roundWithAccuracy .positive hpos hunit (digits_of_eq hexact)
  rwa [signFactor, one_mul, ← hm] at hround

/-- A decimal whose exponent is negative is divided out. -/
theorem isRounding_div_ten {n : ℕ} (hn : 0 < n) {e : ℤ} (he : e ≤ 0) {k : ℕ} (hk : (-e).toNat = k)
    (hten : 0 < 10 ^ k) :
    IsRounding (n * 10 ^ e) (UnpackedFloat.div Format.binary64 (.finite .positive n 0 hn)
      (.finite .positive (10 ^ k) 0 hten)) := by
  obtain rfl : e = -k := by omega
  have hwhole : ∀ {k : ℕ} (hk : 0 < k), unpackedValue (.finite .positive k 0 hk) = k := by
    intro k hk
    rw [unpackedValue_finite, signFactor, one_mul, zpow_zero, mul_one]
  have hquot : (n : ℚ) * 10 ^ (-k : ℤ) = unpackedValue (.finite .positive n 0 hn) /
      unpackedValue (.finite .positive (10 ^ k) 0 hten) := by
    rw [hwhole, hwhole, zpow_neg, zpow_natCast, div_eq_mul_inv, Nat.cast_pow, Nat.cast_ofNat]
  rw [hquot]
  refine isRounding_div rfl rfl ?_
  rw [hwhole]
  exact_mod_cast hten.ne'

/-- **A decimal is read into the nearest float,** and its zero is positive. -/
theorem isNearest_ofScientific (n : ℕ) (e : ℤ) :
    IsSignedNearest .positive (.ofModel (Float.Model.ofScientific n e)) (n * 10 ^ e) := by
  change IsSignedNearest _ (.ofModel (pack (UnpackedFloat.ofScientific Format.binary64 n e))) _
  have hbits : (2 : ℤ) ^ Format.binary64.exponentBits = 2048 := rfl
  unfold UnpackedFloat.ofScientific
  split
  · rename_i hn
    rw [hn, Nat.cast_zero, zero_mul]
    refine isSignedNearest_pack (isRounding_zero _) fun t ht => ?_
    cases ht
    rfl
  rename_i hn
  have hn := Nat.pos_of_ne_zero hn
  have hone : (1 : ℚ) ≤ n := by exact_mod_cast hn
  split
  · -- Far above the range.
    rename_i hover
    rw [hbits] at hover
    have hlarge : overflow ≤ n * 10 ^ e := by
      calc overflow ≤ 2 ^ (1024 : ℤ) := sub_le_self _ (two_zpow_pos _).le
        _ ≤ 2 ^ e := two_zpow_le (by omega)
        _ ≤ 10 ^ e := two_zpow_le_ten_zpow (by omega)
        _ ≤ n * 10 ^ e := le_mul_of_one_le_left (ten_zpow_pos e).le hone
    have hpos := overflow_pos
    refine ⟨⟨fun hq => ?_, fun _ => unpack_infinity _, fun hq => ?_⟩, fun hzero => ?_⟩
    · exact absurd (abs_lt.mp hq).2 (not_lt.mpr hlarge)
    · linarith
    · have hlt : |(n : ℚ) * 10 ^ e| < overflow := by
        rw [← abs_rounded_lt_iff, hzero, abs_zero]
        exact two_zpow_pos _
      exact absurd (abs_lt.mp hlt).2 (not_lt.mpr hlarge)
  split
  · -- Far below the last digit of all.
    rename_i hunder
    rw [hbits] at hunder
    have hsmall : |(n : ℚ) * 10 ^ e| < 2 ^ (-1075 : ℤ) := by
      have hlog : (n : ℚ) < 2 ^ (n.log2 + 1) := by exact_mod_cast Nat.lt_log2_self
      rw [abs_of_nonneg (mul_nonneg (Nat.cast_nonneg n) (ten_zpow_pos e).le)]
      calc (n : ℚ) * 10 ^ e ≤ n * 2 ^ e :=
            mul_le_mul_of_nonneg_left
              (zpow_le_zpow_of_nonpos (by norm_num) (by norm_num) (by omega)) (Nat.cast_nonneg n)
        _ < 2 ^ (n.log2 + 1) * 2 ^ e := mul_lt_mul_of_pos_right hlog (two_zpow_pos e)
        _ = 2 ^ (e + ((n.log2 + 1 : ℕ) : ℤ)) := (two_zpow_split e _).symm
        _ ≤ 2 ^ (-1075 : ℤ) := two_zpow_le (by push_cast; omega)
    have hround : IsRounding (n * 10 ^ e) (.zero .positive) := rounded_of_tiny hsmall
    refine isSignedNearest_pack hround fun t ht => ?_
    cases ht
    rfl
  split
  · rename_i he
    obtain ⟨k, rfl⟩ := Int.eq_ofNat_of_zero_le he
    exact isSignedNearest_pack (isRounding_mul_ten hn k) fun t ht => sign_roundWithAccuracy ht
  · rename_i he
    exact isSignedNearest_pack (isRounding_div_ten hn (by omega) rfl _)
      fun t ht => sign_roundWithAccuracy ht

/-! ## 4. Literals -/

namespace Literal

/-- The sign of a literal. -/
def sign (l : Literal) : Sign := if l.negative then .negative else .positive

/-- The number that a literal writes. -/
def exact (l : Literal) : ℚ := signFactor l.sign * (l.digits * 10 ^ l.scale)

/-- A literal without a point and without an exponent writes a whole number. -/
theorem exact_whole (negative : Bool) (n : ℕ) :
    exact ⟨negative, n, 0⟩ = ((if negative then -n else n : ℤ) : ℚ) := by
  change signFactor (if negative then .negative else .positive) * (n * 10 ^ (0 : ℤ)) = _
  rw [zpow_zero, mul_one]
  cases negative with
  | false => exact (one_mul (n : ℚ)).trans (Int.cast_natCast n).symm
  | true => exact (neg_one_mul (n : ℚ)).trans (by push_cast; rfl)

/-- **A literal is read into the nearest float,** and its zero has the sign of the literal. -/
theorem isNearest_value (l : Literal) : IsSignedNearest l.sign l.value l.exact := by
  have hplain := isNearest_ofScientific l.digits l.scale
  obtain ⟨negative, n, e⟩ := l
  cases negative with
  | false =>
    change IsSignedNearest .positive _ (1 * _)
    rw [one_mul]
    exact hplain
  | true =>
    change IsSignedNearest .negative _ (-1 * _)
    rw [neg_one_mul]
    exact hplain.neg

end Literal

end VectorPaint.Number
