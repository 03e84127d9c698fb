/-
# Arithmetic of floats

A sum, a difference, a product or a quotient of finite floats is the float nearest to the exact
result.  If the exact result is within the range this is the result rounded, and an infinity of
its sign otherwise: `IsNearest`.  The same holds of the float that is made from a whole number or
from half of one.

What is not finite needs no number.  A float that is not finite is an infinity or not a number,
and the second comes about only where there was one before or where infinities or zeros meet; the
last section says where this is excluded.
-/
import VectorPaint.Proofs.Float.Digits

namespace VectorPaint.Number

open Float.Model (UnpackedFloat Format pack)
open Float.Model.UnpackedFloat (Sign ExtendedMantissa)

/-! ## 1. The value of a float -/

/-- The number that a float is, if it is finite. -/
def value (x : Float) : ℚ := unpackedValue x.toModel.unpack

theorem isBinary_unpackedValue {u : UnpackedFloat} (h : Fits u) : IsBinary (unpackedValue u) := by
  cases u with
  | finite s m e hm =>
    have hfew : (m : ℤ) < 2 ^ 53 := by exact_mod_cast h.1.few
    have hbinary : IsBinary (m * 2 ^ e) :=
      ⟨m, e, by rw [abs_of_nonneg (by omega)]; exact hfew.le, h.1.least, by push_cast; rfl⟩
    rcases signFactor_cases s with hs | hs
    · rw [unpackedValue_finite, hs, neg_one_mul]
      exact hbinary.neg
    · rw [unpackedValue_finite, hs, one_mul]
      exact hbinary
  | _ => exact isBinary_intCast (n := 0) (by norm_num)

/-- The values of floats have few enough digits. -/
theorem isBinary_value (x : Float) : IsBinary (value x) := isBinary_unpackedValue (fits_unpack _)

@[simp] theorem rounded_value (x : Float) : rounded (value x) = value x :=
  rounded_of_isBinary (isBinary_value x)

/-- Where the exponent fits, a canonical mantissa stays below the range, and only there. -/
theorem canonical_lt_iff {m : ℕ} {e : ℤ} (h : IsCanonical m e) :
    (m : ℚ) * 2 ^ e < 2 ^ (1024 : ℤ) ↔ e ≤ 971 := by
  have hpos := two_zpow_pos e
  constructor
  · intro hlt
    by_contra he
    have hlead : 2 ^ 52 ≤ m := h.leading.resolve_right (by omega)
    have hlead' : (2 : ℚ) ^ 52 ≤ m := by exact_mod_cast hlead
    have hle : (2 : ℚ) ^ (1024 : ℤ) ≤ 2 ^ 52 * 2 ^ e := by
      rw [← two_zpow_split]
      exact two_zpow_le (by push_cast; omega)
    have := mul_le_mul_of_nonneg_right hlead' hpos.le
    linarith
  · intro he
    have hfew : (m : ℚ) < 2 ^ 53 := by exact_mod_cast h.few
    have hle : (2 : ℚ) ^ 53 * 2 ^ e ≤ 2 ^ (1024 : ℤ) := by
      rw [← two_zpow_split]
      exact two_zpow_le (by push_cast; omega)
    have := mul_lt_mul_of_pos_right hfew hpos
    linarith

theorem abs_unpackedValue_finite (s : Sign) (m : ℕ) (e : ℤ) (h : 0 < m) :
    |unpackedValue (.finite s m e h)| = m * 2 ^ e := by
  have hnonneg : (0 : ℚ) ≤ m * 2 ^ e := mul_nonneg (Nat.cast_nonneg m) (two_zpow_pos e).le
  rw [unpackedValue_finite, abs_mul, abs_of_nonneg hnonneg]
  rcases signFactor_cases s with hs | hs <;> rw [hs] <;> norm_num

/-- **Floats are within the range.** -/
theorem abs_value_lt (x : Float) : |value x| < overflow := by
  rw [← abs_rounded_lt_iff, rounded_value]
  have h := fits_unpack x.toModel
  simp only [value]
  generalize x.toModel.unpack = u at h ⊢
  cases u with
  | finite s m e hm =>
    rw [abs_unpackedValue_finite]
    exact (canonical_lt_iff h.1).mpr h.2
  | _ =>
    simp only [unpackedValue]
    rw [abs_zero]
    exact two_zpow_pos _

/-! ## 2. The nearest float -/

/-- A float is nearest to a number. -/
structure IsNearest (x : Float) (q : ℚ) : Prop where
  /-- Within the range it is the number rounded. -/
  within : |q| < overflow → x.isFinite ∧ value x = rounded q
  /-- Above the range it is an infinity. -/
  above : overflow ≤ q → x.toModel.unpack = .infinity .positive
  /-- Below the range it is the other infinity. -/
  below : q ≤ -overflow → x.toModel.unpack = .infinity .negative

/-- **Packing a rounded number gives the nearest float.** -/
theorem isNearest_pack {q : ℚ} {u : UnpackedFloat} (h : IsRounding q u) :
    IsNearest (.ofModel (pack u)) q := by
  cases u with
  | infinity s => exact h.elim
  | notANumber => exact h.elim
  | zero s =>
    have hzero : rounded q = 0 := h
    have hlt : |q| < overflow := by
      rw [← abs_rounded_lt_iff, hzero, abs_zero]
      exact two_zpow_pos _
    have hunpack : (pack (.zero s)).unpack = .zero s := unpack_pack trivial
    refine ⟨fun _ => ⟨?_, ?_⟩, fun hq => ?_, fun hq => ?_⟩
    · change (pack (.zero s)).unpack.isFinite
      rw [hunpack]
      rfl
    · simp only [value]
      rw [hunpack, hzero]
      rfl
    · rw [abs_lt] at hlt
      linarith
    · rw [abs_lt] at hlt
      linarith
  | finite s m e hm =>
    obtain ⟨hc, hv⟩ := h
    have hpos : (0 : ℚ) < m * 2 ^ e := mul_pos (by exact_mod_cast hm) (two_zpow_pos e)
    have hrange : |q| < overflow ↔ e ≤ 971 := by
      rw [← abs_rounded_lt_iff, ← hv, abs_unpackedValue_finite, canonical_lt_iff hc]
    rw [unpackedValue_finite] at hv
    -- The sign of the float is the sign of the number.
    have hsign : ∀ t : Sign, 0 < signFactor t * q → s = t := by
      intro t ht
      have hnonneg : 0 ≤ rounded (signFactor t * q) := rounded_nonneg ht.le
      rw [rounded_signFactor, ← hv] at hnonneg
      cases s <;> cases t <;> simp only [signFactor] at hnonneg <;> first | rfl | linarith
    have hinf : 972 ≤ e → (pack (.finite s m e hm)).unpack = .infinity s :=
      unpack_pack_overflow s hm
    have hover := overflow_pos
    refine ⟨fun hq => ?_, fun hq => ?_, fun hq => ?_⟩
    · have hunpack : (pack (.finite s m e hm)).unpack = .finite s m e hm :=
        unpack_pack ⟨hc, hrange.mp hq⟩
      constructor
      · change (pack (.finite s m e hm)).unpack.isFinite
        rw [hunpack]
        rfl
      · simp only [value]
        rw [hunpack, unpackedValue_finite, hv]
    · have he : 972 ≤ e := by
        by_contra hlt
        have := hrange.mpr (by omega)
        rw [abs_lt] at this
        linarith
      have hs : s = .positive := hsign .positive (by unfold signFactor; linarith)
      exact hs ▸ hinf he
    · have he : 972 ≤ e := by
        by_contra hlt
        have := hrange.mpr (by omega)
        rw [abs_lt] at this
        linarith
      have hs : s = .negative := hsign .negative (by unfold signFactor; linarith)
      exact hs ▸ hinf he

/-! ## 3. Unpacked floats -/

/-- A finite float is itself rounded. -/
theorem isRounding_self {u : UnpackedFloat} (h : Fits u) (hfinite : u.isFinite) :
    IsRounding (unpackedValue u) u := by
  have hround := rounded_of_isBinary (isBinary_unpackedValue h)
  cases u with
  | infinity s => cases hfinite
  | notANumber => cases hfinite
  | zero s => exact hround
  | finite s m e hm => exact ⟨h.1, hround.symm⟩

theorem isRounding_zero (s : Sign) : IsRounding 0 (.zero s) := rounded_zero

@[simp] theorem unpackedValue_zero (s : Sign) : unpackedValue (.zero s) = 0 := rfl

/-- With a lesser exponent a greater mantissa makes the same number. -/
theorem decreaseExponent_value (m : ℕ) {d e : ℤ} (h : d ≤ e) :
    ((UnpackedFloat.decreaseExponent m e d).1 : ℚ) * 2 ^ d = m * 2 ^ e := by
  unfold UnpackedFloat.decreaseExponent
  dsimp only
  rw [Nat.shiftLeft_eq]
  push_cast
  rw [mul_assoc, ← zpow_natCast, ← zpow_add₀ two_ne_zero]
  congr 2
  omega

/-- A signed mantissa with a lesser exponent. -/
theorem apply_decreaseExponent (s : Sign) (m : ℕ) {d e : ℤ} (h : d ≤ e) :
    ((s.apply (UnpackedFloat.decreaseExponent m e d).1 : ℤ) : ℚ) * 2 ^ d =
      signFactor s * (m * 2 ^ e) := by
  rw [signFactor_apply, mul_assoc, Int.cast_natCast, decreaseExponent_value m h]

theorem isRounding_add {u v : UnpackedFloat} (hu : Fits u) (hv : Fits v) (hu' : u.isFinite)
    (hv' : v.isFinite) :
    IsRounding (unpackedValue u + unpackedValue v) (UnpackedFloat.add Format.binary64 u v) := by
  cases u with
  | infinity s => cases hu'
  | notANumber => cases hu'
  | zero s =>
    cases v with
    | infinity t => cases hv'
    | notANumber => cases hv'
    | zero t =>
      rw [unpackedValue_zero, unpackedValue_zero, add_zero]
      cases s <;> cases t <;> exact isRounding_zero _
    | finite t n e hn =>
      rw [unpackedValue_zero, zero_add]
      exact isRounding_self hv hv'
  | finite s m d hm =>
    cases v with
    | infinity t => cases hv'
    | notANumber => cases hv'
    | zero t =>
      rw [unpackedValue_zero, add_zero]
      exact isRounding_self hu hu'
    | finite t n e hn =>
      have hsum := isRounding_normalize
        (s.apply (UnpackedFloat.decreaseExponent m d (min d e)).1 +
          t.apply (UnpackedFloat.decreaseExponent n e (min d e)).1) (min d e) .positive
      rw [Int.cast_add, add_mul, apply_decreaseExponent s m (min_le_left d e),
        apply_decreaseExponent t n (min_le_right d e)] at hsum
      exact hsum

theorem signFactor_neg (s : Sign) : signFactor (-s) = -signFactor s := by
  cases s
  · exact (neg_neg (1 : ℚ)).symm
  · rfl

theorem isRounding_sub {u v : UnpackedFloat} (hu : Fits u) (hv : Fits v) (hu' : u.isFinite)
    (hv' : v.isFinite) :
    IsRounding (unpackedValue u - unpackedValue v) (UnpackedFloat.sub Format.binary64 u v) := by
  cases u with
  | infinity s => cases hu'
  | notANumber => cases hu'
  | zero s =>
    cases v with
    | infinity t => cases hv'
    | notANumber => cases hv'
    | zero t =>
      rw [unpackedValue_zero, unpackedValue_zero, sub_zero]
      cases s <;> cases t <;> exact isRounding_zero _
    | finite t n e hn =>
      have hneg : unpackedValue (.finite (-t) n e hn) = 0 - unpackedValue (.finite t n e hn) := by
        rw [unpackedValue_finite, unpackedValue_finite, signFactor_neg]
        ring
      have hself : IsRounding (unpackedValue (.finite (-t) n e hn)) (.finite (-t) n e hn) :=
        isRounding_self hv rfl
      rw [unpackedValue_zero, ← hneg]
      exact hself
  | finite s m d hm =>
    cases v with
    | infinity t => cases hv'
    | notANumber => cases hv'
    | zero t =>
      rw [unpackedValue_zero, sub_zero]
      exact isRounding_self hu hu'
    | finite t n e hn =>
      have hdiff := isRounding_normalize
        (s.apply (UnpackedFloat.decreaseExponent m d (min d e)).1 -
          t.apply (UnpackedFloat.decreaseExponent n e (min d e)).1) (min d e) .positive
      rw [Int.cast_sub, sub_mul, apply_decreaseExponent s m (min_le_left d e),
        apply_decreaseExponent t n (min_le_right d e)] at hdiff
      exact hdiff

theorem signFactor_mul (s t : Sign) : signFactor (s * t) = signFactor s * signFactor t := by
  cases s <;> cases t <;> simp only [signFactor] <;> norm_num

/-- A product of canonical mantissas reaches as far as its last digit. -/
theorem add_le_unit {m n : ℕ} {d e : ℤ} (hm : 0 < m) (hn : 0 < n) (hc : IsCanonical m d)
    (hc' : IsCanonical n e) : d + e ≤ unit (m * 2 ^ d * (n * 2 ^ e)) := by
  have hd := hc.least
  have he := hc'.least
  by_cases hsmall : d + e ≤ -1074
  · exact hsmall.trans (neg_le_unit _)
  · have hlead : 2 ^ 52 ≤ m * n := by
      rcases hc.leading with h | h
      · exact h.trans (Nat.le_mul_of_pos_right m hn)
      · have h' : 2 ^ 52 ≤ n := hc'.leading.resolve_right (by omega)
        exact h'.trans (Nat.le_mul_of_pos_left n hm)
    have hlead' : (2 : ℚ) ^ 52 ≤ m * n := by exact_mod_cast hlead
    have hpos := two_zpow_pos (d + e)
    have hprod : (m : ℚ) * 2 ^ d * (n * 2 ^ e) = m * n * 2 ^ (d + e) := by
      rw [zpow_add₀ two_ne_zero]
      ring
    refine le_unit ?_
    rw [hprod, abs_of_nonneg (by positivity), show d + e + 52 = d + e + (52 : ℕ) by norm_num,
      two_zpow_split]
    exact mul_le_mul_of_nonneg_right hlead' hpos.le

theorem isRounding_mul {u v : UnpackedFloat} (hu : Fits u) (hv : Fits v) (hu' : u.isFinite)
    (hv' : v.isFinite) :
    IsRounding (unpackedValue u * unpackedValue v) (UnpackedFloat.mul Format.binary64 u v) := by
  cases u with
  | infinity s => cases hu'
  | notANumber => cases hu'
  | zero s =>
    rw [unpackedValue_zero, zero_mul]
    cases v with
    | infinity t => cases hv'
    | notANumber => cases hv'
    | zero t => exact isRounding_zero _
    | finite t n e hn => exact isRounding_zero _
  | finite s m d hm =>
    cases v with
    | infinity t => cases hv'
    | notANumber => cases hv'
    | zero t =>
      rw [unpackedValue_zero, mul_zero]
      exact isRounding_zero _
    | finite t n e hn =>
      have hpos : (0 : ℚ) < m * 2 ^ d * (n * 2 ^ e) :=
        mul_pos (mul_pos (by exact_mod_cast hm) (two_zpow_pos d))
          (mul_pos (by exact_mod_cast hn) (two_zpow_pos e))
      have hexact : (m : ℚ) * 2 ^ d * (n * 2 ^ e) = (m * n : ℕ) * 2 ^ (d + e) := by
        rw [zpow_add₀ two_ne_zero]
        push_cast
        ring
      have hprod := isRounding_roundWithAccuracy (s * t) hpos (add_le_unit hm hn hu.1 hv.1)
        (digits_of_eq hexact)
      have hvalue : unpackedValue (.finite s m d hm) * unpackedValue (.finite t n e hn) =
          signFactor (s * t) * (m * 2 ^ d * (n * 2 ^ e)) := by
        rw [unpackedValue_finite, unpackedValue_finite, signFactor_mul]
        ring
      rw [hvalue]
      exact hprod

/-- What a quotient of whole numbers shows. -/
theorem digits_div (m : ℕ) {n : ℕ} (hn : 0 < n) :
    ExtendedMantissa.ofMantissaAndAccuracy (m / n)
      (UnpackedFloat.accuracyOfFraction (m % n) n) = digits (m / n) := by
  have hpos : (0 : ℚ) < n := by exact_mod_cast hn
  have hsplit : (m : ℚ) / n = (m / n : ℕ) + (m % n : ℕ) / n := by
    rw [div_eq_iff hpos.ne', add_mul, div_mul_cancel₀ _ hpos.ne']
    have := Nat.div_add_mod m n
    rw [mul_comm] at this
    exact_mod_cast this.symm
  have h0 : (0 : ℚ) ≤ (m % n : ℕ) / n := by positivity
  have h1 : ((m % n : ℕ) : ℚ) / n < 1 := by
    rw [div_lt_one hpos]
    exact_mod_cast Nat.mod_lt m hn
  rw [hsplit, digits_add h0 h1]
  simp only [UnpackedFloat.accuracyOfFraction]
  generalize m % n = r
  split
  · rename_i hr
    rw [hr]
    norm_num [ExtendedMantissa.ofMantissaAndAccuracy]
  · rename_i hr
    have hne : (r : ℚ) / n ≠ 0 := div_ne_zero (by exact_mod_cast hr) hpos.ne'
    rcases lt_trichotomy (2 * r) n with hlt | heq | hgt
    · have hhalf : (r : ℚ) / n < 1 / 2 := by
        rw [div_lt_div_iff₀ hpos two_pos]
        have : (2 : ℚ) * r < n := by exact_mod_cast hlt
        linarith
      rw [Nat.compare_eq_lt.mpr hlt, decide_eq_false (not_le.mpr hhalf),
        decide_eq_true ⟨hne, hhalf.ne⟩]
      rfl
    · have hhalf : (r : ℚ) / n = 1 / 2 := by
        rw [div_eq_div_iff hpos.ne' two_ne_zero]
        have : (2 : ℚ) * r = n := by exact_mod_cast heq
        linarith
      rw [Nat.compare_eq_eq.mpr heq, decide_eq_true hhalf.ge, decide_eq_false fun h => h.2 hhalf]
      rfl
    · have hhalf : 1 / 2 < (r : ℚ) / n := by
        rw [div_lt_div_iff₀ two_pos hpos]
        have : (n : ℚ) < 2 * r := by exact_mod_cast hgt
        linarith
      rw [Nat.compare_eq_gt.mpr hgt, decide_eq_true hhalf.le, decide_eq_true ⟨hne, hhalf.ne'⟩]
      rfl

theorem signFactor_div (s t : Sign) : signFactor (s / t) = signFactor s / signFactor t := by
  cases s <;> cases t
  · exact (by norm_num : (1 : ℚ) = -1 / -1)
  · exact (by norm_num : (-1 : ℚ) = -1 / 1)
  · exact (by norm_num : (-1 : ℚ) = 1 / -1)
  · exact (by norm_num : (1 : ℚ) = 1 / 1)

theorem totalExponent_bounds {m : ℕ} (hm : 0 < m) (e : ℤ) :
    (2 : ℚ) ^ (Float.Model.totalExponent m e - 1) ≤ m * 2 ^ e ∧
      (m : ℚ) * 2 ^ e < 2 ^ Float.Model.totalExponent m e := by
  have hpos := two_zpow_pos e
  have hlow : (2 : ℚ) ^ m.log2 ≤ m := by exact_mod_cast Nat.log2_self_le hm.ne'
  have hhigh : (m : ℚ) < 2 ^ (m.log2 + 1) := by exact_mod_cast Nat.lt_log2_self
  simp only [Float.Model.totalExponent]
  constructor
  · rw [show (m.log2 : ℤ) + 1 + e - 1 = e + (m.log2 : ℕ) by ring, two_zpow_split]
    exact mul_le_mul_of_nonneg_right hlow hpos.le
  · rw [show (m.log2 : ℤ) + 1 + e = e + ((m.log2 + 1 : ℕ) : ℤ) by push_cast; ring,
      two_zpow_split]
    exact mul_lt_mul_of_pos_right hhigh hpos

/-- The exponent of a quotient is chosen low enough for the quotient's last digit. -/
theorem targetExponent_le_unit {m n : ℕ} (hm : 0 < m) (hn : 0 < n) (d e : ℤ) :
    Format.binary64.targetExponent
      (Float.Model.totalExponent m d - Float.Model.totalExponent n e) ≤
        unit (m * 2 ^ d / (n * 2 ^ e)) := by
  have hm' : (0 : ℚ) < m * 2 ^ d := mul_pos (by exact_mod_cast hm) (two_zpow_pos d)
  have hn' : (0 : ℚ) < n * 2 ^ e := mul_pos (by exact_mod_cast hn) (two_zpow_pos e)
  obtain ⟨hlow, -⟩ := totalExponent_bounds hm d
  obtain ⟨-, hhigh⟩ := totalExponent_bounds hn e
  generalize Float.Model.totalExponent m d = a at hlow ⊢
  generalize Float.Model.totalExponent n e = b at hhigh ⊢
  rw [targetExponent_binary64]
  refine max_le (le_unit ?_) (neg_le_unit _)
  rw [abs_of_pos (div_pos hm' hn'), le_div_iff₀ hn']
  calc (2 : ℚ) ^ (a - b - 53 + 52) * (n * 2 ^ e) ≤ 2 ^ (a - b - 53 + 52) * 2 ^ b :=
        mul_le_mul_of_nonneg_left hhigh.le (two_zpow_pos _).le
    _ = 2 ^ (a - 1) := by
        rw [← zpow_add₀ two_ne_zero]
        congr 1
        omega
    _ ≤ m * 2 ^ d := hlow

theorem isRounding_div {u v : UnpackedFloat} (hu' : u.isFinite) (hv' : v.isFinite)
    (hne : unpackedValue v ≠ 0) :
    IsRounding (unpackedValue u / unpackedValue v) (UnpackedFloat.div Format.binary64 u v) := by
  cases v with
  | infinity t => cases hv'
  | notANumber => cases hv'
  | zero t => exact absurd rfl hne
  | finite t n e hn =>
    cases u with
    | infinity s => cases hu'
    | notANumber => cases hu'
    | zero s =>
      rw [unpackedValue_zero, zero_div]
      exact isRounding_zero _
    | finite s m d hm =>
      have hm' : (0 : ℚ) < m * 2 ^ d := mul_pos (by exact_mod_cast hm) (two_zpow_pos d)
      have hn' : (0 : ℚ) < n * 2 ^ e := mul_pos (by exact_mod_cast hn) (two_zpow_pos e)
      obtain ⟨c, hc⟩ : ∃ c, min (d - e) (Format.binary64.targetExponent
        (Float.Model.totalExponent m d - Float.Model.totalExponent n e)) = c := ⟨_, rfl⟩
      have hle : c ≤ unit (m * 2 ^ d / (n * 2 ^ e)) := by
        rw [← hc]
        exact (min_le_right _ _).trans (targetExponent_le_unit hm hn d e)
      have hshift : c + e ≤ d := by
        have := min_le_left (d - e) (Format.binary64.targetExponent
          (Float.Model.totalExponent m d - Float.Model.totalExponent n e))
        omega
      have hscaled : (m : ℚ) * 2 ^ d / (n * 2 ^ e) / 2 ^ c =
          (m <<< (d - e - c).toNat : ℕ) / (n : ℕ) := by
        have hn0 : (n : ℚ) ≠ 0 := by exact_mod_cast hn.ne'
        rw [Nat.shiftLeft_eq, div_div, div_eq_div_iff (mul_pos hn' (two_zpow_pos c)).ne' hn0]
        push_cast
        have hpow : (2 : ℚ) ^ d = 2 ^ (d - e - c).toNat * (2 ^ e * 2 ^ c) := by
          rw [← zpow_natCast, ← zpow_add₀ two_ne_zero, ← zpow_add₀ two_ne_zero]
          congr 1
          omega
        rw [hpow]
        ring
      have hdigits := digits_div (m <<< (d - e - c).toNat) hn
      rw [← hscaled] at hdigits
      have hquot := isRounding_roundWithAccuracy (s / t) (div_pos hm' hn') hle hdigits
      have hvalue : unpackedValue (.finite s m d hm) / unpackedValue (.finite t n e hn) =
          signFactor (s / t) * (m * 2 ^ d / (n * 2 ^ e)) := by
        rw [unpackedValue_finite, unpackedValue_finite, signFactor_div, mul_div_mul_comm]
      rw [hvalue]
      rw [← hc] at hquot
      exact hquot

/-! ## 4. Floats -/

variable {x y : Float} {q : ℚ}

theorem isNearest_add (hx : x.isFinite) (hy : y.isFinite) :
    IsNearest (x + y) (value x + value y) :=
  isNearest_pack (isRounding_add (fits_unpack _) (fits_unpack _) hx hy)

theorem isNearest_sub (hx : x.isFinite) (hy : y.isFinite) :
    IsNearest (x - y) (value x - value y) :=
  isNearest_pack (isRounding_sub (fits_unpack _) (fits_unpack _) hx hy)

theorem isNearest_mul (hx : x.isFinite) (hy : y.isFinite) :
    IsNearest (x * y) (value x * value y) :=
  isNearest_pack (isRounding_mul (fits_unpack _) (fits_unpack _) hx hy)

theorem isNearest_div (hx : x.isFinite) (hy : y.isFinite) (h : value y ≠ 0) :
    IsNearest (x / y) (value x / value y) :=
  isNearest_pack (isRounding_div hx hy h)

/-- A quotient of whole numbers of any size is rounded once. -/
theorem isNearest_quotient {m n : ℕ} (hm : 0 < m) (hn : 0 < n) :
    IsNearest (quotient m n) (m / n) := by
  have hwhole : ∀ {k : ℕ} (hk : 0 < k), unpackedValue (.finite .positive k 0 hk) = k := by
    intro k hk
    rw [unpackedValue_finite, signFactor, one_mul, zpow_zero, mul_one]
  rw [quotient, dif_pos ⟨hm, hn⟩, ← hwhole hm, ← hwhole hn]
  refine isNearest_pack (isRounding_div rfl rfl ?_)
  rw [hwhole hn]
  exact_mod_cast hn.ne'

/-- The opposite of a float is exact. -/
theorem unpack_neg (x : Float) : (-x).toModel.unpack = x.toModel.unpack.neg := by
  have h := fits_unpack x.toModel
  refine unpack_pack (u := x.toModel.unpack.neg) ?_
  generalize x.toModel.unpack = u at h ⊢
  cases u with
  | finite s m e hm => exact h
  | _ => trivial

theorem isFinite_neg (x : Float) : (-x).isFinite = x.isFinite := by
  change (-x).toModel.unpack.isFinite = x.toModel.unpack.isFinite
  rw [unpack_neg]
  cases x.toModel.unpack <;> rfl

@[simp] theorem value_neg (x : Float) : value (-x) = -value x := by
  simp only [value]
  rw [unpack_neg]
  cases x.toModel.unpack with
  | finite s m e hm =>
    change unpackedValue (.finite (-s) m e hm) = _
    rw [unpackedValue_finite, unpackedValue_finite, signFactor_neg]
    ring
  | _ => exact neg_zero.symm

/-! ## 5. What is not finite -/

/-- A nearest float is finite exactly when the number is within the range. -/
theorem IsNearest.isFinite_iff (h : IsNearest x q) : x.isFinite ↔ |q| < overflow := by
  refine ⟨fun hfinite => ?_, fun hq => (h.within hq).1⟩
  by_contra hq
  have hinf : x.toModel.unpack.isFinite = false := by
    rcases le_abs.mp (not_lt.mp hq) with hq | hq
    · rw [h.above hq]
      rfl
    · rw [h.below (by linarith)]
      rfl
  exact Bool.noConfusion (hfinite.symm.trans hinf)

/-- A nearest float is a number. -/
theorem IsNearest.not_isNaN (h : IsNearest x q) : x.isNaN = false := by
  change x.toModel.unpack.isNaN = false
  rcases lt_or_ge |q| overflow with hq | hq
  · have hfinite : x.toModel.unpack.isFinite := (h.within hq).1
    generalize x.toModel.unpack = u at hfinite ⊢
    cases u with
    | notANumber => cases hfinite
    | _ => rfl
  · rcases le_abs.mp hq with hq | hq
    · rw [h.above hq]
      rfl
    · rw [h.below (by linarith)]
      rfl

theorem not_isNaN_of_isFinite (h : x.isFinite) : x.isNaN = false := by
  change x.toModel.unpack.isNaN = false
  have hfinite : x.toModel.unpack.isFinite := h
  generalize x.toModel.unpack = u at hfinite ⊢
  cases u with
  | notANumber => cases hfinite
  | _ => rfl

/-- What is a number and not finite is an infinity. -/
theorem unpack_eq_infinity (h : x.isNaN = false) (hfinite : ¬ x.isFinite) :
    ∃ s, x.toModel.unpack = .infinity s := by
  have hn : x.toModel.unpack.isNaN = false := h
  have hf : ¬ x.toModel.unpack.isFinite := hfinite
  generalize x.toModel.unpack = u at hn hf ⊢
  cases u with
  | infinity s => exact ⟨s, rfl⟩
  | notANumber => cases hn
  | zero s => exact absurd rfl hf
  | finite s m e hm => exact absurd rfl hf

/-- A finite summand leaves an infinity what it is. -/
theorem unpack_add_infinity {s : Sign} (hx : x.toModel.unpack = .infinity s) (hy : y.isFinite) :
    (x + y).toModel.unpack = .infinity s := by
  have hy' : y.toModel.unpack.isFinite := hy
  have hadd : UnpackedFloat.add Format.binary64 x.toModel.unpack y.toModel.unpack =
      .infinity s := by
    rw [hx]
    generalize y.toModel.unpack = v at hy' ⊢
    cases v with
    | infinity t => cases hy'
    | notANumber => cases hy'
    | zero t => rfl
    | finite t m e hm => rfl
  exact (congrArg (fun u => (pack u).unpack) hadd).trans (unpack_pack trivial)

theorem unpack_sub_infinity {s : Sign} (hx : x.toModel.unpack = .infinity s) (hy : y.isFinite) :
    (x - y).toModel.unpack = .infinity s := by
  have hy' : y.toModel.unpack.isFinite := hy
  have hsub : UnpackedFloat.sub Format.binary64 x.toModel.unpack y.toModel.unpack =
      .infinity s := by
    rw [hx]
    generalize y.toModel.unpack = v at hy' ⊢
    cases v with
    | infinity t => cases hy'
    | notANumber => cases hy'
    | zero t => rfl
    | finite t m e hm => rfl
  exact (congrArg (fun u => (pack u).unpack) hsub).trans (unpack_pack trivial)

/-- Something finite is nothing against an infinity. -/
theorem unpack_div_infinity {t : Sign} (hx : x.isFinite) (hy : y.toModel.unpack = .infinity t) :
    ∃ s, (x / y).toModel.unpack = .zero s := by
  have hx' : x.toModel.unpack.isFinite := hx
  have hdiv : ∃ s, UnpackedFloat.div Format.binary64 x.toModel.unpack y.toModel.unpack =
      .zero s := by
    rw [hy]
    generalize x.toModel.unpack = u at hx' ⊢
    cases u with
    | infinity s => cases hx'
    | notANumber => cases hx'
    | zero s => exact ⟨_, rfl⟩
    | finite s m e hm => exact ⟨_, rfl⟩
  obtain ⟨s, hs⟩ := hdiv
  exact ⟨s, (congrArg (fun u => (pack u).unpack) hs).trans (unpack_pack trivial)⟩

theorem not_isNaN_of_unpack {u : UnpackedFloat} (h : x.toModel.unpack = u)
    (hn : u.isNaN = false) : x.isNaN = false := by
  change x.toModel.unpack.isNaN = false
  rw [h, hn]

/-- A finite summand leaves a number a number. -/
theorem not_isNaN_add (hx : x.isNaN = false) (hy : y.isFinite) : (x + y).isNaN = false := by
  by_cases hfinite : x.isFinite
  · exact (isNearest_add hfinite hy).not_isNaN
  · obtain ⟨s, hs⟩ := unpack_eq_infinity hx hfinite
    exact not_isNaN_of_unpack (unpack_add_infinity hs hy) rfl

theorem not_isNaN_sub (hx : x.isNaN = false) (hy : y.isFinite) : (x - y).isNaN = false := by
  by_cases hfinite : x.isFinite
  · exact (isNearest_sub hfinite hy).not_isNaN
  · obtain ⟨s, hs⟩ := unpack_eq_infinity hx hfinite
    exact not_isNaN_of_unpack (unpack_sub_infinity hs hy) rfl

/-- A finite number divided by a number other than zero is a number. -/
theorem not_isNaN_div (hx : x.isFinite) (hy : y.isNaN = false) (h : y.isFinite → value y ≠ 0) :
    (x / y).isNaN = false := by
  by_cases hfinite : y.isFinite
  · exact (isNearest_div hx hfinite (h hfinite)).not_isNaN
  · obtain ⟨t, ht⟩ := unpack_eq_infinity hy hfinite
    obtain ⟨s, hs⟩ := unpack_div_infinity hx ht
    exact not_isNaN_of_unpack hs rfl

/-! ## 6. What is not a number -/

theorem isNaN_iff : x.isNaN = true ↔ x.toModel.unpack = .notANumber := by
  change x.toModel.unpack.isNaN = true ↔ _
  cases x.toModel.unpack <;> simp [UnpackedFloat.isNaN]

/-- What is packed as no number is none. -/
theorem isNaN_pack {u : UnpackedFloat} (h : u = .notANumber) :
    (Float.ofModel (pack u)).isNaN = true := by
  subst h
  exact isNaN_iff.mpr (unpack_pack trivial)

/-- **What is not a number makes a sum none,** on either side. -/
theorem isNaN_add (h : x.isNaN = true ∨ y.isNaN = true) : (x + y).isNaN = true := by
  refine isNaN_pack (u := UnpackedFloat.add Format.binary64 x.toModel.unpack y.toModel.unpack) ?_
  rcases h with h | h
  · rw [isNaN_iff.mp h]
    rfl
  · rw [isNaN_iff.mp h]
    cases x.toModel.unpack <;> rfl

/-- **What is not a number makes a product none,** on either side. -/
theorem isNaN_mul (h : x.isNaN = true ∨ y.isNaN = true) : (x * y).isNaN = true := by
  refine isNaN_pack (u := UnpackedFloat.mul Format.binary64 x.toModel.unpack y.toModel.unpack) ?_
  rcases h with h | h
  · rw [isNaN_iff.mp h]
    rfl
  · rw [isNaN_iff.mp h]
    cases x.toModel.unpack <;> rfl

/-- What is not a number is divided in vain. -/
theorem isNaN_div (h : x.isNaN = true) : (x / y).isNaN = true := by
  refine isNaN_pack (u := UnpackedFloat.div Format.binary64 x.toModel.unpack y.toModel.unpack) ?_
  rw [isNaN_iff.mp h]
  rfl

end VectorPaint.Number
