/-
# What a packed float holds

A float is 64 bits: a sign, an exponent and the digits behind the first one.  Unpacked it is one
of four things, and a finite one is a sign, a mantissa and an exponent.  Not every mantissa goes
with every exponent.  The mantissa has 53 digits, or fewer with the least exponent
(`IsCanonical`), and the exponent is not above 971 (`Fits`).

Whatever is unpacked fits (`fits_unpack`), what fits is the same after packing and unpacking
(`unpack_pack`), and what would fit but for its exponent becomes an infinity
(`unpack_pack_overflow`).  So the arithmetic of floats can be followed on unpacked ones.
-/
import Mathlib
import VectorPaint.Number.Exact

namespace VectorPaint.Number

open Float.Model (UnpackedFloat Format pack)
open Float.Model.UnpackedFloat (Sign packComponents)

/-! ## 1. The parts of a packed float -/

/-- Finite floats with the same sign, mantissa and exponent are the same. -/
theorem finite_congr {s t : Sign} {m n : ℕ} {d e : ℤ} (hm : 0 < m) (hn : 0 < n) (hs : s = t)
    (h : m = n) (h' : d = e) : UnpackedFloat.finite s m d hm = .finite t n e hn := by
  subst hs h h'
  rfl

/-- The first digit in front of the others. -/
theorem toNat_leading (m : BitVec 52) : (1#1 ++ m).toNat = 2 ^ 52 + m.toNat := by
  rw [BitVec.toNat_append, ← Nat.shiftLeft_add_eq_or_of_lt m.isLt, Nat.shiftLeft_eq]
  simp

/-- A float with an exponent that is neither the least nor the greatest has a leading digit. -/
theorem unpack_normal {b : BitVec Format.binary64.numBits} {s : Sign} {m : ℕ} {e : ℤ} (hm : 0 < m)
    (hzero : UnpackedFloat.unpackExponent b ≠ 0#11) (hones : UnpackedFloat.unpackExponent b ≠ -1#11)
    (hs : Sign.ofBitVec (UnpackedFloat.unpackSign b) = s)
    (hmantissa : 2 ^ 52 + (UnpackedFloat.unpackMantissa b).toNat = m)
    (hexponent : ((UnpackedFloat.unpackExponent b).toNat : ℤ) - 1075 = e) :
    UnpackedFloat.unpack Format.binary64 b = .finite s m e hm := by
  refine (if_neg hones).trans ((if_neg hzero).trans ?_)
  exact finite_congr _ hm hs ((toNat_leading _).trans hmantissa) hexponent

/-- With the least exponent there is no leading digit. -/
theorem unpack_subnormal {b : BitVec Format.binary64.numBits} {s : Sign} {m : ℕ} (hm : 0 < m)
    (hzero : UnpackedFloat.unpackExponent b = 0#11)
    (hs : Sign.ofBitVec (UnpackedFloat.unpackSign b) = s)
    (hmantissa : (UnpackedFloat.unpackMantissa b).toNat = m) :
    UnpackedFloat.unpack Format.binary64 b = .finite s m (-1074) hm := by
  have hne : UnpackedFloat.unpackMantissa b ≠ 0#52 := by
    intro h
    rw [h] at hmantissa
    exact hm.ne hmantissa
  have hones : UnpackedFloat.unpackExponent b ≠ -1#11 := by
    rw [hzero]
    decide
  refine (if_neg hones).trans ((if_pos hzero).trans ((dif_neg hne).trans ?_))
  refine finite_congr _ hm hs hmantissa ?_
  rw [hzero]
  rfl

theorem unpack_infinity (s : Sign) :
    UnpackedFloat.unpack Format.binary64 (UnpackedFloat.packedInfinity Format.binary64 s) =
      .infinity s := by
  cases s <;> rfl

/-! ## 2. Canonical digits -/

/-- A mantissa and an exponent that go together. -/
structure IsCanonical (m : ℕ) (e : ℤ) : Prop where
  /-- There are at most 53 digits. -/
  few : m < 2 ^ 53
  /-- No digit lies below the last one of all. -/
  least : -1074 ≤ e
  /-- There are fewer digits only where they would lie below. -/
  leading : 2 ^ 52 ≤ m ∨ e = -1074

/-- What a packed float can hold. -/
def Fits : UnpackedFloat → Prop
  | .finite _ m e _ => IsCanonical m e ∧ e ≤ 971
  | _ => True

/-- **What is unpacked fits.** -/
theorem fits_unpack (x : Float.Model) : Fits x.unpack := by
  change Fits (UnpackedFloat.unpack Format.binary64 x.toBits.toBitVec)
  obtain ⟨b, hb⟩ : ∃ b : BitVec Format.binary64.numBits, x.toBits.toBitVec = b := ⟨_, rfl⟩
  rw [hb]
  have hm : (UnpackedFloat.unpackMantissa b).toNat < 2 ^ 52 :=
    (UnpackedFloat.unpackMantissa b).isLt
  have he : (UnpackedFloat.unpackExponent b).toNat < 2 ^ 11 :=
    (UnpackedFloat.unpackExponent b).isLt
  by_cases hzero : UnpackedFloat.unpackExponent b = 0#11
  · by_cases hm0 : UnpackedFloat.unpackMantissa b = 0#52
    · have hones : UnpackedFloat.unpackExponent b ≠ -1#11 := by
        rw [hzero]
        decide
      have hb : UnpackedFloat.unpack Format.binary64 b = .zero _ :=
        (if_neg hones).trans ((if_pos hzero).trans (dif_pos hm0))
      rw [hb]
      exact trivial
    · have hpos : 0 < (UnpackedFloat.unpackMantissa b).toNat :=
        Nat.pos_of_ne_zero fun h => hm0 (BitVec.eq_of_toNat_eq h)
      rw [unpack_subnormal hpos hzero rfl rfl]
      exact ⟨⟨by omega, le_refl _, Or.inr rfl⟩, by norm_num⟩
  · by_cases hones : UnpackedFloat.unpackExponent b = -1#11
    · by_cases hm0 : UnpackedFloat.unpackMantissa b = 0#52
      · have hb : UnpackedFloat.unpack Format.binary64 b = .infinity _ :=
          (if_pos hones).trans (if_pos hm0)
        rw [hb]
        exact trivial
      · have hb : UnpackedFloat.unpack Format.binary64 b = .notANumber :=
          (if_pos hones).trans (if_neg hm0)
        rw [hb]
        exact trivial
    · have hzero' : (UnpackedFloat.unpackExponent b).toNat ≠ 0 :=
        fun h => hzero (BitVec.eq_of_toNat_eq h)
      have hones' : (UnpackedFloat.unpackExponent b).toNat ≠ 2047 :=
        fun h => hones (BitVec.eq_of_toNat_eq h)
      rw [unpack_normal (Nat.add_pos_left (by norm_num) _) hzero hones rfl rfl rfl]
      exact ⟨⟨by omega, by omega, Or.inl (by omega)⟩, by omega⟩

/-! ## 3. Packing and unpacking -/

/-- The exponent as it is packed. -/
theorem biasedExponent_eq (e : ℤ) : e + Format.binary64.exponentBias +
    Format.binary64.mantissaBitsWithoutImplicit = e + 1075 := by
  have hbias : (Format.binary64.exponentBias : ℤ) = 1023 := rfl
  have hwidth : (Format.binary64.mantissaBitsWithoutImplicit : ℤ) = 52 := rfl
  omega

/-- A mantissa has a leading digit exactly when all of its bits are taken. -/
theorem log2_eq_iff {m : ℕ} (hm : 0 < m) (hfew : m < 2 ^ 53) :
    m.log2 + 1 = Format.binary64.mantissaBits ↔ 2 ^ 52 ≤ m := by
  change m.log2 + 1 = 1 + 52 ↔ _
  have h1 : m.log2 < 53 := (Nat.log2_lt hm.ne').mpr hfew
  rw [← Nat.le_log2 hm.ne']
  omega

/-- The bits of a canonical float whose exponent fits. -/
theorem unpack_pack_finite (s : Sign) {m : ℕ} {e : ℤ} (hm : 0 < m) (h : IsCanonical m e)
    (he : e ≤ 971) : (pack (.finite s m e hm)).unpack = .finite s m e hm := by
  have hfew := h.few
  have hleast := h.least
  obtain ⟨b, hb⟩ : ∃ b, (e + Format.binary64.exponentBias +
      Format.binary64.mantissaBitsWithoutImplicit).toNat = b := ⟨_, rfl⟩
  have hb' : (b : ℤ) = e + 1075 := by
    rw [biasedExponent_eq] at hb
    omega
  have hroom : ¬ 2 ^ Format.binary64.exponentBits ≤ b + 1 := by
    change ¬ 2 ^ 11 ≤ b + 1
    omega
  change UnpackedFloat.unpack Format.binary64 (UnpackedFloat.pack Format.binary64 _) = _
  by_cases hlead : 2 ^ 52 ≤ m
  · have hpack : UnpackedFloat.pack Format.binary64 (.finite s m e hm) =
        packComponents Format.binary64 s (BitVec.ofNat 11 b) (BitVec.ofNat 52 m) := by
      rw [← hb] at hroom ⊢
      exact (if_neg hroom).trans (if_pos ((log2_eq_iff hm hfew).mpr hlead))
    have hexponent : (BitVec.ofNat 11 b).toNat = b := by
      rw [BitVec.toNat_ofNat]
      omega
    rw [hpack]
    refine unpack_normal hm ?_ ?_ ?_ ?_ ?_
    · rw [UnpackedFloat.unpackExponent_packComponents]
      intro h0
      rw [h0] at hexponent
      change 0 = _ at hexponent
      omega
    · rw [UnpackedFloat.unpackExponent_packComponents]
      intro h1
      rw [h1] at hexponent
      change 2047 = _ at hexponent
      omega
    · rw [UnpackedFloat.unpackSign_packComponents, Sign.ofBitVec_toBitVec]
    · rw [UnpackedFloat.unpackMantissa_packComponents]
      change 2 ^ 52 + (BitVec.ofNat 52 m).toNat = m
      rw [BitVec.toNat_ofNat]
      omega
    · rw [UnpackedFloat.unpackExponent_packComponents, hexponent]
      omega
  · have hpack : UnpackedFloat.pack Format.binary64 (.finite s m e hm) =
        packComponents Format.binary64 s 0#11 (BitVec.ofNat 52 m) := by
      rw [← hb] at hroom
      exact (if_neg hroom).trans (if_neg ((log2_eq_iff hm hfew).not.mpr hlead))
    have hexp : e = -1074 := h.leading.resolve_left hlead
    subst hexp
    rw [hpack]
    refine unpack_subnormal hm ?_ ?_ ?_
    · rw [UnpackedFloat.unpackExponent_packComponents]
    · rw [UnpackedFloat.unpackSign_packComponents, Sign.ofBitVec_toBitVec]
    · rw [UnpackedFloat.unpackMantissa_packComponents]
      change (BitVec.ofNat 52 m).toNat = m
      rw [BitVec.toNat_ofNat]
      omega

/-- **What fits is the same after packing and unpacking.** -/
theorem unpack_pack {u : UnpackedFloat} (h : Fits u) : (pack u).unpack = u := by
  cases u with
  | infinity s => exact unpack_infinity s
  | notANumber => exact UnpackedFloat.unpack_packedNaN
  | zero s => exact UnpackedFloat.unpack_packedZero
  | finite s m e hm => exact unpack_pack_finite s hm h.1 h.2

/-- **An exponent that is too great makes an infinity.** -/
theorem unpack_pack_overflow (s : Sign) {m : ℕ} {e : ℤ} (hm : 0 < m) (he : 972 ≤ e) :
    (pack (.finite s m e hm)).unpack = .infinity s := by
  have hover : 2 ^ Format.binary64.exponentBits ≤ (e + Format.binary64.exponentBias +
      Format.binary64.mantissaBitsWithoutImplicit).toNat + 1 := by
    rw [biasedExponent_eq]
    change 2 ^ 11 ≤ _
    omega
  have hpack : UnpackedFloat.pack Format.binary64 (.finite s m e hm) =
      UnpackedFloat.packedInfinity Format.binary64 s := if_pos hover
  change UnpackedFloat.unpack Format.binary64 (UnpackedFloat.pack Format.binary64 _) = _
  rw [hpack]
  exact unpack_infinity s

end VectorPaint.Number
