/-
# Whole numbers in a document

A run of decimal digits, with or without a sign in front, writes a whole number (`Writes`).  Reading
it takes all of it, and what is read is the whole number itself as long as the number fits a
mantissa (`isWhole_read`).  A whole number of any size can be written this way (`writes_ofInt`).
-/
import VectorPaint.Proofs.Cutting
import VectorPaint.Proofs.Literals

namespace VectorPaint.Number

open Raster (IsWhole)

/-! ## 1. The value of a literal -/

/-- **A literal without a point and without an exponent is read exactly,** if a mantissa has room
for it. -/
theorem isWhole_literal (negative : Bool) {n : ℕ} (h : (n : ℤ) ≤ 2 ^ 53) :
    IsWhole (Literal.value ⟨negative, n, 0⟩) (if negative then -n else n) := by
  have habs : |(if negative then -n else n : ℤ)| ≤ 2 ^ 53 := by
    cases negative with
    | false => exact (Nat.abs_cast n).trans_le h
    | true => exact (abs_neg (n : ℤ)).trans_le ((Nat.abs_cast n).trans_le h)
  have hnearest := Literal.isNearest_value ⟨negative, n, 0⟩
  rw [Literal.exact_whole] at hnearest
  obtain ⟨hfinite, hvalue⟩ := hnearest.within (lt_overflow (by exact_mod_cast habs))
  exact ⟨hfinite, hvalue.trans (rounded_intCast habs)⟩

/-! ## 2. Written whole numbers -/

/-- A text writes a whole number: digits, with or without a sign in front. -/
inductive Writes : Text → ℤ → Prop
  | plain {digits : Text} (hne : digits ≠ []) (h : ∀ c ∈ digits, Text.isDigit c = true) :
    Writes digits (Text.digitsValue digits)
  | plus {digits : Text} (hne : digits ≠ []) (h : ∀ c ∈ digits, Text.isDigit c = true) :
    Writes ('+' :: digits) (Text.digitsValue digits)
  | minus {digits : Text} (hne : digits ≠ []) (h : ∀ c ∈ digits, Text.isDigit c = true) :
    Writes ('-' :: digits) (-Text.digitsValue digits)

variable {t digits : Text} {n : ℤ}

/-- Digits behind a sign spell a literal with no point and no exponent. -/
theorem IsDigits.spells {s : Text} {negative : Bool} (h : IsDigits digits)
    (hsign : SpellsSign s negative) :
    Spells (s ++ digits) ⟨negative, Text.digitsValue digits, 0⟩ := by
  simpa using Spells.mk hsign (.whole h) .none

/-- So does a written whole number. -/
theorem Writes.exists_literal (h : Writes t n) :
    ∃ negative m, Spells t ⟨negative, m, 0⟩ ∧ n = if negative then -(m : ℤ) else m := by
  cases h with
  | plain hne hdigits => exact ⟨false, _, IsDigits.spells ⟨hne, hdigits⟩ .none, rfl⟩
  | plus hne hdigits => exact ⟨false, _, IsDigits.spells ⟨hne, hdigits⟩ .plus, rfl⟩
  | minus hne hdigits => exact ⟨true, _, IsDigits.spells ⟨hne, hdigits⟩ .minus, rfl⟩

/-- **A written whole number is read exactly,** if a mantissa has room for it. -/
theorem Writes.isWhole_read (h : Writes t n) (hn : |n| ≤ 2 ^ 53) : IsWhole (read t) n := by
  obtain ⟨negative, m, hspells, rfl⟩ := h.exists_literal
  rw [hspells.read_eq]
  refine isWhole_literal negative ?_
  cases negative with
  | false => exact (le_abs_self _).trans hn
  | true => exact (neg_le_abs (-(m : ℤ))).trans hn |>.trans' (neg_neg _).ge

/-- **Every whole number can be written.** -/
theorem writes_ofInt (n : ℤ) : Writes (Text.ofInt n) n := by
  obtain ⟨hne, hdigits⟩ := isDigits_ofNat n.natAbs
  have hvalue := Text.digitsValue_ofNat n.natAbs
  unfold Text.ofInt
  split
  · have hminus := Writes.minus hne hdigits
    rwa [hvalue, show -(n.natAbs : ℤ) = n by omega] at hminus
  · have hplain := Writes.plain hne hdigits
    rwa [hvalue, show (n.natAbs : ℤ) = n by omega] at hplain

end VectorPaint.Number
