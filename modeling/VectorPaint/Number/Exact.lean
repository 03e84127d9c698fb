/-
# The exact value of a float

A finite float is a whole number times a power of two.  This module takes a float apart into
that product and puts one together from it, and does on the product what must not be rounded:
taking the floor, cutting the fraction off, and comparing with a whole number.

Putting together rounds to the nearest float, with ties to the even mantissa, and answers with
an infinity past the range.  So `Scaled.nearest ⟨n, 0⟩` is the float nearest to `n`, and
`Scaled.nearest ⟨n, -1⟩` the float nearest to half of it.
-/
import VectorPaint.Fault

namespace VectorPaint.Number

open Float.Model (UnpackedFloat)

/-- The number `mantissa * 2 ^ exponent`. -/
structure Scaled where
  mantissa : Int
  exponent : Int
  deriving DecidableEq, Repr

namespace Scaled

/-- The numerator of the number as a fraction. -/
def numerator (v : Scaled) : Int := v.mantissa * (Nat.pow 2 v.exponent.toNat : Nat)

/-- The denominator of the number as a fraction, which is one unless the exponent is negative. -/
def denominator (v : Scaled) : Nat := Nat.pow 2 (-v.exponent).toNat

/-- A denominator is not zero. -/
theorem denominator_pos (v : Scaled) : 0 < v.denominator := Nat.pow_pos (by decide)

/-- The greatest whole number that is not above. -/
def floor (v : Scaled) : Int := v.numerator / v.denominator

/-- The whole part, with the fraction cut off toward zero. -/
def truncate (v : Scaled) : Int := v.numerator.tdiv v.denominator

/-- Whether there is no fraction. -/
def isWhole (v : Scaled) : Bool := v.numerator % v.denominator == 0

/-- The order between the number and a whole number. -/
def compareWhole (v : Scaled) (n : Int) : Ordering := compare v.numerator (n * v.denominator)

/-- The nearest float, an even mantissa on ties, an infinity past the range. -/
def nearest (v : Scaled) : Float :=
  Float.ofModel (Float.Model.pack
    (UnpackedFloat.normalize Float.Model.Format.binary64 v.mantissa v.exponent .positive))

end Scaled

/-- The value of a finite float, and nothing for the others. -/
def scaled? (x : Float) : Option Scaled :=
  match x.toModel.unpack with
  | .finite sign mantissa exponent _ => some ⟨sign.apply mantissa, exponent⟩
  | .zero _ => some ⟨0, 0⟩
  | .infinity _ => none
  | .notANumber => none

/-- A float that is not a number. -/
def nan : Float := 0.0 / 0.0

/-- The order between a float and a whole number, where there is one. -/
def compareWhole? (x : Float) (n : Int) : Option Ordering :=
  if x.isNaN then none
  else match scaled? x with
    | some v => some (v.compareWhole n)
    | none => some (if x < 0.0 then .lt else .gt)

/-- The order between two floats, where there is one. -/
def compare? (x y : Float) : Option Ordering :=
  if x < y then some .lt else if y < x then some .gt else if x == y then some .eq else none

/-- The greatest whole number that is not above a float. -/
def floor (x : Float) : Except Fault Int :=
  match scaled? x with
  | some v => .ok v.floor
  | none => .error (if x.isNaN then .nanToWhole else .infinityToWhole)

/-- The whole part of a float. -/
def truncate (x : Float) : Except Fault Int :=
  match scaled? x with
  | some v => .ok v.truncate
  | none => .error (if x.isNaN then .nanToWhole else .infinityToWhole)

/-- The float nearest to a whole number. -/
def ofWhole (n : Int) : Except Fault Float :=
  let x := Scaled.nearest ⟨n, 0⟩
  if x.isFinite then .ok x else .error .wholeTooLarge

/-- The float nearest to half of a whole number. -/
def halfOfWhole (n : Int) : Except Fault Float :=
  let x := Scaled.nearest ⟨n, -1⟩
  if x.isFinite then .ok x else .error .quotientTooLarge

/-- The float nearest to a quotient of whole numbers of any size, zero where one of them is. -/
def quotient (m n : Nat) : Float :=
  if h : 0 < m ∧ 0 < n then
    Float.ofModel (Float.Model.pack (UnpackedFloat.div Float.Model.Format.binary64
      (.finite .positive m 0 h.1) (.finite .positive n 0 h.2)))
  else 0.0

/-- A whole number within bounds: the floor of a float, or the bound that the float reaches. -/
def floorWithin (low high : Int) (x : Float) : Except Fault Int :=
  if (compareWhole? x low).any (·.isLE) then .ok low
  else if (compareWhole? x high).any (·.isGE) then .ok high
  else floor x

end VectorPaint.Number
