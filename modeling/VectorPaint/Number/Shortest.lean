/-
# The fewest digits that read back

A float stands for all reals that round to it: an interval around its value, which holds its
ends when the mantissa is even.  The shortest decimal of the float is a point of the interval on
the coarsest decimal grid that has one, and of these points the nearest to the value.

A grid that has a point in the interval has one next to the value, just below or just above, so
only these two are tried, from the coarsest grid that can matter to finer ones.  Seventeen
digits always suffice.  All of it is arithmetic on natural numbers.
-/
import VectorPaint.Number.Exact

namespace VectorPaint.Number

/-- The decimal `digits * 10 ^ exponent`. -/
structure Decimal where
  digits : Nat
  exponent : Int
  deriving DecidableEq, Repr

/-- The reals that round to one float, measured in units of `2 ^ unit`. -/
structure RoundingInterval where
  low : Nat
  value : Nat
  high : Nat
  unit : Int
  closed : Bool

/-- The least mantissa that takes all its bits, which is the mantissa of a power of two. -/
def leastFullMantissa : Nat := 0x10000000000000

/-- The least exponent of a float. -/
def leastExponent : Int := -1074

/-- The interval of the float `mantissa * 2 ^ exponent`.  Below a power of two the floats lie
twice as close, so there the lower end is nearer, unless the floats are already at their
closest. -/
def roundingInterval (mantissa : Nat) (exponent : Int) : RoundingInterval where
  low :=
    if mantissa = leastFullMantissa ∧ leastExponent < exponent then 4 * mantissa - 1
    else 4 * mantissa - 2
  value := 4 * mantissa
  high := 4 * mantissa + 2
  unit := exponent - 2
  closed := mantissa % 2 == 0

/-- The point of the grid of multiples of `10 ^ grid` that is in the interval and nearest to the
value, if there is one. -/
def RoundingInterval.onGrid? (r : RoundingInterval) (grid : Int) : Option Nat :=
  let reals := Nat.pow 2 r.unit.toNat * Nat.pow 10 (-grid).toNat
  let points := Nat.pow 10 grid.toNat * Nat.pow 2 (-r.unit).toNat
  let below := r.value * reals / points
  let inside (c : Nat) : Bool :=
    if r.closed then r.low * reals ≤ c * points && c * points ≤ r.high * reals
    else r.low * reals < c * points && c * points < r.high * reals
  let gapBelow := r.value * reals - below * points
  let gapAbove := (below + 1) * points - r.value * reals
  if inside below && (!inside (below + 1) || gapBelow < gapAbove ||
      (gapBelow == gapAbove && below % 2 == 0)) then some below
  else if inside (below + 1) then some (below + 1)
  else none

/-- A grid that is at least as coarse as the value is large. -/
def coarsestGrid (mantissa : Nat) (exponent : Int) : Int :=
  (mantissa.log2 + exponent + 1) * 30103 / 100000 + 1

/-- The shortest decimal of the float `mantissa * 2 ^ exponent`. -/
def shortest (mantissa : Nat) (exponent : Int) : Decimal :=
  let start := coarsestGrid mantissa exponent
  let tried := (List.range 21).findSome? fun (i : Nat) =>
    ((roundingInterval mantissa exponent).onGrid? (start - i)).map fun digits =>
      (⟨digits, start - i⟩ : Decimal)
  tried.getD ⟨mantissa, exponent⟩

end VectorPaint.Number
