/-
# Numbers as text

There are two ways to write a float.

* `shown` is for people: the shortest decimal, with a point in it.  From 10 to the -4 up to
  below 10 to the 16 it is written out, outside of that range with an exponent of at least two
  digits.
* `spliced` is for markup: a whole number is written in full without a point, any other finite
  number as it is shown, and what is not finite by the names that a reader of markup gives it.
-/
import VectorPaint.Number.Shortest

namespace VectorPaint.Number

open Float.Model.UnpackedFloat (Sign)

/-- The least power of ten that is shown without an exponent. -/
def leastPlain : Int := -4

/-- The least power of ten from which on numbers are shown with an exponent. -/
def leastScientific : Int := 16

/-- A minus, or nothing. -/
def signText : Sign → Text
  | .negative => ['-']
  | .positive => []

/-- A decimal written out, with at least one digit on both sides of the point. -/
def Decimal.plain (d : Decimal) : Text :=
  let digits := Text.ofNat d.digits
  if 0 ≤ d.exponent then digits ++ List.replicate d.exponent.toNat '0' ++ ['.', '0']
  else
    let places := (-d.exponent).toNat
    if places < digits.length then
      digits.take (digits.length - places) ++ '.' :: digits.drop (digits.length - places)
    else '0' :: '.' :: List.replicate (places - digits.length) '0' ++ digits

/-- A decimal with an exponent: one digit, then the others behind a point. -/
def Decimal.scientific (d : Decimal) : Text :=
  let digits := Text.ofNat d.digits
  let power := d.exponent + digits.length - 1
  let front := match digits with
    | first :: second :: rest => first :: '.' :: second :: rest
    | short => short
  let width := Text.ofNat power.natAbs
  front ++ 'e' :: (if power < 0 then '-' else '+') ::
    (List.replicate (2 - width.length) '0' ++ width)

/-- A decimal the way it is shown. -/
def Decimal.shown (d : Decimal) : Text :=
  let power := d.exponent + (Text.ofNat d.digits).length - 1
  if leastPlain ≤ power ∧ power < leastScientific then d.plain else d.scientific

/-- A float the way it is shown. -/
def shown (x : Float) : Text :=
  match x.toModel.unpack with
  | .notANumber => ['n', 'a', 'n']
  | .infinity sign => signText sign ++ ['i', 'n', 'f']
  | .zero sign => signText sign ++ ['0', '.', '0']
  | .finite sign mantissa exponent _ => signText sign ++ (shortest mantissa exponent).shown

/-- A float the way it is put into markup. -/
def spliced (x : Float) : Text :=
  match scaled? x with
  | some v => if v.isWhole then Text.ofInt v.truncate else shown x
  | none =>
    if x.isNaN then ['N', 'a', 'N']
    else if x < 0.0 then '-' :: ['I', 'n', 'f', 'i', 'n', 'i', 't', 'y']
    else ['I', 'n', 'f', 'i', 'n', 'i', 't', 'y']

end VectorPaint.Number
