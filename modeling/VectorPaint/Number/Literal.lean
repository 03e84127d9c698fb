/-
# Reading numbers

A document's number is the longest start of a text, blanks aside, that is a decimal literal: a
sign, digits with or without a point among, before or behind them, and an exponent that counts
only when it has digits.  What follows does not matter, so a unit behind a number is ignored.
A text that starts with no literal is not a number.

Hexadecimal numbers are read the same way, with a mark `0x` that may be left out.

A whole number on the command line is read strictly: all of the text must be the number, with
blanks around it and single underscores between digits allowed.
-/
import VectorPaint.Number.Exact

namespace VectorPaint.Number

/-! ## 1. Decimal literals -/

/-- A decimal literal: a sign and the number `digits * 10 ^ scale`. -/
structure Literal where
  negative : Bool
  digits : Nat
  scale : Int
  deriving DecidableEq, Repr

/-- The float nearest to a literal.  A negative zero keeps its sign. -/
def Literal.value (l : Literal) : Float :=
  let x := Float.ofModel (Float.Model.ofScientific l.digits l.scale)
  if l.negative then -x else x

/-- Whether a sign in front makes a number negative, and what follows the sign. -/
def scanSign : Text → Bool × Text
  | '-' :: rest => (true, rest)
  | '+' :: rest => (false, rest)
  | t => (false, t)

/-- The digits before and behind the point, and what follows.  There must be one digit. -/
def scanMantissa? (t : Text) : Option (Text × Text × Text) :=
  let front := t.takeWhile Text.isDigit
  match t.dropWhile Text.isDigit with
  | '.' :: rest =>
    let behind := rest.takeWhile Text.isDigit
    if front.isEmpty && behind.isEmpty then none
    else some (front, behind, rest.dropWhile Text.isDigit)
  | rest => if front.isEmpty then none else some (front, [], rest)

/-- The exponent in front of a text, and what follows.  Without digits it is no exponent, and the
text is left as it is. -/
def scanExponent (t : Text) : Int × Text :=
  match t with
  | [] => (0, [])
  | c :: rest =>
    if c == 'e' || c == 'E' then
      let (negative, body) := scanSign rest
      let digits := body.takeWhile Text.isDigit
      if digits.isEmpty then (0, t)
      else
        let n : Int := Text.digitsValue digits
        (if negative then -n else n, body.dropWhile Text.isDigit)
    else (0, t)

/-- The literal that a text starts with, and what follows it. -/
def Literal.scan? (t : Text) : Option (Literal × Text) :=
  let (negative, body) := scanSign t
  match scanMantissa? body with
  | none => none
  | some (front, behind, rest) =>
    let (exponent, after) := scanExponent rest
    some (⟨negative, Text.digitsValue (front ++ behind), exponent - behind.length⟩, after)

/-- The number that a text starts with, after blanks. -/
def read (t : Text) : Float :=
  match Literal.scan? t.trimStart with
  | some (l, _) => l.value
  | none => nan

/-! ## 2. Hexadecimal numbers -/

/-- The value of a hexadecimal digit. -/
def hexDigit? (c : Char) : Option Nat :=
  if '0' ≤ c ∧ c ≤ '9' then some (c.toNat - 48)
  else if 'a' ≤ c ∧ c ≤ 'f' then some (c.toNat - 87)
  else if 'A' ≤ c ∧ c ≤ 'F' then some (c.toNat - 55)
  else none

/-- Whether a code point is a hexadecimal digit. -/
def isHexDigit (c : Char) : Bool := (hexDigit? c).isSome

/-- A text without the mark `0x` in front of a hexadecimal digit. -/
def skipHexMark : Text → Text
  | '0' :: mark :: c :: rest =>
    if (mark == 'x' || mark == 'X') && isHexDigit c then c :: rest else '0' :: mark :: c :: rest
  | t => t

/-- The hexadecimal number that a text starts with, after blanks. -/
def scanHex? (t : Text) : Option Int :=
  let (negative, body) := scanSign t.trimStart
  let digits := (skipHexMark body).takeWhile isHexDigit
  if digits.isEmpty then none
  else
    let n : Int := digits.foldl (fun n c => 16 * n + ((hexDigit? c).getD 0 : Nat)) 0
    some (if negative then -n else n)

/-- The hexadecimal number that a text starts with, as a float. -/
def readHex (t : Text) : Except Fault Float :=
  match scanHex? t with
  | some n => ofWhole n
  | none => .ok nan

/-! ## 3. Whole numbers -/

/-- The most digits that a whole number may have. -/
def mostDigits : Nat := 4300

/-- Whether a code point may stand around a whole number.  The four information separators may
not, though they are blank elsewhere. -/
def isMargin (c : Char) : Bool := Text.isBlank c && !(28 ≤ c.toNat && c.toNat ≤ 31)

/-- The whole number that is all of a text. -/
def readWhole? (t : Text) : Option Int :=
  let inner := ((t.dropWhile isMargin).reverse.dropWhile isMargin).reverse
  let (negative, body) := scanSign inner
  let groups := Text.pieces '_' body
  let digits := groups.flatten
  if groups.all (fun g => !g.isEmpty && g.all Text.isDigit) && digits.length ≤ mostDigits then
    let n : Int := Text.digitsValue digits
    some (if negative then -n else n)
  else none

end VectorPaint.Number
