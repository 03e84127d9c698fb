/-
# What can stop a computation

Malformed markup is never an error here: a number that cannot be read is not a number, and what
it would have painted is left out.  What remains are the faults of arithmetic and of the canvas,
each with one cause and one message.
-/
import VectorPaint.Text.DecimalDigit

namespace VectorPaint

/-- A cause that stops a computation. -/
inductive Fault where
  /-- A division by a zero. -/
  | divisionByZero
  /-- A whole number beyond the range of the floats. -/
  | wholeTooLarge
  /-- A quotient of whole numbers beyond the range of the floats. -/
  | quotientTooLarge
  /-- A whole number that does not fit a machine word of 64 bits. -/
  | wordTooLarge
  /-- An infinity where a whole number is needed. -/
  | infinityToWhole
  /-- A number that is none where a whole number is needed. -/
  | nanToWhole
  /-- A color that does not fit a pixel. -/
  | colorRange (color : Int)
  /-- A canvas with a negative side. -/
  | negativeSize
  deriving DecidableEq, Repr

/-- The message that goes with a fault. -/
def Fault.message : Fault → Text
  | .divisionByZero => "float division by zero".toList
  | .wholeTooLarge => "int too large to convert to float".toList
  | .quotientTooLarge => "integer division result too large for a float".toList
  | .wordTooLarge => "Python int too large to convert to C long".toList
  | .infinityToWhole => "cannot convert float infinity to integer".toList
  | .nanToWhole => "cannot convert float NaN to integer".toList
  | .colorRange color =>
    "Python integer ".toList ++ Text.ofInt color ++ " out of bounds for uint8".toList
  | .negativeSize => "negative dimensions are not allowed".toList

end VectorPaint
