/-
# Options of the command line

The arguments are read from the front.  An option other than the one for verbosity takes the
next argument as its value, whatever it looks like; of an option given twice the last value
counts.  What is no option and does not start with a dash names a drawing.

The first complaint ends the reading, so nothing is touched before all arguments are known to be
good.
-/
import VectorPaint.Rendering

namespace VectorPaint

/-- The options, apart from how they are spelled. -/
inductive Flag where
  | verbose | output | width | height | steps | background
  deriving DecidableEq, Repr

/-- The short spelling of an option. -/
def Flag.short : Flag → Text
  | .verbose => ['-', 'v']
  | .output => ['-', 'o']
  | .width => ['-', 'w']
  | .height => ['-', 'h']
  | .steps => ['-', 's']
  | .background => ['-', 'b']

/-- The long spelling of an option. -/
def Flag.long : Flag → Text
  | .verbose => "--verbose".toList
  | .output => "--output".toList
  | .width => "--width".toList
  | .height => "--height".toList
  | .steps => "--steps".toList
  | .background => "--background".toList

/-- All options. -/
def Flag.all : List Flag := [.verbose, .output, .width, .height, .steps, .background]

/-- The option that an argument spells. -/
def Flag.ofArgument? (argument : Text) : Option Flag :=
  Flag.all.find? fun flag => argument == flag.short || argument == flag.long

/-- What is wrong with the arguments. -/
inductive Complaint where
  | missingValue (argument : Text)
  | notInteger (name : Text)
  | notPositive (name : Text)
  | badBackground
  | unknownOption (argument : Text)
  | noDrawing
  deriving DecidableEq, Repr

/-- A complaint in words. -/
def Complaint.message : Complaint → Text
  | .missingValue argument => "Error: ".toList ++ argument ++ " requires a value".toList
  | .notInteger name => "Error: ".toList ++ name ++ " must be an integer".toList
  | .notPositive name => "Error: ".toList ++ name ++ " must be positive".toList
  | .badBackground => "Error: Background must be R,G,B integers (e.g., 0,0,0)".toList
  | .unknownOption argument => "Unknown option: ".toList ++ argument
  | .noDrawing => "Error: No SVG files specified".toList

/-- What the arguments ask for. -/
structure Options where
  verbose : Bool
  output : Text
  frame : Frame
  background : Rgb
  drawings : List Text
  deriving DecidableEq, Repr

namespace Options

/-- What is asked for without arguments.  An output that is not asked for is the empty path. -/
def standard : Options := ⟨false, [], Frame.standard, ⟨0, 0, 0⟩, []⟩

/-- The positive whole number that a value writes. -/
def positive (name value : Text) : Except Complaint Int :=
  match Number.readWhole? value with
  | none => .error (.notInteger name)
  | some n => if n ≤ 0 then .error (.notPositive name) else .ok n

/-- A component of a color, held within a byte. -/
def component (n : Int) : Int := max (min n 255) 0

/-- The color that a value writes as three whole numbers between commas. -/
def color (value : Text) : Except Complaint Rgb :=
  match (Text.pieces ',' value).mapM fun part => Number.readWhole? part.trim with
  | some [r, g, b] => .ok ⟨component r, component g, component b⟩
  | _ => .error .badBackground

/-- The options with a value given to one of them. -/
def set (o : Options) (flag : Flag) (value : Text) : Except Complaint Options :=
  match flag with
  | .verbose => .ok { o with verbose := true }
  | .output => .ok { o with output := value }
  | .width => do
    let n ← positive ['W', 'i', 'd', 't', 'h'] value
    return { o with frame := { o.frame with width := n } }
  | .height => do
    let n ← positive ['H', 'e', 'i', 'g', 'h', 't'] value
    return { o with frame := { o.frame with height := n } }
  | .steps => do
    let n ← positive ['S', 't', 'e', 'p', 's'] value
    return { o with frame := { o.frame with steps := n } }
  | .background => do
    let c ← color value
    return { o with background := c }

/-- The options after reading further arguments. -/
def readFrom (o : Options) : List Text → Except Complaint Options
  | [] => .ok o
  | argument :: rest =>
    match Flag.ofArgument? argument with
    | none =>
      if argument.head? = some '-' then .error (.unknownOption argument)
      else readFrom { o with drawings := o.drawings ++ [argument] } rest
    | some .verbose => readFrom { o with verbose := true } rest
    | some flag =>
      match rest with
      | [] => .error (.missingValue argument)
      | value :: behind =>
        match o.set flag value with
        | .error complaint => .error complaint
        | .ok o => readFrom o behind

/-- The options that arguments ask for.  They must name a drawing. -/
def read (arguments : List Text) : Except Complaint Options := do
  let o ← standard.readFrom arguments
  if o.drawings.isEmpty then .error .noDrawing else return o

end Options

end VectorPaint
