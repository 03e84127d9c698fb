/-
# Records of what was met

While a document is read, some things are noted: a value that is no number, a view box that
cannot be used, a reference that leads nowhere, a path command that is not known, and every tag
that is found.  A record has a level, a topic, and a message, which is a template with arguments
put into it.
-/
import VectorPaint.Text.DecimalDigit
import VectorPaint.Text.Quoted

namespace VectorPaint

/-- Something worth a note. -/
inductive Record where
  /-- An attribute's value starts with no number. -/
  | notNumeric (name value : Text)
  /-- A view box does not have four parts. -/
  | viewBoxParts (parts : List Text)
  /-- A view box has a size that cannot be used. -/
  | viewBoxSize (width height : Text)
  /-- A reference names no definition. -/
  | unresolvedUse (target : Text)
  /-- A path holds a command that is not supported. -/
  | unsupportedCommand (command : Text)
  /-- A tag was found. -/
  | tagFound (name : Text) (position : Nat)
  deriving DecidableEq, Repr

namespace Record

/-- How much a record matters. -/
inductive Level where
  | debug
  | warning
  deriving DecidableEq, Repr

/-- What a template's place is filled with. -/
inductive Argument where
  | plain (t : Text)
  | quoted (t : Text)
  | quotedList (ts : List Text)
  | number (n : Nat)
  deriving DecidableEq, Repr

/-- The level of a record. -/
def level : Record → Level
  | .unsupportedCommand _ => .warning
  | _ => .debug

/-- The topic of a record. -/
def topic : Record → Text
  | .notNumeric _ _ => "attributes".toList
  | .viewBoxParts _ => "geometry".toList
  | .viewBoxSize _ _ => "geometry".toList
  | .unresolvedUse _ => "svg_state".toList
  | .unsupportedCommand _ => "path_data".toList
  | .tagFound _ _ => "renderer".toList

/-- The message before its places are filled: `%s`, `%r` and `%d` mark plain, quoted and numeric
places. -/
def template : Record → Text
  | .notNumeric _ _ => "Attribute %s=%r is not numeric, using 0".toList
  | .viewBoxParts _ => "viewBox %r does not have four components".toList
  | .viewBoxSize _ _ => "viewBox size %r x %r is unusable".toList
  | .unresolvedUse _ => "Dropping <use> with unresolved href %r".toList
  | .unsupportedCommand _ => "Unsupported path command: %s".toList
  | .tagFound _ _ => "<%s> at %d".toList

/-- The arguments for the places of the template, in order. -/
def arguments : Record → List Argument
  | .notNumeric name value => [.plain name, .quoted value]
  | .viewBoxParts parts => [.quotedList parts]
  | .viewBoxSize width height => [.quoted width, .quoted height]
  | .unresolvedUse target => [.quoted target]
  | .unsupportedCommand command => [.plain command]
  | .tagFound name position => [.plain name, .number position]

/-- An argument as it stands in a message. -/
def Argument.text : Argument → Text
  | .plain t => t
  | .quoted t => t.quoted
  | .quotedList ts => Text.quotedList ts
  | .number n => Text.ofNat n

/-- A template with its places filled. -/
def fill : Text → List Argument → Text
  | '%' :: _ :: rest, a :: args => a.text ++ fill rest args
  | c :: rest, args => c :: fill rest args
  | [], _ => []

/-- The message of a record. -/
def message (r : Record) : Text := fill r.template r.arguments

/-- The name of a level, padded to eight columns. -/
def Level.column : Level → Text
  | .debug => "DEBUG   ".toList
  | .warning => "WARNING ".toList

/-- A record on one line. -/
def line (r : Record) : Text :=
  r.level.column ++ ' ' :: '[' :: r.topic ++ ']' :: ' ' :: r.message

end Record

end VectorPaint
