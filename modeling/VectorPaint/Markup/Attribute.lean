/-
# Attributes

An attribute's value is what stands between the next two double quotes behind the first place
where the attribute's name is followed by an equals sign.  Nothing checks that the name found is
a whole name, so the first name that ends in the one asked for answers.  An attribute that is
missing has the empty value.
-/
import VectorPaint.Journal
import VectorPaint.Record
import VectorPaint.Text.Search
import VectorPaint.Number.Literal

namespace VectorPaint.Markup

/-- What stands between the next two double quotes of a text. -/
def betweenQuotes? (t : Text) : Option Text :=
  match t.dropWhile (· != '"') with
  | [] => none
  | _ :: rest =>
    let value := rest.takeWhile (· != '"')
    if value.length < rest.length then some value else none

/-- What stands between the next two double quotes from the first place of a key on. -/
def valueFrom? (key t : Text) : Option Text :=
  (Text.cut? key t).bind fun (_, rest) => betweenQuotes? rest

/-- The value of an attribute, without blanks at its ends. -/
def attributeText (tag name : Text) : Text :=
  match valueFrom? (name ++ ['=']) tag with
  | some value => value.trim
  | none => []

/-- The number of an attribute.  It is zero where the attribute is missing or empty, and also,
with a note, where its value starts with no number. -/
def attributeNumber (tag name : Text) : Journal Record Float :=
  let value := attributeText tag name
  if value.isEmpty then pure 0.0
  else
    let n := Number.read value
    if n.isNaN then do
      Journal.enter (.notNumeric name value)
      return 0.0
    else pure n

end VectorPaint.Markup
