/-
# Definitions and their reuse

A circle, a rectangle or a path that has an id is a definition, wherever it stands.  A reference
`<use` names a definition by its id and is replaced by the definition's tag, with the reference's
position written behind the name of the tag, where attributes are looked up first.  A reference
to nothing is dropped, with a note.

Both passes go through the text from tag to tag.  An unfinished tag ends them: what follows is
left as it is.
-/
import VectorPaint.Markup.Attribute
import VectorPaint.Number.Coord
import VectorPaint.Number.Written

namespace VectorPaint

/-- A coordinate the way it is put into markup. -/
def Coord.spliced : Coord → Except Fault Text
  | .whole n => (Number.ofWhole n).map fun _ => Text.ofInt n
  | .real x => .ok (Number.spliced x)

namespace Markup

/-! ## 1. Definitions -/

/-- Tags by their ids, in the order of the text.  Where an id occurs again, the later tag
counts. -/
abbrev Definitions := List (Text × Text)

/-- The tag of an id. -/
def Definitions.lookup? (defs : Definitions) (id : Text) : Option Text :=
  defs.foldl (fun found entry => if entry.1 = id then some entry.2 else found) none

/-- The ids, each of them once. -/
def Definitions.ids (defs : Definitions) : List Text := (defs.map (·.1)).eraseDups

/-- What a tag must hold to be a definition. -/
def definableMarks : List Text :=
  [['<', 'c', 'i', 'r', 'c', 'l', 'e'], ['<', 'r', 'e', 'c', 't'], ['<', 'p', 'a', 't', 'h']]

/-- The definition that a tag makes, if it makes one. -/
def definitionOf (tag : Text) : Definitions :=
  if definableMarks.any (Text.occursIn · tag) then
    let id := attributeText tag ['i', 'd']
    if id.isEmpty then [] else [(id, tag)]
  else []

/-- All definitions of a text. -/
def definitions (t : Text) : Definitions :=
  match _hOpen : t.dropWhile (· != '<') with
  | [] => []
  | c :: rest =>
    match _hClose : Text.through? '>' (c :: rest) with
    | none => []
    | some (tag, after) => definitionOf tag ++ definitions after
termination_by t.length
decreasing_by
  have h1 := Text.length_of_through? _hClose
  have h2 := (List.dropWhile_suffix (fun x => x != '<') (l := t)).length_le
  rw [_hOpen] at h2
  omega

/-! ## 2. References -/

/-- Whether a code point belongs to the name of a tag. -/
def isNameChar (c : Char) : Bool := !Text.isBlank c && c != '/' && c != '>'

/-- The length of a tag up to the end of its name. -/
def nameLength : Text → Nat
  | '<' :: rest => (rest.takeWhile isNameChar).length + 1
  | _ => 0

/-- The attributes that carry a position, with the texts of its two numbers. -/
def positionText (x y : Text) : Text :=
  [' ', 'x', '=', '"'] ++ x ++ ['"', ' ', 'y', '=', '"'] ++ y ++ ['"']

/-- A tag with a position written behind its name. -/
def injectPosition (tag x y : Text) : Text :=
  tag.take (nameLength tag) ++ positionText x y ++ tag.drop (nameLength tag)

/-- A reference's target without the number sign in front. -/
def targetId : Text → Text
  | '#' :: rest => rest
  | t => t

/-- What a reference is replaced by. -/
def resolve (defs : Definitions) (tag : Text) : Journal Record Text := do
  let target := targetId (attributeText tag ['h', 'r', 'e', 'f'])
  let x ← attributeNumber tag ['x']
  let y ← attributeNumber tag ['y']
  match defs.lookup? target with
  | some (c :: rest) => return injectPosition (c :: rest) (Number.spliced x) (Number.spliced y)
  | _ => do
    Journal.enter (.unresolvedUse target)
    return []

/-- What a reference starts with. -/
def useMark : Text := ['<', 'u', 's', 'e']

/-- A text with all its references replaced. -/
def expand (defs : Definitions) (t : Text) : Journal Record Text :=
  match _hUse : Text.cut? useMark t with
  | none => pure t
  | some (before, rest) =>
    match _hClose : Text.through? '>' rest with
    | none => pure t
    | some (tag, after) => do
      let inserted ← resolve defs tag
      let tail ← expand defs after
      return before ++ inserted ++ tail
termination_by t.length
decreasing_by
  have h1 := Text.length_of_through? _hClose
  have h2 := congrArg List.length (Text.append_of_cut? _hUse)
  rw [List.length_append] at h2
  omega

end Markup

end VectorPaint
