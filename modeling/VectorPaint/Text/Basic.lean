/-
# Text as a list of code points

Every position and every length in this library counts code points, so a text is the list of
its code points and nothing finer.  Two things are fixed here for the whole library: which
code points are blank, and how a text is cut at blanks or at a separator.

Blank is Unicode's white space together with the four information separators U+001C to
U+001F.  The zero width space U+200B and the byte order mark U+FEFF are not blank.
-/

namespace VectorPaint

/-- A text, one entry per code point. -/
abbrev Text := List Char

namespace Text

/-! ## 1. Blanks -/

/-- Whether a code point separates words and is cut from the ends of a value. -/
def isBlank (c : Char) : Bool :=
  let n := c.toNat
  (9 ≤ n && n ≤ 13) || (28 ≤ n && n ≤ 32) || n == 0x85 || n == 0xA0 || n == 0x1680 ||
    (0x2000 ≤ n && n ≤ 0x200A) || n == 0x2028 || n == 0x2029 || n == 0x202F || n == 0x205F ||
    n == 0x3000

/-- The text without its leading blanks. -/
def trimStart (t : Text) : Text := t.dropWhile isBlank

/-- The text without its trailing blanks. -/
def trimEnd (t : Text) : Text := (t.reverse.dropWhile isBlank).reverse

/-- The text without the blanks at both ends. -/
def trim (t : Text) : Text := trimEnd (trimStart t)

/-! ## 2. Words and pieces -/

/-- The words of a text: its maximal runs of code points that do not separate. -/
def words (separates : Char → Bool) : Text → List Text
  | [] => []
  | [c] => if separates c then [] else [[c]]
  | c :: d :: rest =>
    if separates c then words separates (d :: rest)
    else if separates d then [c] :: words separates (d :: rest)
    else match words separates (d :: rest) with
      | [] => [[c]]
      | w :: ws => (c :: w) :: ws

/-- The pieces of a text between the occurrences of one separator.  Neighbouring separators
have an empty piece between them, and a text without the separator is one piece. -/
def pieces (separator : Char) : Text → List Text
  | [] => [[]]
  | c :: rest =>
    if c = separator then [] :: pieces separator rest
    else match pieces separator rest with
      | [] => [[c]]
      | p :: ps => (c :: p) :: ps

theorem pieces_ne_nil (separator : Char) (t : Text) : pieces separator t ≠ [] := by
  cases t with
  | nil => simp [pieces]
  | cons c rest =>
    unfold pieces
    split
    · simp
    · split <;> simp

/-- Whether a text ends in a given one. -/
def endsWith (t ending : Text) : Bool := ending.isSuffixOf t

end Text

end VectorPaint
