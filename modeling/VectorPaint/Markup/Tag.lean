/-
# Finding tags in markup

No tree is built.  The next tag of a kind is the next place where the kind's name stands behind
`<`, or behind the `:` of a namespace, in lower case or, where the lower case does not occur any
more, in upper case.  The next tag of several kinds is the nearest of these, and where two of
them are equally near the kind that is listed first.

The text of a tag is found without looking at the tag's structure: it starts at the tag and has
as many code points as the position of the terminator, counted from the beginning of the
document.  So the text of a tag that is not at the beginning runs past its terminator.
-/
import VectorPaint.Text.Search
import VectorPaint.Text.LetterCase

namespace VectorPaint.Markup

/-! ## 1. Kinds of tags -/

/-- The tags that mean something: what is painted, groups, and definitions, which are skipped. -/
inductive Kind where
  | rect | circle | line | ellipse | polyline | polygon | path | text | group | definitions
  deriving DecidableEq, Repr

/-- The name of a tag. -/
def Kind.name : Kind → Text
  | .rect => ['r', 'e', 'c', 't']
  | .circle => ['c', 'i', 'r', 'c', 'l', 'e']
  | .line => ['l', 'i', 'n', 'e']
  | .ellipse => ['e', 'l', 'l', 'i', 'p', 's', 'e']
  | .polyline => ['p', 'o', 'l', 'y', 'l', 'i', 'n', 'e']
  | .polygon => ['p', 'o', 'l', 'y', 'g', 'o', 'n']
  | .path => ['p', 'a', 't', 'h']
  | .text => ['t', 'e', 'x', 't']
  | .group => ['g']
  | .definitions => ['d', 'e', 'f', 's']

/-- The kinds that paint, the first of them preferred. -/
def Kind.painted : List Kind :=
  [.rect, .circle, .line, .ellipse, .polyline, .polygon, .path, .text, .group]

/-- All kinds, those that paint first. -/
def Kind.all : List Kind := Kind.painted ++ [.definitions]

/-! ## 2. The next tag -/

/-- The position of the next tag of a name behind a mark, in lower or else in upper case. -/
def tagBehind? (mark : Char) (name t : Text) (start : Nat) : Option Nat :=
  (Text.find? (mark :: name) t start).or (Text.find? (mark :: name.upper) t start)

/-- The lesser of two positions, and the other one where one is missing. -/
def nearer : Option Nat → Option Nat → Option Nat
  | none, q => q
  | some p, none => some p
  | some p, some q => some (min p q)

/-- The position of the next tag of a name, with or without a namespace.  A start before the
beginning is the beginning. -/
def tagPosition? (t : Text) (start : Int) (name : Text) : Option Nat :=
  nearer (tagBehind? '<' name t start.toNat) (tagBehind? ':' name t start.toNat)

/-- The nearer of a tag found before and one found now; the earlier one stays on ties. -/
def nearest {α : Type} : Option (Nat × α) → Option (Nat × α) → Option (Nat × α)
  | none, found => found
  | found, none => found
  | some (p, a), some (q, b) => if q < p then some (q, b) else some (p, a)

/-- The nearest tag of several kinds, each with its name. -/
def nextTag? {α : Type} (name : α → Text) (kinds : List α) (t : Text) (start : Int) :
    Option (Nat × α) :=
  kinds.foldl (fun found kind =>
    nearest found ((tagPosition? t start (name kind)).map fun p => (p, kind))) none

/-! ## 3. The text of a tag -/

/-- Whether a tag closes itself. -/
def closesItself (tag : Text) : Bool := tag.trimEnd.endsWith ['/', '>']

/-- The position of the next terminator, or the end of the text. -/
def tagEnd (t : Text) (start : Int) (terminator : Text) : Nat :=
  (Text.find? terminator t (Text.anchor t.length start)).getD t.length

/-- The text of a tag, and the position of its terminator. -/
def tagText (t : Text) (start : Int) (terminator : Text) : Text × Nat :=
  let stop := tagEnd t start terminator
  (Text.slice t (Text.anchor t.length start) (Text.anchor t.length (start + stop)), stop)

/-! ## 4. Where a tag was found -/

/-- A tag that is found behind a mark is spelled there, in lower or in upper case. -/
theorem tagBehind?_stands {mark : Char} {name t : Text} {start p : Nat}
    (h : tagBehind? mark name t start = some p) :
    start ≤ p ∧ ((mark :: name) <+: t.drop p ∨ (mark :: name.upper) <+: t.drop p) := by
  unfold tagBehind? at h
  cases hl : Text.find? (mark :: name) t start with
  | none =>
    rw [hl, Option.none_or] at h
    obtain ⟨h1, _, h3⟩ := Text.find?_some h
    exact ⟨h1, .inr h3⟩
  | some q =>
    rw [hl, Option.some_or] at h
    cases h
    obtain ⟨h1, _, h3⟩ := Text.find?_some hl
    exact ⟨h1, .inl h3⟩

/-- The position of a tag behind a mark holds the mark. -/
theorem tagBehind?_some {mark : Char} {name t : Text} {start p : Nat}
    (h : tagBehind? mark name t start = some p) : start ≤ p ∧ t[p]? = some mark := by
  obtain ⟨h1, h2⟩ := tagBehind?_stands h
  have stands : ∀ body : Text, (mark :: body) <+: t.drop p → t[p]? = some mark := by
    rintro body ⟨rest, hrest⟩
    have : (t.drop p)[0]? = some mark := by
      rw [← hrest]
      rfl
    simpa using this
  exact ⟨h1, h2.elim (stands _) (stands _)⟩

/-- The position of a tag is that of a tag behind `<` or behind `:`. -/
theorem tagPosition?_behind {t name : Text} {start : Int} {p : Nat}
    (h : tagPosition? t start name = some p) :
    tagBehind? '<' name t start.toNat = some p ∨ tagBehind? ':' name t start.toNat = some p := by
  unfold tagPosition? at h
  cases h1 : tagBehind? '<' name t start.toNat with
  | none =>
    rw [h1] at h
    exact .inr h
  | some a =>
    cases h2 : tagBehind? ':' name t start.toNat with
    | none =>
      rw [h1, h2] at h
      exact .inl h
    | some b =>
      rw [h1, h2] at h
      cases h
      rcases Nat.le_total a b with hab | hab
      · exact .inl (by rw [Nat.min_eq_left hab])
      · exact .inr (by rw [Nat.min_eq_right hab])

/-- **A tag starts with a mark.**  The position of a tag is at or after the start and holds `<`
or `:`. -/
theorem tagPosition?_some {t name : Text} {start : Int} {p : Nat}
    (h : tagPosition? t start name = some p) :
    start ≤ p ∧ (t[p]? = some '<' ∨ t[p]? = some ':') := by
  have hs : start.toNat ≤ p → start ≤ p := fun ha => by omega
  rcases tagPosition?_behind h with h | h
  · exact ⟨hs (tagBehind?_some h).1, .inl (tagBehind?_some h).2⟩
  · exact ⟨hs (tagBehind?_some h).1, .inr (tagBehind?_some h).2⟩

/-- The nearest tag is one of the tags it was chosen from. -/
theorem nextTag?_some {α : Type} {name : α → Text} {kinds : List α} {t : Text} {start : Int}
    {p : Nat} {kind : α} (h : nextTag? name kinds t start = some (p, kind)) :
    kind ∈ kinds ∧ tagPosition? t start (name kind) = some p := by
  unfold nextTag? at h
  suffices key : ∀ (found : Option (Nat × α)),
      kinds.foldl (fun found kind =>
        nearest found ((tagPosition? t start (name kind)).map fun p => (p, kind))) found =
          some (p, kind) →
      found = some (p, kind) ∨ (kind ∈ kinds ∧ tagPosition? t start (name kind) = some p) by
    rcases key none h with h' | h'
    · cases h'
    · exact h'
  clear h
  induction kinds with
  | nil => exact fun found hf => Or.inl hf
  | cons k ks ih =>
    intro found hf
    rw [List.foldl_cons] at hf
    rcases ih _ hf with h' | ⟨h1, h2⟩
    · cases hk : tagPosition? t start (name k) with
      | none =>
        rw [hk, Option.map_none] at h'
        cases found with
        | none => cases h'
        | some f => exact Or.inl h'
      | some q =>
        rw [hk, Option.map_some] at h'
        cases found with
        | none =>
          cases h'
          exact Or.inr ⟨List.mem_cons_self, hk⟩
        | some f =>
          obtain ⟨p', a⟩ := f
          simp only [nearest] at h'
          split at h'
          · cases h'
            exact Or.inr ⟨List.mem_cons_self, hk⟩
          · exact Or.inl h'
    · exact Or.inr ⟨List.mem_cons_of_mem _ h1, h2⟩

/-- The nearest tag stands inside the text, at or after the start, and holds a mark. -/
theorem nextTag?_mark {α : Type} {name : α → Text} {kinds : List α} {t : Text} {start : Int}
    {p : Nat} {kind : α} (h : nextTag? name kinds t start = some (p, kind)) :
    start ≤ p ∧ p < t.length ∧ (t[p]? = some '<' ∨ t[p]? = some ':') := by
  have hp := tagPosition?_some (nextTag?_some h).2
  refine ⟨hp.1, ?_, hp.2⟩
  rcases hp.2 with h' | h' <;> exact (List.getElem?_eq_some_iff.mp h').1

end VectorPaint.Markup
