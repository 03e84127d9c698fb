/-
# A position written into a tag

A reference's position is written behind the name of the tag that replaces it.  An attribute is
looked up by searching for its name with an equals sign, anywhere in the tag, and by taking what
stands between the next two quotes.  So it has to be shown that the two new attributes are found
before any that the tag has already, and that no other attribute's value changes.

A key, which is a name and an equals sign, holds no blank, no slash, no `>` and no quote.  So no
occurrence of a key lies across one of these, and a lookup may skip whatever stands before one, if
the key does not occur in it (`valueFrom?_append_cons`).  Between such code points the new text
has four pieces: `x=`, `y=` and two numbers, of which the numbers hold no equals sign.  A key
occurs in `x=` or in `y=` only if it is the whole piece.
-/
import VectorPaint.Proofs.Expansion

namespace VectorPaint.Markup

open Text (cut?)

/-! ## 1. Lookups that skip a piece -/

/-- What names an attribute: something without blanks, slashes, `>`, equals signs and quotes. -/
structure IsAttributeName (name : Text) : Prop where
  ne_nil : name ≠ []
  chars : ∀ c ∈ name, isNameChar c = true
  no_equals : '=' ∉ name
  no_quote : '"' ∉ name

/-- What a name is searched by. -/
def keyOf (name : Text) : Text := name ++ ['=']

theorem attributeText_eq (tag name : Text) :
    attributeText tag name = ((valueFrom? (keyOf name) tag).map Text.trim).getD [] := by
  unfold attributeText keyOf
  cases valueFrom? (name ++ ['=']) tag <;> rfl

theorem valueFrom?_of_not_infix {key t : Text} (h : ¬ key <:+: t) : valueFrom? key t = none := by
  unfold valueFrom?
  rw [Text.cut?_eq_none_iff.mpr h]
  rfl

/-- **A lookup skips a piece without the key**, up to a code point that the key does not hold. -/
theorem valueFrom?_append_cons {c : Char} {key s : Text} (h : ¬ key <:+: s) (hc : c ∉ key)
    (t : Text) : valueFrom? key (s ++ c :: t) = valueFrom? key t := by
  unfold valueFrom?
  rw [Text.cut?_append_cons_of_none (Text.cut?_eq_none_iff.mpr h) hc]
  cases cut? key t <;> rfl

/-- A lookup that finds its key at once. -/
theorem valueFrom?_key_append {key : Text} (hkey : key ≠ []) (t : Text) :
    valueFrom? key (key ++ t) = betweenQuotes? (key ++ t) := by
  have hcut : cut? key (key ++ t) = some ([], key ++ t) := by
    cases key with
    | nil => exact absurd rfl hkey
    | cons c key =>
      have hp : (c :: key).isPrefixOf (c :: (key ++ t)) = true :=
        List.isPrefixOf_iff_prefix.mpr (List.prefix_append (c :: key) t)
      simp only [cut?, List.cons_append, Text.locate, hp, if_true, Option.map_some,
        List.take_zero, List.drop_zero]
  unfold valueFrom?
  rw [hcut]
  rfl

theorem betweenQuotes?_append {front value : Text} (hfront : '"' ∉ front) (hvalue : '"' ∉ value)
    (t : Text) : betweenQuotes? (front ++ '"' :: (value ++ '"' :: t)) = some value := by
  have hdrop : (front ++ '"' :: (value ++ '"' :: t)).dropWhile (· != '"') =
      '"' :: (value ++ '"' :: t) := by
    rw [List.dropWhile_append_of_pos (Text.bne_of_not_mem hfront)]
    exact List.dropWhile_cons_of_neg (by simp)
  have htake : (value ++ '"' :: t).takeWhile (· != '"') = value := by
    rw [List.takeWhile_append_of_pos (Text.bne_of_not_mem hvalue),
      List.takeWhile_cons_of_neg (by simp), List.append_nil]
  unfold betweenQuotes?
  rw [hdrop]
  dsimp only
  rw [htake, if_pos (by simp)]

/-! ## 2. Where keys occur -/

section Keys

variable {name : Text}

theorem IsAttributeName.not_mem_key (h : IsAttributeName name) {c : Char}
    (hc : isNameChar c = false ∨ c = '"') : c ∉ keyOf name := by
  unfold keyOf
  rw [List.mem_append, List.mem_singleton]
  rintro (hmem | rfl)
  · rcases hc with hc | rfl
    · rw [h.chars c hmem] at hc
      cases hc
    · exact h.no_quote hmem
  · exact absurd hc (by decide)

/-- Without an equals sign there is no key. -/
theorem not_infix_of_no_equals {s : Text} (hs : '=' ∉ s) : ¬ keyOf name <:+: s := by
  intro hoccurs
  exact hs (hoccurs.subset (List.mem_append_right _ List.mem_cons_self))

/-- The key of a name of one code point has no other key in it. -/
theorem IsAttributeName.eq_of_infix (h : IsAttributeName name) {c : Char}
    (hoccurs : keyOf name <:+: keyOf [c]) : name = [c] := by
  have hlength := hoccurs.length_le
  have hpos := List.length_pos_iff.mpr h.ne_nil
  simp only [keyOf, List.length_append, List.length_singleton] at hlength
  have heq : keyOf name = keyOf [c] := by
    refine hoccurs.eq_of_length ?_
    simp only [keyOf, List.length_append, List.length_singleton]
    omega
  exact List.append_cancel_right heq

/-- Behind the name of a tag a lookup goes on as if the text started there. -/
theorem IsAttributeName.valueFrom?_behind (h : IsAttributeName name) {head t : Text}
    (hhead : '=' ∉ head) (ht : ∀ c ∈ t.head?, isNameChar c = false) :
    valueFrom? (keyOf name) (head ++ t) = valueFrom? (keyOf name) t := by
  cases t with
  | nil =>
    rw [List.append_nil, valueFrom?_of_not_infix (not_infix_of_no_equals hhead),
      valueFrom?_of_not_infix (not_infix_of_no_equals List.not_mem_nil)]
  | cons c t =>
    have hc : c ∉ keyOf name := h.not_mem_key (.inl (ht c rfl))
    rw [valueFrom?_append_cons (not_infix_of_no_equals hhead) hc,
      ← List.nil_append (c :: t),
      valueFrom?_append_cons (not_infix_of_no_equals List.not_mem_nil) hc]

/-- An attribute with a name of one code point answers to its own name and lets every other
lookup pass. -/
theorem IsAttributeName.valueFrom?_attribute (h : IsAttributeName name) (c : Char)
    {value : Text} (hquote : '"' ∉ value) (hequals : '=' ∉ value) (t : Text) :
    valueFrom? (keyOf name) (' ' :: (keyOf [c] ++ '"' :: (value ++ '"' :: t))) =
      if name = [c] then some value else valueFrom? (keyOf name) t := by
  have hblank : ' ' ∉ keyOf name := h.not_mem_key (.inl (by decide))
  have hmark : '"' ∉ keyOf name := h.not_mem_key (.inr rfl)
  rw [← List.nil_append (' ' :: _),
    valueFrom?_append_cons (not_infix_of_no_equals List.not_mem_nil) hblank]
  split
  · rename_i hname
    subst hname
    have hfront : '"' ∉ keyOf [c] := h.not_mem_key (.inr rfl)
    rw [valueFrom?_key_append (by simp [keyOf]), betweenQuotes?_append hfront hquote]
  · rename_i hname
    rw [valueFrom?_append_cons (fun hoccurs => hname (h.eq_of_infix hoccurs)) hmark,
      valueFrom?_append_cons (not_infix_of_no_equals hequals) hmark]

end Keys

/-! ## 3. Lookups in a tag with a position -/

theorem isBlank_of_isNumeral {c : Char} (h : isNumeral c = true) : Text.isBlank c = false := by
  have hrange : 43 ≤ c.toNat ∧ c.toNat ≤ 121 := by
    rcases Bool.or_eq_true_iff.mp h with hdigit | hmem
    · have hcode := Char.isDigit_iff_toNat.mp hdigit
      change 48 ≤ c.toNat ∧ c.toNat ≤ 57 at hcode
      omega
    · simp only [List.contains_iff_mem, List.mem_cons, List.not_mem_nil, or_false] at hmem
      rcases hmem with rfl | rfl | rfl | rfl | rfl | rfl | rfl | rfl | rfl | rfl | rfl | rfl <;>
        decide
  unfold Text.isBlank
  simp only [Bool.or_eq_false_iff, Bool.and_eq_false_iff, decide_eq_false_iff_not,
    beq_eq_false_iff_ne]
  omega

theorem trim_spliced (x : Float) : (Number.spliced x).trim = Number.spliced x := by
  have hkeep : ∀ t : Text, (∀ c ∈ t, isNumeral c = true) → t.dropWhile Text.isBlank = t := by
    intro t ht
    cases t with
    | nil => rfl
    | cons c t =>
      refine List.dropWhile_cons_of_neg ?_
      rw [isBlank_of_isNumeral (ht c List.mem_cons_self)]
      decide
  unfold Text.trim Text.trimEnd Text.trimStart
  rw [hkeep _ (spliced_numeral x), hkeep _ fun c hc => spliced_numeral x c (List.mem_reverse.mp hc),
    List.reverse_reverse]

theorem positionText_eq (x y : Text) (t : Text) :
    positionText x y ++ t = ' ' :: (keyOf ['x'] ++ '"' :: (x ++ '"' ::
      (' ' :: (keyOf ['y'] ++ '"' :: (y ++ '"' :: t))))) := by
  simp [positionText, keyOf]

/-- The two parts that a position is written between. -/
theorem injectPosition_tag (rest x y : Text) :
    injectPosition ('<' :: rest) x y =
      ('<' :: rest.takeWhile isNameChar) ++ (positionText x y ++ rest.dropWhile isNameChar) := by
  have hparts := List.takeWhile_append_dropWhile (p := isNameChar) (l := rest)
  have hlength : nameLength ('<' :: rest) = (rest.takeWhile isNameChar).length + 1 := rfl
  unfold injectPosition
  rw [hlength]
  generalize rest.takeWhile isNameChar = name at hparts ⊢
  generalize rest.dropWhile isNameChar = tail at hparts ⊢
  subst hparts
  rw [List.take_succ_cons, List.drop_succ_cons, List.take_left, List.drop_left, List.append_assoc]

/-- **A position written into a tag is read from there, and every other attribute has the value
that it had.**  This holds of every tag, complete or not, that has no equals sign in its name,
also of one that has a position already or whose quotes do not pair. -/
theorem attributeText_injectPosition (rest : Text) (hrest : '=' ∉ rest.takeWhile isNameChar)
    (x y : Float) {name : Text} (hname : IsAttributeName name) :
    attributeText (injectPosition ('<' :: rest) (Number.spliced x) (Number.spliced y)) name =
      if name = ['x'] then Number.spliced x
      else if name = ['y'] then Number.spliced y
      else attributeText ('<' :: rest) name := by
  have hhead : '=' ∉ '<' :: rest.takeWhile isNameChar := by
    rw [List.mem_cons, not_or]
    exact ⟨by decide, hrest⟩
  have hblank : isNameChar ' ' = false := by decide
  have hbehind : ∀ c ∈ (rest.dropWhile isNameChar).head?, isNameChar c = false := by
    intro c hc
    have := List.head?_dropWhile_not isNameChar rest
    rw [Option.mem_def.mp hc] at this
    simpa using this
  have htag : valueFrom? (keyOf name) ('<' :: rest) =
      valueFrom? (keyOf name) (rest.dropWhile isNameChar) := by
    rw [← hname.valueFrom?_behind hhead hbehind, List.cons_append,
      List.takeWhile_append_dropWhile]
  have hquote := fun z => not_mem_spliced (c := '"') (by decide) z
  have hequals := fun z => not_mem_spliced (c := '=') (by decide) z
  have hposition : valueFrom? (keyOf name) (injectPosition ('<' :: rest) (Number.spliced x)
      (Number.spliced y)) = if name = ['x'] then some (Number.spliced x)
        else if name = ['y'] then some (Number.spliced y)
        else valueFrom? (keyOf name) ('<' :: rest) := by
    rw [injectPosition_tag, hname.valueFrom?_behind hhead (by simp [positionText, hblank]),
      positionText_eq, hname.valueFrom?_attribute 'x' (hquote x) (hequals x),
      hname.valueFrom?_attribute 'y' (hquote y) (hequals y), htag]
  rw [attributeText_eq, attributeText_eq, hposition]
  split
  · exact trim_spliced x
  · split
    · exact trim_spliced y
    · rfl

/-- A tag that has attributes called `x` and `y`, and one whose name ends in `x`. -/
def placedTag : Text := "<rect id=\"a\" rx=\"2\" x=\"7\" y=\"9\" fill='#fff'/>".toList

theorem attributeText_injectPosition_placedTag :
    IsAttributeName ['r', 'x'] ∧
      attributeText (injectPosition placedTag (Number.spliced 0.5) (Number.spliced (-3.0)))
        ['r', 'x'] = ['2'] := by
  have hname : IsAttributeName ['r', 'x'] :=
    ⟨by decide, List.all_eq_true.mp (by decide), by decide, by decide⟩
  refine ⟨hname, ?_⟩
  have h := attributeText_injectPosition placedTag.tail (by decide) 0.5 (-3.0) hname
  exact h.trans (by decide)

end VectorPaint.Markup
