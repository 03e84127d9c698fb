/-
# Attributes as they are written

A tag is written as the name of an element and its attributes: each of these is a space, a name, an
equals sign and a value in double quotes.  Looking an attribute up knows nothing of this.  It
searches the text for a key, which is the name asked for and an equals sign.

All the same it finds attributes.  A key has no blank, no quote and no slash, so where it occurs in
the text it lies in the name of an element, in the name of an attribute with its equals sign, or in
a value.  It cannot lie in the name of an element, which has no equals sign, and it lies in the name
of an attribute exactly if that name ends with the one asked for
(`Attribute.valueFrom?_answers`).  Where neither the name nor the value of an attribute has the
key, the lookup goes on behind the attribute (`Attribute.valueFrom?_passes`).

So the first attribute whose name ends with the one asked for is the answer, if no value in front
of it has the key (`attributeText_written`).
-/
import VectorPaint.Proofs.Positions

namespace VectorPaint.Markup

/-! ## 1. The first value behind a key -/

/-- **A key in front of the first quote has the value behind it.** -/
theorem valueFrom?_of_infix {key front value : Text} (hkey : key <:+: front) (hfront : '"' ∉ front)
    (hvalue : '"' ∉ value) (t : Text) :
    valueFrom? key (front ++ '"' :: (value ++ '"' :: t)) = some value := by
  cases hcut : Text.cut? key front with
  | none => exact absurd hkey (Text.cut?_eq_none_iff.mp hcut)
  | some sides =>
    obtain ⟨before, rest⟩ := sides
    have hrest : '"' ∉ rest := by
      rw [← Text.append_of_cut? hcut] at hfront
      exact fun hmem => hfront (List.mem_append_right _ hmem)
    unfold valueFrom?
    rw [Text.cut?_append_of_some hcut, Option.bind_some]
    exact betweenQuotes?_append hrest hvalue t

/-- A key occurs in another key only as its end. -/
theorem suffix_of_infix_keyOf {name other : Text} (hother : '=' ∉ other)
    (h : keyOf name <:+: keyOf other) : name <:+ other := by
  rw [keyOf, keyOf, List.infix_concat_iff] at h
  rcases h with ⟨before, h⟩ | h
  · rw [← List.append_assoc] at h
    exact ⟨before, List.append_cancel_right h⟩
  · exact absurd (h.subset (List.mem_append_right _ List.mem_cons_self)) hother

/-- The key of a name is the end of the key of every name that ends with it. -/
theorem infix_keyOf_of_suffix {name other : Text} (h : name <:+ other) :
    keyOf name <:+: keyOf other := by
  obtain ⟨before, rfl⟩ := h
  exact ⟨before, [], by simp [keyOf]⟩

section Lookups

variable {name other value : Text}

/-- **A written attribute answers to every name that its own name ends with.** -/
theorem valueFrom?_of_suffix (h : name <:+ other) (hother : '"' ∉ other) (hvalue : '"' ∉ value)
    (t : Text) : valueFrom? (keyOf name) (keyOf other ++ '"' :: (value ++ '"' :: t)) =
      some value := by
  refine valueFrom?_of_infix (infix_keyOf_of_suffix h) ?_ hvalue t
  rw [keyOf, List.mem_append, List.mem_singleton, not_or]
  exact ⟨hother, by decide⟩

/-- **It is passed by all other lookups,** if the key is not in its value. -/
theorem IsAttributeName.valueFrom?_of_not_suffix (hname : IsAttributeName name)
    (h : ¬ name <:+ other) (hother : '=' ∉ other) (hvalue : ¬ keyOf name <:+: value) (t : Text) :
    valueFrom? (keyOf name) (keyOf other ++ '"' :: (value ++ '"' :: t)) =
      valueFrom? (keyOf name) t := by
  have hmark : '"' ∉ keyOf name := hname.not_mem_key (.inr rfl)
  have hoccurs : ¬ keyOf name <:+: keyOf other :=
    fun hoccurs => h (suffix_of_infix_keyOf hother hoccurs)
  rw [valueFrom?_append_cons hoccurs hmark, valueFrom?_append_cons hvalue hmark]

/-- Blanks in front of attributes are skipped. -/
theorem IsAttributeName.valueFrom?_blanks (h : IsAttributeName name) (n : Nat) (t : Text) :
    valueFrom? (keyOf name) (List.replicate n ' ' ++ t) = valueFrom? (keyOf name) t := by
  have hblank : ' ' ∉ keyOf name := h.not_mem_key (.inl (by decide))
  induction n with
  | zero => rfl
  | succ n ih =>
    rw [List.replicate_succ, List.cons_append, ← List.nil_append (' ' :: _),
      valueFrom?_append_cons (not_infix_of_no_equals List.not_mem_nil) hblank, ih]

end Lookups

/-! ## 2. Tags -/

/-- An attribute with a value that can stand in double quotes. -/
structure Attribute where
  name : Text
  value : Text
  isName : IsAttributeName name
  no_quote : '"' ∉ value

/-- An element with attributes. -/
structure WrittenTag where
  element : Text
  attributes : List Attribute
  isName : IsAttributeName element

/-- The text of an attribute. -/
def Attribute.text (a : Attribute) : Text :=
  ' ' :: (keyOf a.name ++ '"' :: (a.value ++ ['"']))

/-- The text of a tag. -/
def WrittenTag.text (tag : WrittenTag) : Text :=
  '<' :: tag.element ++ tag.attributes.flatMap Attribute.text ++ ['/', '>']

/-- The key of a name occurs neither in the name of an attribute nor in its value. -/
structure Attribute.IsPassedBy (a : Attribute) (name : Text) : Prop where
  no_answer : ¬ name <:+ a.name
  value_free : ¬ keyOf name <:+: a.value

namespace Attribute

variable {name : Text}

theorem text_append (a : Attribute) (t : Text) :
    a.text ++ t = List.replicate 1 ' ' ++ (keyOf a.name ++ '"' :: (a.value ++ '"' :: t)) := by
  simp [text]

theorem valueFrom?_answers (hname : IsAttributeName name) {a : Attribute} (h : name <:+ a.name)
    (t : Text) : valueFrom? (keyOf name) (a.text ++ t) = some a.value := by
  rw [a.text_append, hname.valueFrom?_blanks]
  exact valueFrom?_of_suffix h a.isName.no_quote a.no_quote t

theorem valueFrom?_passes (hname : IsAttributeName name) {a : Attribute} (h : a.IsPassedBy name)
    (t : Text) : valueFrom? (keyOf name) (a.text ++ t) = valueFrom? (keyOf name) t := by
  rw [a.text_append, hname.valueFrom?_blanks]
  exact hname.valueFrom?_of_not_suffix h.no_answer a.isName.no_equals h.value_free t

/-- A lookup goes past any number of attributes. -/
theorem valueFrom?_passes_all (hname : IsAttributeName name) {attributes : List Attribute}
    (h : ∀ a ∈ attributes, a.IsPassedBy name) (t : Text) :
    valueFrom? (keyOf name) (attributes.flatMap text ++ t) = valueFrom? (keyOf name) t := by
  induction attributes with
  | nil => rfl
  | cons a rest ih =>
    rw [List.flatMap_cons, List.append_assoc, valueFrom?_passes hname (h a List.mem_cons_self),
      ih fun b hb => h b (List.mem_cons_of_mem _ hb)]

end Attribute

/-! ## 3. Lookups in a tag -/

/-- Behind the element's name a lookup finds what it finds in the attributes alone. -/
theorem WrittenTag.valueFrom?_text {name : Text} (hname : IsAttributeName name)
    (tag : WrittenTag) : valueFrom? (keyOf name) tag.text =
      valueFrom? (keyOf name) (tag.attributes.flatMap Attribute.text ++ ['/', '>']) := by
  have hequals : '=' ∉ '<' :: tag.element := by
    rw [List.mem_cons, not_or]
    exact ⟨by decide, tag.isName.no_equals⟩
  rw [text, List.append_assoc, hname.valueFrom?_behind hequals]
  intro c hc
  -- What follows the element's name is the space of an attribute or the slash of the end.
  cases htail : tag.attributes with
  | nil =>
    rw [htail] at hc
    cases hc
    decide
  | cons a rest =>
    rw [htail, List.flatMap_cons, Attribute.text] at hc
    cases hc
    decide

/-- **Looking an attribute up undoes writing it.**  The attribute that answers to a name is the
first whose own name ends with it, and the answer is its value without blanks at the ends, if no
value in front of it has the name with an equals sign in it.  Where no attribute answers and no
value has the name with an equals sign, the answer is empty. -/
theorem attributeText_written (tag : WrittenTag) {name : Text} (hname : IsAttributeName name) :
    (∀ before a after, tag.attributes = before ++ a :: after →
      (∀ b ∈ before, b.IsPassedBy name) → name <:+ a.name →
        attributeText tag.text name = a.value.trim) ∧
    ((∀ a ∈ tag.attributes, a.IsPassedBy name) → attributeText tag.text name = []) := by
  refine ⟨fun before a after hsplit hbefore hanswer => ?_, fun hall => ?_⟩
  · rw [attributeText_eq, tag.valueFrom?_text hname, hsplit, List.flatMap_append,
      List.append_assoc, Attribute.valueFrom?_passes_all hname hbefore, List.flatMap_cons,
      List.append_assoc, Attribute.valueFrom?_answers hname hanswer]
    rfl
  · have hend : valueFrom? (keyOf name) ['/', '>'] = none :=
      valueFrom?_of_not_infix (not_infix_of_no_equals (by decide))
    rw [attributeText_eq, tag.valueFrom?_text hname, Attribute.valueFrom?_passes_all hname hall,
      hend]
    rfl

/-- What a name needs, as a question that can be decided. -/
theorem isAttributeName_of_all {name : Text}
    (h : (name ≠ [] ∧ name.all isNameChar = true) ∧ '=' ∉ name ∧ '"' ∉ name) :
    IsAttributeName name :=
  ⟨h.1.1, List.all_eq_true.mp h.1.2, h.2.1, h.2.2⟩

/-- A reference whose `href` has a prefix, and which names its x coordinate twice, the second time
behind a value that looks like an attribute. -/
def crowdedTag : WrittenTag where
  element := "use".toList
  attributes :=
    [⟨"xlink:href".toList, " #a ".toList, isAttributeName_of_all (by decide), by decide⟩,
      ⟨"rx".toList, "\t3 y=4".toList, isAttributeName_of_all (by decide), by decide⟩,
      ⟨"x".toList, "7".toList, isAttributeName_of_all (by decide), by decide⟩]
  isName := isAttributeName_of_all (by decide)

theorem attributeText_written_crowdedTag :
    IsAttributeName ['x'] ∧ attributeText crowdedTag.text ['x'] = "3 y=4".toList ∧
      IsAttributeName ['i', 'd'] ∧ attributeText crowdedTag.text ['i', 'd'] = [] := by
  have hx : IsAttributeName ['x'] := isAttributeName_of_all (by decide)
  have hid : IsAttributeName ['i', 'd'] := isAttributeName_of_all (by decide)
  refine ⟨hx, ?_, hid, (attributeText_written crowdedTag hid).2 ?_⟩
  · obtain ⟨hanswer, -⟩ := attributeText_written crowdedTag hx
    refine (hanswer [_] _ [_] rfl ?_ (by decide)).trans (by decide)
    rintro b (_ | ⟨_, ⟨⟩⟩)
    exact ⟨by decide, by decide⟩
  · rintro a (_ | ⟨_, _ | ⟨_, _ | ⟨_, ⟨⟩⟩⟩⟩) <;> exact ⟨by decide, by decide⟩

end VectorPaint.Markup
