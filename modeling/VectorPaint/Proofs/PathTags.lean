/-
# The data of a path's tag

An attribute is found by its name and an equals sign, wherever they stand, so an attribute answers
to every name that its own name ends with (`WrittenAttribute.valueFrom?_append`).  Of the
attributes that a path can have, the id ends with a `d` as the data does.  So the data that a path
draws are the value of the one of the two that is written first: its own data, or its id
(`path_draws_first`).

It does not matter whether the tag is painted where it stands or where a reference puts it.  The
position that a reference writes into the tag answers to other names, and a tag with an id is a
definition under that id, since no other name ends like it.  Nor does it matter that the text of a
tag runs past the tag: the data stand before its end.
-/
import VectorPaint.Proofs.Attributes
import VectorPaint.Scene.Element

namespace VectorPaint

namespace Markup

/-! ## 1. Tags of paths -/

/-- An attribute that a path can have. -/
inductive PathAttribute where
  | id | data | stroke | fill | strokeWidth
  deriving DecidableEq, Repr

/-- The name of an attribute. -/
def PathAttribute.name : PathAttribute → Text
  | .id => ['i', 'd']
  | .data => ['d']
  | .stroke => ['s', 't', 'r', 'o', 'k', 'e']
  | .fill => ['f', 'i', 'l', 'l']
  | .strokeWidth => ['s', 't', 'r', 'o', 'k', 'e', '-', 'w', 'i', 'd', 't', 'h']

/-- An attribute as it is written, with a space in front of it or several. -/
structure WrittenAttribute where
  moreSpaces : Nat
  kind : PathAttribute
  value : Text
  plain : ∀ mark ∈ ['"', '=', '<', '>'], mark ∉ value

/-- The text of an attribute. -/
def WrittenAttribute.text (a : WrittenAttribute) : Text :=
  List.replicate (a.moreSpaces + 1) ' ' ++ (keyOf a.kind.name ++ '"' :: (a.value ++ ['"']))

/-- The tag of a path: attributes with different names, the data among them, and what stands
between the last of them and the end. -/
structure PathTag where
  attributes : List WrittenAttribute
  ending : Text
  nodup : (attributes.map (·.kind)).Nodup
  has_data : .data ∈ attributes.map (·.kind)
  ending_plain : ∀ c ∈ ending, c = ' ' ∨ c = '/'

namespace PathTag

/-- What a path's tag starts with. -/
def head : Text := ['<', 'p', 'a', 't', 'h']

/-- The text of a tag behind its name and before its end. -/
def body (tag : PathTag) : Text := tag.attributes.flatMap WrittenAttribute.text ++ tag.ending

/-- The text of a tag. -/
def text (tag : PathTag) : Text := head ++ tag.body ++ ['>']

/-- The value of an attribute without blanks at its ends, empty where the attribute is missing. -/
def value (tag : PathTag) (kind : PathAttribute) : Text :=
  ((tag.attributes.find? (·.kind = kind)).map (·.value.trim)).getD []

/-- The id is written in front of the data. -/
def IdComesFirst (tag : PathTag) : Prop :=
  (tag.attributes.map (·.kind)).idxOf .id < (tag.attributes.map (·.kind)).idxOf .data

instance (tag : PathTag) : Decidable tag.IdComesFirst := inferInstanceAs (Decidable (_ < _))

end PathTag

/-! ## 2. Lookups among attributes -/

theorem PathAttribute.name_plain (kind : PathAttribute) : '=' ∉ kind.name ∧ '"' ∉ kind.name := by
  cases kind <;> decide

section Lookups

variable {name : Text}

/-- **An attribute answers to every name that its own name ends with.** -/
theorem WrittenAttribute.valueFrom?_append (hname : IsAttributeName name) (a : WrittenAttribute)
    (t : Text) : valueFrom? (keyOf name) (a.text ++ t) =
      if a.kind.name.endsWith name then some a.value else valueFrom? (keyOf name) t := by
  obtain ⟨hequals, hquote⟩ := a.kind.name_plain
  have htext : a.text ++ t = List.replicate (a.moreSpaces + 1) ' ' ++
      (keyOf a.kind.name ++ '"' :: (a.value ++ '"' :: t)) := by
    simp [text]
  rw [htext, hname.valueFrom?_blanks]
  split
  · rename_i hends
    exact valueFrom?_of_suffix (List.isSuffixOf_iff_suffix.mp hends) hquote
      (a.plain _ (by decide)) t
  · rename_i hends
    exact hname.valueFrom?_of_not_suffix (fun h => hends (List.isSuffixOf_iff_suffix.mpr h)) hequals
      (not_infix_of_no_equals (a.plain _ (by decide))) t

/-- **The first attribute that answers to a name has the value.** -/
theorem valueFrom?_attributes (hname : IsAttributeName name) (attributes : List WrittenAttribute)
    (t : Text) : valueFrom? (keyOf name) (attributes.flatMap WrittenAttribute.text ++ t) =
      ((attributes.find? (·.kind.name.endsWith name)).map (·.value)).or
        (valueFrom? (keyOf name) t) := by
  induction attributes with
  | nil => rfl
  | cons a rest ih =>
    rw [List.flatMap_cons, List.append_assoc, a.valueFrom?_append hname, ih, List.find?_cons]
    cases a.kind.name.endsWith name <;> rfl

end Lookups

/-- The names that end with a `d` are those of the data and of the id. -/
theorem PathAttribute.endsWith_data (kind : PathAttribute) :
    kind.name.endsWith ['d'] = (decide (kind = .id) || decide (kind = .data)) := by
  cases kind <;> decide

theorem PathAttribute.endsWith_id (kind : PathAttribute) :
    kind.name.endsWith ['i', 'd'] = decide (kind = .id) := by
  cases kind <;> decide

theorem isAttributeName_data : IsAttributeName ['d'] :=
  ⟨by decide, List.all_eq_true.mp (by decide), by decide, by decide⟩

theorem isAttributeName_id : IsAttributeName ['i', 'd'] :=
  ⟨by decide, List.all_eq_true.mp (by decide), by decide, by decide⟩

namespace PathTag

/-- The first of the two attributes that answer to the name of the data. -/
theorem find?_data {attributes : List WrittenAttribute}
    (h : .data ∈ attributes.map (·.kind)) :
    attributes.find? (·.kind.name.endsWith ['d']) =
      if (attributes.map (·.kind)).idxOf .id < (attributes.map (·.kind)).idxOf .data then
        attributes.find? (·.kind = .id)
      else attributes.find? (·.kind = .data) := by
  simp only [PathAttribute.endsWith_data]
  induction attributes with
  | nil => cases h
  | cons a rest ih =>
    simp only [List.map_cons, List.find?_cons, List.idxOf_cons, cond_eq_ite, beq_iff_eq] at h ⊢
    cases hkind : a.kind with
    | id => simp
    | data => simp
    | stroke | fill | strokeWidth =>
      simp only [hkind, List.mem_cons, reduceCtorEq, false_or] at h
      simp [ih h]

variable (tag : PathTag)

/-- The data that are found in a tag: its own, or the id where the id comes first. -/
def drawn : Text := if tag.IdComesFirst then tag.value .id else tag.value .data

/-- **What a lookup of the data finds among the attributes.** -/
theorem valueFrom?_data (t : Text) :
    (valueFrom? (keyOf ['d']) (tag.attributes.flatMap WrittenAttribute.text ++ t)).map Text.trim =
      some tag.drawn := by
  have hfound : (tag.attributes.find? (·.kind.name.endsWith ['d'])).isSome = true := by
    obtain ⟨a, ha, hkind⟩ := List.mem_map.mp tag.has_data
    exact List.find?_isSome.mpr ⟨a, ha, by rw [hkind]; decide⟩
  obtain ⟨a, ha⟩ := Option.isSome_iff_exists.mp hfound
  rw [valueFrom?_attributes isAttributeName_data, ha, Option.map_some, Option.some_or,
    Option.map_some]
  rw [find?_data tag.has_data] at ha
  by_cases hfirst : tag.IdComesFirst
  · have hlt : _ < _ := hfirst
    rw [if_pos hlt] at ha
    rw [drawn, if_pos hfirst, value, ha, Option.map_some, Option.getD_some]
  · have hnot : ¬ _ < _ := hfirst
    rw [if_neg hnot] at ha
    rw [drawn, if_neg hfirst, value, ha, Option.map_some, Option.getD_some]

/-- What a lookup of the id finds among the attributes. -/
theorem valueFrom?_id {t : Text} (ht : '=' ∉ t) :
    (valueFrom? (keyOf ['i', 'd']) (tag.attributes.flatMap WrittenAttribute.text ++ t)).map
      Text.trim = (tag.attributes.find? (·.kind = .id)).map (·.value.trim) := by
  rw [valueFrom?_attributes isAttributeName_id, valueFrom?_of_not_infix (not_infix_of_no_equals ht),
    Option.or_none, Option.map_map]
  simp only [PathAttribute.endsWith_id]
  rfl

/-! ## 3. Where the tag stands -/

/-- The attributes begin with a blank. -/
theorem head?_body {c : Char} (t : Text) (hc : c ∈ (tag.body ++ t).head?) :
    isNameChar c = false := by
  obtain ⟨a, ha, -⟩ := List.mem_map.mp tag.has_data
  obtain ⟨first, rest, hattributes⟩ := List.exists_cons_of_ne_nil (List.ne_nil_of_mem ha)
  simp only [body, hattributes, List.flatMap_cons, WrittenAttribute.text, List.replicate_succ,
    List.cons_append, List.head?_cons, Option.mem_def, Option.some.injEq] at hc
  rw [← hc]
  decide

/-- Before the end of a tag there is neither a `<` nor a `>`. -/
theorem not_mem_body {mark : Char} (hmark : mark = '<' ∨ mark = '>') : mark ∉ tag.body := by
  have hattribute : ∀ a : WrittenAttribute, mark ∉ a.text := by
    intro a
    have hvalue : mark ∉ a.value := by
      rcases hmark with rfl | rfl <;> exact a.plain _ (by decide)
    have hname : mark ∉ a.kind.name := by
      rcases hmark with rfl | rfl <;> cases a.kind <;> decide
    simp only [WrittenAttribute.text, keyOf, List.mem_append, List.mem_cons, List.mem_replicate,
      List.not_mem_nil, hvalue, hname, or_false, false_or, not_or, not_and]
    rcases hmark with rfl | rfl <;> simp
  have hending : mark ∉ tag.ending := by
    intro hmem
    rcases hmark with rfl | rfl <;> rcases tag.ending_plain _ hmem with h | h <;> cases h
  simp only [body, List.mem_append, List.mem_flatMap, hending, or_false, not_exists, not_and]
  exact fun a _ => hattribute a

/-- What is between the name of the tag and its attributes, if a lookup of the data passes it. -/
structure LetsPass (position : Text) : Prop where
  no_close : '>' ∉ position
  head : ∀ c ∈ position.head?, isNameChar c = false
  lookup : ∀ t, valueFrom? (keyOf ['d']) (position ++ t) = valueFrom? (keyOf ['d']) t

theorem letsPass_nil : LetsPass [] :=
  ⟨List.not_mem_nil, fun _ hc => (Option.not_mem_none _ hc).elim, fun _ => rfl⟩

/-- A position answers to no lookup of the data. -/
theorem letsPass_position (x y : Float) :
    LetsPass (positionText (Number.spliced x) (Number.spliced y)) := by
  have hquote := fun z => not_mem_spliced (c := '"') (by decide) z
  have hequals := fun z => not_mem_spliced (c := '=') (by decide) z
  have hclose := fun z => not_mem_spliced (c := '>') (by decide) z
  refine ⟨by simp [positionText, hclose], ?_, fun t => ?_⟩
  · rintro c ⟨⟩
    decide
  · rw [positionText_eq, isAttributeName_data.valueFrom?_attribute 'x' (hquote x) (hequals x),
      isAttributeName_data.valueFrom?_attribute 'y' (hquote y) (hequals y)]
    rfl

end PathTag

/-! ## 4. Definitions and references -/

namespace PathTag

variable (tag : PathTag)

theorem text_append (back : Text) : tag.text ++ back = head ++ (tag.body ++ '>' :: back) := by
  simp [text]

/-- The id of a tag is the value of its attribute of this name. -/
theorem attributeText_id : attributeText tag.text ['i', 'd'] = tag.value .id := by
  have hending : '=' ∉ tag.ending ++ ['>'] := by
    simp only [List.mem_append, List.mem_singleton, not_or]
    refine ⟨fun hmem => ?_, by decide⟩
    rcases tag.ending_plain _ hmem with h | h <;> cases h
  rw [attributeText_eq, text, List.append_assoc,
    isAttributeName_id.valueFrom?_behind (by decide) fun _ => tag.head?_body _, body,
    List.append_assoc, tag.valueFrom?_id hending, value]

/-- **A path with an id is a definition under this id.** -/
theorem definitionOf_text (h : tag.value .id ≠ []) :
    definitionOf tag.text = [(tag.value .id, tag.text)] := by
  have hoccurs : Text.occursIn head tag.text = true := by
    refine Option.isSome_iff_ne_none.mpr fun hnone => ?_
    refine Text.locate_eq_none_iff.mp hnone ?_
    rw [text, List.append_assoc]
    exact (List.prefix_append _ _).isInfix
  have hmarks : definableMarks.any (Text.occursIn · tag.text) = true :=
    List.any_eq_true.mpr ⟨head, by decide, hoccurs⟩
  simp only [definitionOf, tag.attributeText_id]
  rw [if_pos hmarks, if_neg (by simpa using h)]

/-- A position goes between the name of a tag and its attributes. -/
theorem injectPosition_text (x y : Text) :
    injectPosition tag.text x y = head ++ positionText x y ++ tag.body ++ ['>'] := by
  have hname : ∀ c ∈ head.tail, isNameChar c = true := List.all_eq_true.mp (by decide)
  have hbehind : (tag.body ++ ['>']).takeWhile isNameChar = [] ∧
      (tag.body ++ ['>']).dropWhile isNameChar = tag.body ++ ['>'] := by
    have hhead := fun c => tag.head?_body (c := c) ['>']
    generalize tag.body ++ ['>'] = t at hhead ⊢
    cases t with
    | nil => exact ⟨rfl, rfl⟩
    | cons c t =>
      have hc : ¬ isNameChar c = true := by
        rw [hhead c rfl]
        exact Bool.false_ne_true
      exact ⟨List.takeWhile_cons_of_neg hc, List.dropWhile_cons_of_neg hc⟩
  have htext : tag.text = '<' :: (head.tail ++ (tag.body ++ ['>'])) := by
    simp [text, head]
  rw [htext, injectPosition_tag, List.takeWhile_append_of_pos hname,
    List.dropWhile_append_of_pos hname, hbehind.1, hbehind.2]
  simp [head]

end PathTag

/-- The first reference of a text is found where it stands. -/
theorem cut?_useMark {between : Text} (h : ¬ useMark <:+: between) (rest : Text) :
    Text.cut? useMark (between ++ (useMark ++ rest)) = some (between, useMark ++ rest) := by
  suffices hlocate : ∀ i, Text.locate useMark i (between ++ (useMark ++ rest)) =
      some (i + between.length) by
    rw [Text.cut?, hlocate 0, Option.map_some, Nat.zero_add, List.take_left, List.drop_left]
  induction between with
  | nil => exact fun i => by simp [Text.locate, useMark]
  | cons c between ih =>
    intro i
    -- Only the first code point of a mark is a `<`, so no mark stands across the start of another.
    have hno : ¬ useMark.isPrefixOf (c :: (between ++ (useMark ++ rest))) = true := by
      rw [List.isPrefixOf_iff_prefix]
      rcases between with _ | ⟨d, _ | ⟨e, _ | ⟨f, between⟩⟩⟩
      · simp [useMark]
      · simp [useMark]
      · simp [useMark]
      · intro hprefix
        refine h (List.IsPrefix.isInfix ?_)
        simpa [useMark] using hprefix
    rw [List.cons_append, Text.locate, if_neg hno,
      ih fun hinside => h (hinside.trans (List.suffix_cons _ _).isInfix), List.length_cons]
    congr 1
    omega

/-- A reference in a text, as the expansion comes to it: the text behind which it goes on, what it
passes on the way, and the text inside and behind the reference. -/
structure Reference where
  before : Text
  between : Text
  inside : Text
  after : Text
  before_ends : before = [] ∨ ['>'] <:+ before
  between_free : ¬ useMark <:+: between
  inside_open : '>' ∉ inside

namespace Reference

/-- The tag of a reference. -/
def tag (r : Reference) : Text := useMark ++ r.inside ++ ['>']

/-- The text that a reference stands in. -/
def source (r : Reference) : Text := r.before ++ (r.between ++ (r.tag ++ r.after))

/-- The id that a reference refers to. -/
def target (r : Reference) : Text := targetId (attributeText r.tag ['h', 'r', 'e', 'f'])

/-- **What a reference leaves where it stands.** -/
theorem expand_source (r : Reference) (defs : Definitions) :
    ∃ before inserted after, (expand defs r.before).outcome = .ok before ∧
      (resolve defs r.tag).outcome = .ok inserted ∧ (expand defs r.after).outcome = .ok after ∧
      (expand defs r.source).outcome = .ok (before ++ r.between ++ (inserted ++ after)) := by
  obtain ⟨before, hbefore⟩ := expand_total defs r.before
  obtain ⟨inserted, hinserted⟩ := resolve_total defs r.tag
  obtain ⟨after, hafter⟩ := expand_total defs r.after
  refine ⟨before, inserted, after, hbefore, hinserted, hafter, ?_⟩
  have hclose : '>' ∉ useMark ++ r.inside := by
    rw [List.mem_append, not_or]
    exact ⟨by decide, r.inside_open⟩
  have hrest : r.between ++ (r.tag ++ r.after) =
      (r.between ++ (useMark ++ r.inside)) ++ '>' :: r.after := by
    simp [tag]
  have hreference : (expand defs (r.between ++ (r.tag ++ r.after))).outcome =
      .ok (r.between ++ inserted ++ after) := by
    rw [hrest, expand_reference defs (cut?_useMark r.between_free r.inside) hclose]
    refine Journal.outcome_bind_eq_ok.mpr ⟨r.between ++ inserted, ?_, ?_⟩
    · exact Journal.outcome_bind_eq_ok.mpr ⟨inserted, hinserted, rfl⟩
    · exact Journal.outcome_bind_eq_ok.mpr ⟨after, hafter, rfl⟩
  rw [source, (expand_breaksAt defs).pass_append r.before_ends]
  refine Journal.outcome_bind_eq_ok.mpr ⟨before, hbefore, ?_⟩
  refine Journal.outcome_bind_eq_ok.mpr ⟨_, hreference, ?_⟩
  simp

/-- A reference to a tag puts the tag there with a position in it. -/
theorem resolve_tag {r : Reference} {defs : Definitions} {rest inserted : Text}
    (h : defs.lookup? r.target = some ('<' :: rest))
    (hinserted : (resolve defs r.tag).outcome = .ok inserted) :
    ∃ x y, inserted = injectPosition ('<' :: rest) (Number.spliced x) (Number.spliced y) := by
  simp only [resolve] at hinserted
  obtain ⟨x, -, hinserted⟩ := Journal.outcome_bind_eq_ok.mp hinserted
  obtain ⟨y, -, hinserted⟩ := Journal.outcome_bind_eq_ok.mp hinserted
  rw [target] at h
  rw [h] at hinserted
  cases hinserted
  exact ⟨x, y, rfl⟩

end Reference

end Markup

open Markup

/-! ## 5. What a path draws -/

namespace Element

theorem locate_singleton {c : Char} {body : Text} (h : c ∉ body) (i : Nat) (rest : Text) :
    Text.locate [c] i (body ++ c :: rest) = some (i + body.length) := by
  induction body generalizing i with
  | nil => simp [Text.locate]
  | cons d body ih =>
    rw [List.mem_cons, not_or] at h
    rw [List.cons_append, Text.locate, if_neg (by simp [h.1]), ih h.2, List.length_cons]
    congr 1
    omega

/-- **The text of a path's tag,** which runs past the end of the tag. -/
theorem tagOf_path {inside : Text} (h : '>' ∉ inside) (front back : Text) :
    tagOf (front ++ (inside ++ '>' :: back)) front.length .path =
      inside ++ ('>' :: back).take front.length := by
  have hdrop : (front ++ (inside ++ '>' :: back)).drop front.length = inside ++ '>' :: back :=
    List.drop_left
  have hend : tagEnd (front ++ (inside ++ '>' :: back)) front.length ['>'] =
      front.length + inside.length := by
    simp only [tagEnd, Text.find?, Text.anchor_natCast]
    rw [if_pos (by simp), hdrop, locate_singleton h, Option.getD_some]
  simp only [tagOf, tagText, terminator, hend]
  rw [← Int.natCast_add, Text.anchor_natCast, Text.anchor_natCast, Text.slice, List.drop_take,
    hdrop, Nat.add_sub_cancel_left, Nat.add_comm, List.take_length_add_append]

/-- **What a path's tag draws,** with a position written into it or without one. -/
theorem pathData_tag (tag : PathTag) {position : Text} (h : PathTag.LetsPass position)
    (front back : Text) :
    pathData (tagOf (front ++ (PathTag.head ++ position ++ tag.body ++ '>' :: back)) front.length
      .path) = tag.drawn := by
  have hclose : '>' ∉ PathTag.head ++ position ++ tag.body := by
    simp only [List.mem_append, h.no_close, tag.not_mem_body (.inr rfl), or_false]
    decide
  have hbehind : ∀ c ∈ (position ++ (tag.body ++ ('>' :: back).take front.length)).head?,
      isNameChar c = false := by
    intro c hc
    cases position with
    | nil => exact tag.head?_body _ hc
    | cons d position => exact h.head c hc
  rw [tagOf_path hclose, pathData, attributeText_eq, List.append_assoc, List.append_assoc,
    isAttributeName_data.valueFrom?_behind (by decide) hbehind, h.lookup, PathTag.body,
    List.append_assoc, tag.valueFrom?_data, Option.getD_some]

/-- **A path draws its own data, unless its id is written in front of them; then it draws the id.**
This holds of a tag that is painted where it stands, whatever stands around it.  A tag with an id is
a definition under this id, and it holds of the tag, too, that is put in the place of a reference to
such a definition. -/
theorem path_draws_first (tag : PathTag) :
    (∀ front back, pathData (tagOf (front ++ (tag.text ++ back)) front.length .path) =
      if tag.IdComesFirst then tag.value .id else tag.value .data) ∧
    (tag.value .id ≠ [] → definitionOf tag.text = [(tag.value .id, tag.text)]) ∧
    ∀ r : Reference, (definitions r.source).lookup? r.target = some tag.text →
      ∃ front inserted back,
        (expand (definitions r.source) r.before).outcome = .ok front ∧
        (resolve (definitions r.source) r.tag).outcome = .ok inserted ∧
        (expand (definitions r.source) r.source).outcome =
          .ok (front ++ r.between ++ (inserted ++ back)) ∧
        pathData (tagOf (front ++ r.between ++ (inserted ++ back)) (front ++ r.between).length
          .path) = if tag.IdComesFirst then tag.value .id else tag.value .data := by
  refine ⟨fun front back => ?_, tag.definitionOf_text, fun r hlookup => ?_⟩
  · have hdata := pathData_tag tag PathTag.letsPass_nil front back
    rwa [List.append_nil, List.append_assoc, ← tag.text_append] at hdata
  · obtain ⟨front, inserted, back, hfront, hinserted, -, hsource⟩ :=
      r.expand_source (definitions r.source)
    obtain ⟨x, y, hposition⟩ := Reference.resolve_tag hlookup hinserted
    refine ⟨front, inserted, back, hfront, hinserted, hsource, ?_⟩
    have hdata := pathData_tag tag (PathTag.letsPass_position x y) (front ++ r.between) back
    rw [hposition.trans (tag.injectPosition_text _ _), List.append_assoc _ ['>']]
    exact hdata

/-- A path whose id is written behind its data, and between them one more attribute. -/
def dataFirst : PathTag where
  attributes :=
    [⟨0, .data, " M 1,2 h/3 ".toList, by simp⟩, ⟨2, .strokeWidth, "2".toList, by simp⟩,
      ⟨0, .id, "a b".toList, by simp⟩]
  ending := [' ', '/']
  nodup := by decide
  has_data := by decide
  ending_plain := by simp

/-- A reference to this path, behind its definition. -/
def toDataFirst : Reference where
  before := "<defs>".toList ++ dataFirst.text ++ "</defs>".toList
  between := "and >a".toList
  inside := " xlink:href=\"#a b\" x=\"7\"/".toList
  after := "<use/>".toList
  before_ends := .inr (List.isSuffixOf_iff_suffix.mp (by decide))
  between_free := by decide
  inside_open := by decide

theorem path_draws_first_dataFirst :
    dataFirst.value .id ≠ [] ∧ (definitions toDataFirst.source).lookup? toDataFirst.target =
      some dataFirst.text ∧
    ∃ text p, (expand (definitions toDataFirst.source) toDataFirst.source).outcome = .ok text ∧
      pathData (tagOf text p .path) = "M 1,2 h/3".toList := by
  have hid : dataFirst.value .id ≠ [] := by decide
  have hlookup : (definitions toDataFirst.source).lookup? toDataFirst.target =
      some dataFirst.text := by
    decide +kernel
  obtain ⟨-, -, hreference⟩ := path_draws_first dataFirst
  obtain ⟨_, _, _, -, -, htext, hdata⟩ := hreference toDataFirst hlookup
  exact ⟨hid, hlookup, _, _, htext, hdata.trans (by decide)⟩

/-- A path whose id is written in front of its data. -/
def idFirst : PathTag where
  attributes := [⟨0, .id, "a".toList, by simp⟩, ⟨0, .data, "M 0 0 H 9".toList, by simp⟩]
  ending := ['/']
  nodup := by decide
  has_data := by decide
  ending_plain := by simp

/-- A reference to this path, behind its definition. -/
def toIdFirst : Reference where
  before := "<defs>".toList ++ idFirst.text ++ "</defs>".toList
  between := []
  inside := " href=\"#a\"/".toList
  after := []
  before_ends := .inr (List.isSuffixOf_iff_suffix.mp (by decide))
  between_free := by decide
  inside_open := by decide

/-- A path need not draw its own data, neither where it stands nor where a reference puts it. -/
theorem own_data_not_drawn :
    (¬ ∀ (tag : PathTag) (front back : Text),
      pathData (tagOf (front ++ (tag.text ++ back)) front.length .path) = tag.value .data) ∧
    (definitions toIdFirst.source).lookup? toIdFirst.target = some idFirst.text ∧
    ∃ text, (expand (definitions toIdFirst.source) toIdFirst.source).outcome = .ok text ∧
      pathData (tagOf text toIdFirst.before.length .path) = ['a'] := by
  have hdirect : pathData (tagOf ([] ++ (idFirst.text ++ [])) 0 .path) = ['a'] := by
    decide +kernel
  have hlookup : (definitions toIdFirst.source).lookup? toIdFirst.target = some idFirst.text := by
    decide +kernel
  have hplaced : (expand (definitions toIdFirst.source) toIdFirst.source).outcome.map
      (fun text => pathData (tagOf text toIdFirst.before.length .path)) = .ok ['a'] := by
    decide +kernel
  refine ⟨fun h => ?_, hlookup, ?_⟩
  · exact absurd (hdirect.symm.trans (h idFirst [] [])) (by decide)
  · obtain ⟨text, htext⟩ := expand_total (definitions toIdFirst.source) toIdFirst.source
    rw [htext] at hplaced
    exact ⟨text, htext, Except.ok.inj hplaced⟩

end Element

end VectorPaint
