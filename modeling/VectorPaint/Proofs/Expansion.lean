/-
# References are replaced once and for all

A document's references are replaced when it is read, and the inside of a group is read as a
document again, so its references are replaced again.  In markup without broken tags the second
time has nothing to do: the text of the document holds no reference any more
(`expansion_stable`).

What has to be excluded is that a reference comes about while references are replaced.  A text put
in for one cannot hold one, because a definition is a single tag and starts with a circle's, a
rectangle's or a path's name (`IsPlainTag`).  And no reference can form where two texts meet: its
mark starts with a `<`, and in a text whose tags are closed a `>` follows before the text ends
(`IsExpanded.append`).
-/
import Mathlib.Control.Monad.Basic
import Mathlib.Logic.Relation
import VectorPaint.Proofs.Boundaries

namespace VectorPaint

namespace Text

/-! ## 1. What the search finds -/

theorem slice_infix (t : Text) (start stop : Nat) : slice t start stop <:+: t :=
  (List.drop_suffix _ _).isInfix.trans (List.take_prefix _ _).isInfix

/-- A pattern occurs in a text exactly when the search finds it. -/
theorem locate_eq_none_iff {pattern t : Text} {i : Nat} :
    locate pattern i t = none ↔ ¬ pattern <:+: t := by
  constructor
  · intro h hinfix
    obtain ⟨u, hpattern, hsuffix⟩ := List.infix_iff_prefix_suffix.mp hinfix
    rw [List.suffix_iff_eq_drop.mp hsuffix] at hpattern
    exact locate_none h _ hpattern
  · intro h
    cases hl : locate pattern i t with
    | none => rfl
    | some j =>
      exact absurd ((locate_some hl).2.2.isInfix.trans (List.drop_suffix _ _).isInfix) h

theorem cut?_eq_none_iff {pattern t : Text} : cut? pattern t = none ↔ ¬ pattern <:+: t := by
  unfold cut?
  rw [Option.map_eq_none_iff, locate_eq_none_iff]

theorem infix_of_occursIn {pattern t : Text} (h : occursIn pattern t = true) :
    pattern <:+: t := by
  refine Decidable.byContradiction fun hnone => ?_
  unfold occursIn at h
  rw [locate_eq_none_iff.mpr hnone] at h
  cases h

/-- The left side of a cut holds no occurrence. -/
theorem not_infix_of_cut? {pattern t before rest : Text} (hp : pattern ≠ [])
    (h : cut? pattern t = some (before, rest)) : ¬ pattern <:+: before := by
  intro hinfix
  cases hc : cut? pattern before with
  | none => exact cut?_eq_none_iff.mp hc hinfix
  | some sides =>
    -- Then the cut would be there, and nothing would be left for the occurrence.
    obtain ⟨front, back⟩ := sides
    have hcut := cut?_append_of_some hc rest
    rw [append_of_cut? h, h] at hcut
    have hback : rest = back ++ rest := (Prod.mk.inj (Option.some.inj hcut)).2
    have hstarts := starts_of_cut? hc
    rw [List.self_eq_append_left.mp hback, List.prefix_nil] at hstarts
    exact hp hstarts

end Text

namespace Markup

open Text (through?)

/-! ## 2. Texts whose tags are closed -/

/-- What follows a `<` has a `>` before the next `<`. -/
def ClosesTag (rest : Text) : Prop := ∃ inside after, rest = inside ++ '>' :: after ∧ '<' ∉ inside

/-- Every `<` of a text is followed by a `>` before the next `<` and before the end: no tag holds
another one, and none is left open. -/
def TagsClosed (t : Text) : Prop := ∀ before rest, t = before ++ '<' :: rest → ClosesTag rest

theorem not_closesTag_nil : ¬ ClosesTag [] := by
  rintro ⟨inside, after, h, -⟩
  exact absurd h (by simp)

theorem closesTag_cons {c : Char} {t : Text} :
    ClosesTag (c :: t) ↔ c = '>' ∨ (c ≠ '<' ∧ ClosesTag t) := by
  constructor
  · rintro ⟨inside, after, h, hinside⟩
    cases inside with
    | nil => exact Or.inl (List.cons.inj h).1
    | cons d inside =>
      obtain ⟨rfl, ht⟩ := List.cons.inj h
      rw [List.mem_cons, not_or] at hinside
      exact Or.inr ⟨Ne.symm hinside.1, inside, after, ht, hinside.2⟩
  · rintro (rfl | ⟨hc, inside, after, rfl, hinside⟩)
    · exact ⟨[], t, rfl, List.not_mem_nil⟩
    · exact ⟨c :: inside, after, rfl, by simp [hinside, Ne.symm hc]⟩

theorem tagsClosed_nil : TagsClosed [] := by
  intro before rest h
  exact absurd h (by simp)

theorem tagsClosed_cons {c : Char} {t : Text} :
    TagsClosed (c :: t) ↔ (c = '<' → ClosesTag t) ∧ TagsClosed t := by
  constructor
  · intro h
    refine ⟨?_, fun before rest ht => h (c :: before) rest (by rw [ht, List.cons_append])⟩
    rintro rfl
    exact h [] t rfl
  · rintro ⟨hc, ht⟩ before rest h
    cases before with
    | nil =>
      obtain ⟨rfl, rfl⟩ := List.cons.inj h
      exact hc rfl
    | cons d before => exact ht before rest (List.cons.inj h).2

instance decidableClosesTag : (t : Text) → Decidable (ClosesTag t)
  | [] => isFalse not_closesTag_nil
  | _ :: t => haveI := decidableClosesTag t; decidable_of_iff _ closesTag_cons.symm

instance decidableTagsClosed : (t : Text) → Decidable (TagsClosed t)
  | [] => isTrue tagsClosed_nil
  | _ :: t => haveI := decidableTagsClosed t; decidable_of_iff _ tagsClosed_cons.symm

/-- A tag ends at the first `>`. -/
theorem ClosesTag.first {rest : Text} (h : ClosesTag rest) :
    ∃ inside after, rest = inside ++ '>' :: after ∧ '<' ∉ inside ∧ '>' ∉ inside := by
  obtain ⟨inside, after, rfl, hopen⟩ := h
  by_cases hclose : '>' ∈ inside
  · obtain ⟨front, back, rfl, hfront⟩ := List.eq_append_cons_of_mem hclose
    refine ⟨front, back ++ '>' :: after, by simp, ?_, hfront⟩
    exact fun hm => hopen (List.mem_append_left _ hm)
  · exact ⟨inside, after, rfl, hopen, hclose⟩

theorem ClosesTag.append {rest : Text} (h : ClosesTag rest) (t : Text) :
    ClosesTag (rest ++ t) := by
  obtain ⟨inside, after, rfl, hopen⟩ := h
  exact ⟨inside, after ++ t, by simp, hopen⟩

/-- A `>` that comes before the next `<` comes before what starts with that `<`. -/
theorem ClosesTag.of_append_open {rest t : Text} (h : ClosesTag (rest ++ '<' :: t)) :
    ClosesTag rest := by
  induction rest with
  | nil =>
    rcases closesTag_cons.mp h with he | ⟨hne, -⟩
    · exact absurd he (by decide)
    · exact absurd rfl hne
  | cons c rest ih =>
    rw [List.cons_append, closesTag_cons] at h
    exact closesTag_cons.mpr (h.imp_right fun ⟨hc, hrest⟩ => ⟨hc, ih hrest⟩)

theorem TagsClosed.of_append_left {s t : Text} (h : TagsClosed (s ++ t)) : TagsClosed t := by
  rintro before rest rfl
  exact h (s ++ before) rest (List.append_assoc _ _ _).symm

/-- What stands before a tag is closed. -/
theorem TagsClosed.of_append_open {s t : Text} (h : TagsClosed (s ++ '<' :: t)) :
    TagsClosed s := by
  rintro before rest rfl
  refine ClosesTag.of_append_open (t := t) (h before _ ?_)
  rw [List.append_assoc, List.cons_append]

theorem TagsClosed.append {s t : Text} (hs : TagsClosed s) (ht : TagsClosed t) :
    TagsClosed (s ++ t) := by
  induction s with
  | nil => exact ht
  | cons c s ih =>
    obtain ⟨hc, hs⟩ := tagsClosed_cons.mp hs
    exact tagsClosed_cons.mpr ⟨fun he => (hc he).append t, ih hs⟩

/-- A text without `<` has no tag to close. -/
theorem tagsClosed_of_not_mem {t : Text} (h : '<' ∉ t) : TagsClosed t := by
  rintro before rest rfl
  exact absurd (List.mem_append_right _ List.mem_cons_self) h

/-! ## 3. Texts without references -/

/-- A text without references in which every tag is closed. -/
structure IsExpanded (t : Text) : Prop where
  closed : TagsClosed t
  no_use : ¬ useMark <:+: t

theorem isExpanded_nil : IsExpanded [] := ⟨tagsClosed_nil, by decide⟩

/-- **No reference forms where two texts meet.** -/
theorem IsExpanded.append {s t : Text} (hs : IsExpanded s) (ht : IsExpanded t) :
    IsExpanded (s ++ t) := by
  refine ⟨hs.closed.append ht.closed, fun h => ?_⟩
  rcases List.infix_append_iff.mp h with h | h | ⟨left, right, huse, hleft, hright⟩
  · exact hs.no_use h
  · exact ht.no_use h
  · cases left with
    | nil =>
      rw [List.nil_append] at huse
      exact ht.no_use (huse ▸ hright.isInfix)
    | cons c left =>
      -- The mark's `<` stands in the first text, so a `>` follows there, within the mark.
      obtain ⟨rfl, -⟩ := List.cons.inj huse
      obtain ⟨front, rfl⟩ := hleft
      obtain ⟨inside, after, rfl, -⟩ := hs.closed front left rfl
      have hmark : '>' ∈ useMark := by
        rw [huse]
        simp
      exact absurd hmark (by decide)

/-- A single tag that is no reference. -/
def IsPlainTag (tag : Text) : Prop :=
  ∃ c inside, tag = '<' :: c :: (inside ++ ['>']) ∧ isNameChar c = true ∧ c ≠ 'u' ∧
    '<' ∉ c :: inside ∧ '>' ∉ c :: inside

theorem IsPlainTag.isExpanded {tag : Text} (h : IsPlainTag tag) : IsExpanded tag := by
  obtain ⟨c, inside, rfl, -, hc, hopen, -⟩ := h
  have hbody : '<' ∉ c :: (inside ++ ['>']) := by
    simp only [List.mem_cons, List.mem_append, not_or] at hopen ⊢
    exact ⟨hopen.1, hopen.2, by decide, List.not_mem_nil⟩
  refine ⟨tagsClosed_cons.mpr ⟨fun _ => ⟨c :: inside, [], rfl, hopen⟩,
    tagsClosed_of_not_mem hbody⟩, fun h => ?_⟩
  rcases List.infix_cons_iff.mp h with h | h
  · rw [useMark, List.cons_prefix_cons, List.cons_prefix_cons] at h
    exact hc h.2.1.symm
  · exact hbody (h.subset List.mem_cons_self)

/-- The name of a tag ends before the tag's `>`. -/
theorem nameLength_tag {c : Char} (hc : isNameChar c = true) (inside : Text) :
    nameLength ('<' :: c :: (inside ++ ['>'])) = (inside.takeWhile isNameChar).length + 2 := by
  have htake : (inside ++ ['>']).takeWhile isNameChar = inside.takeWhile isNameChar := by
    rw [List.takeWhile_append]
    split
    · rename_i hall
      rw [List.takeWhile_cons_of_neg (by decide), List.append_nil]
      exact ((List.takeWhile_prefix isNameChar).eq_of_length hall).symm
    · rfl
  simp only [nameLength]
  rw [List.takeWhile_cons_of_pos hc, htake, List.length_cons]

/-- A plain tag stays one with a position written into it. -/
theorem IsPlainTag.injectPosition {tag : Text} (h : IsPlainTag tag) (x y : Float) :
    IsPlainTag (injectPosition tag (Number.spliced x) (Number.spliced y)) := by
  obtain ⟨c, inside, rfl, hname, hc, hopen, hclose⟩ := h
  have hposition : ∀ mark : Char, isNumeral mark = false → mark ∉ [' ', 'x', 'y', '=', '"'] →
      mark ∉ positionText (Number.spliced x) (Number.spliced y) := by
    intro mark hmark hplain
    have hx := not_mem_spliced hmark x
    have hy := not_mem_spliced hmark y
    simp only [List.mem_cons, List.not_mem_nil, or_false, not_or] at hplain
    simp [positionText, hx, hy, hplain]
  have hlength := nameLength_tag hname inside
  have hparts := List.takeWhile_append_dropWhile (p := isNameChar) (l := inside)
  generalize inside.takeWhile isNameChar = name at hlength hparts
  generalize inside.dropWhile isNameChar = tail at hparts
  subst hparts
  simp only [List.mem_cons, List.mem_append, not_or] at hopen hclose
  refine ⟨c, name ++ (positionText (Number.spliced x) (Number.spliced y) ++ tail), ?_, hname, hc,
    ?_, ?_⟩
  · unfold Markup.injectPosition
    rw [hlength, List.append_assoc name, List.take_succ_cons, List.take_succ_cons,
      List.drop_succ_cons, List.drop_succ_cons, List.take_left, List.drop_left]
    simp
  · simp [hopen, hposition '<' (by decide) (by decide)]
  · simp [hclose, hposition '>' (by decide) (by decide)]

/-! ## 4. Definitions of a closed text -/

/-- What a tag must hold to be a definition is the start of a tag that is no reference. -/
theorem definableMarks_start {mark : Text} (h : mark ∈ definableMarks) :
    ∃ c name, mark = '<' :: c :: name ∧ isNameChar c = true ∧ c ≠ 'u' ∧ c ≠ '>' := by
  simp only [definableMarks, List.mem_cons, List.not_mem_nil, or_false] at h
  rcases h with rfl | rfl | rfl <;> exact ⟨_, _, rfl, by decide, by decide, by decide⟩

/-- A tag that holds no other tag and makes a definition is a plain one. -/
theorem isPlainTag_of_mem_definitionOf {inside : Text} (hopen : '<' ∉ inside)
    (hclose : '>' ∉ inside) {entry : Text × Text}
    (h : entry ∈ definitionOf ('<' :: (inside ++ ['>']))) : IsPlainTag entry.2 := by
  unfold definitionOf at h
  split at h
  · rename_i hmarks
    have hentry : entry.2 = '<' :: (inside ++ ['>']) := by
      dsimp only at h
      split at h
      · cases h
      · rw [List.mem_singleton.mp h]
    obtain ⟨mark, hmark, hoccurs⟩ := List.any_eq_true.mp hmarks
    obtain ⟨c, name, rfl, hname, hc, hne⟩ := definableMarks_start hmark
    -- The mark's `<` can only be the one that the tag starts with.
    have hstart : c :: name <+: inside ++ ['>'] := by
      rcases List.infix_cons_iff.mp (Text.infix_of_occursIn hoccurs) with hp | hi
      · exact (List.cons_prefix_cons.mp hp).2
      · have hm := hi.subset List.mem_cons_self
        simp [hopen] at hm
    cases inside with
    | nil =>
      rw [List.nil_append, List.cons_prefix_cons] at hstart
      exact absurd hstart.1 hne
    | cons d inside =>
      rw [List.cons_append, List.cons_prefix_cons] at hstart
      obtain ⟨rfl, -⟩ := hstart
      exact ⟨c, inside, hentry, hname, hc, hopen, hclose⟩
  · cases h

/-- **The definitions of a closed text are plain tags.** -/
theorem isPlainTag_of_mem_definitions {t : Text} (ht : TagsClosed t) {entry : Text × Text}
    (h : entry ∈ definitions t) : IsPlainTag entry.2 := by
  by_cases hopen : '<' ∈ t
  · obtain ⟨before, rest, rfl, hbefore⟩ := List.eq_append_cons_of_mem hopen
    obtain ⟨inside, after, rfl, hinside, hclose⟩ := (ht before rest rfl).first
    have hafter : TagsClosed after := by
      refine TagsClosed.of_append_left (s := before ++ '<' :: (inside ++ ['>'])) ?_
      simpa using ht
    rw [definitions_append_of_not_mem hbefore, definitions_tag hclose] at h
    rcases List.mem_append.mp h with h | h
    · exact isPlainTag_of_mem_definitionOf hinside hclose h
    · exact isPlainTag_of_mem_definitions hafter h
  · rw [← List.append_nil t, definitions_append_of_not_mem hopen, definitions_nil] at h
    cases h
termination_by t.length
decreasing_by
  subst_vars
  simp only [List.length_append, List.length_cons]
  omega

/-! ## 5. Replacing the references of a closed text -/

theorem isExpanded_of_resolve {defs : Definitions} (hd : ∀ entry ∈ defs, IsPlainTag entry.2)
    {tag t : Text} (h : (resolve defs tag).outcome = .ok t) : IsExpanded t := by
  rcases resolve_cases h with rfl | ⟨id, definition, x, y, hmem, rfl⟩
  · exact isExpanded_nil
  · exact ((hd _ hmem).injectPosition x y).isExpanded

/-- A reference in a closed text has an end, and what stands on both sides of it is closed. -/
theorem TagsClosed.cut_reference {t before rest : Text} (ht : TagsClosed t)
    (h : Text.cut? useMark t = some (before, rest)) :
    ∃ tag after, through? '>' rest = some (tag, after) ∧ TagsClosed before ∧ TagsClosed after := by
  have happend := Text.append_of_cut? h
  obtain ⟨name, rfl⟩ := Text.starts_of_cut? h
  obtain ⟨inside, after, hinside, -, hclose⟩ :=
    (ht before (['u', 's', 'e'] ++ name) happend.symm).first
  have hrest : useMark ++ name = ('<' :: inside) ++ '>' :: after := congrArg ('<' :: ·) hinside
  rw [hrest] at happend ⊢
  subst happend
  refine ⟨_, after, Text.through?_append_cons (by simpa using hclose) after,
    TagsClosed.of_append_open ht, ?_⟩
  refine TagsClosed.of_append_left (s := before ++ ('<' :: inside) ++ ['>']) ?_
  simpa using ht

/-- **A closed text is closed and without references once they are replaced,** if the definitions
are plain tags. -/
theorem isExpanded_of_expand {defs : Definitions} (hd : ∀ entry ∈ defs, IsPlainTag entry.2)
    {t e : Text} (ht : TagsClosed t) (h : (expand defs t).outcome = .ok e) : IsExpanded e := by
  fun_induction expand defs t generalizing e with
  | case1 t hCut =>
    cases h
    exact ⟨ht, Text.cut?_eq_none_iff.mp hCut⟩
  | case2 t before rest hCut hClose =>
    obtain ⟨tag, after, hthrough, -⟩ := ht.cut_reference hCut
    rw [hClose] at hthrough
    cases hthrough
  | case3 t before rest hCut tag after hClose ih =>
    obtain ⟨tag', after', hthrough, hbefore, hafter⟩ := ht.cut_reference hCut
    rw [hClose] at hthrough
    cases hthrough
    obtain ⟨inserted, hi, h⟩ := Journal.outcome_bind_eq_ok.mp h
    obtain ⟨tail, htail, h⟩ := Journal.outcome_bind_eq_ok.mp h
    cases h
    have hfront : IsExpanded before := ⟨hbefore, Text.not_infix_of_cut? (by decide) hCut⟩
    exact (hfront.append (isExpanded_of_resolve hd hi)).append (ih hafter htail)

/-- A text without references stays what it is, whatever the definitions, and nothing is noted. -/
theorem expand_of_no_use (defs : Definitions) {t : Text} (h : ¬ useMark <:+: t) :
    expand defs t = pure t :=
  expand_of_cut?_eq_none defs (Text.cut?_eq_none_iff.mpr h)

/-! ## 6. The insides of groups -/

/-- The second text is the inside of a group in the document of the first. -/
def HasGroup (source body : Text) : Prop :=
  ∃ text p, (expand (definitions source) source).outcome = .ok text ∧
    Element.groupBody? text p = some body

theorem infix_of_groupBody? {t body : Text} {p : Nat} (h : Element.groupBody? t p = some body) :
    body <:+: t := by
  unfold Element.groupBody? at h
  obtain ⟨stop, -, h⟩ := Option.bind_eq_some_iff.mp h
  cases h
  exact Text.slice_infix _ _ _

/-- The inside of a group in a document without references has none. -/
theorem HasGroup.no_use {source text body : Text} (h : HasGroup source body)
    (htext : (expand (definitions source) source).outcome = .ok text)
    (hnone : ¬ useMark <:+: text) : ¬ useMark <:+: body := by
  obtain ⟨text', p, htext', hbody⟩ := h
  cases htext.symm.trans htext'
  exact fun hi => hnone (hi.trans (infix_of_groupBody? hbody))

/-- However deep a group stands in a document without references, its inside has none. -/
theorem no_use_of_transGen {source text body : Text}
    (htext : (expand (definitions source) source).outcome = .ok text)
    (hnone : ¬ useMark <:+: text) (h : Relation.TransGen HasGroup source body) :
    ¬ useMark <:+: body := by
  induction h with
  | single h => exact h.no_use htext hnone
  | tail _ h ih =>
    refine h.no_use ?_ ih
    rw [expand_of_no_use _ ih]
    rfl

/-! ## 7. Once and for all -/

/-- **References are replaced once and for all.**  Let every tag of a text be closed before the
next one starts.  With the references replaced by its own definitions the text holds no reference,
its tags are closed again, and replacing the references once more changes and notes nothing,
whatever the definitions.  This is the text of every document read from it; and the inside of a
group in that document, or of a group inside of it, at any depth, stays what it is when it is
read as a document of its own. -/
theorem expansion_stable {source : Text} (h : TagsClosed source) :
    ∃ text, (expand (definitions source) source).outcome = .ok text ∧
      ¬ useMark <:+: text ∧ TagsClosed text ∧ (∀ defs, expand defs text = pure text) ∧
      (∀ width height doc, (Document.ofText source width height).outcome = .ok doc →
        doc.text = text) ∧
      ∀ body, Relation.TransGen HasGroup source body →
        expand (definitions body) body = pure body := by
  obtain ⟨text, htext⟩ := expand_total (definitions source) source
  have hexpanded : IsExpanded text :=
    isExpanded_of_expand (fun _ he => isPlainTag_of_mem_definitions h he) h htext
  refine ⟨text, htext, hexpanded.no_use, hexpanded.closed,
    fun defs => expand_of_no_use defs hexpanded.no_use, ?_, ?_⟩
  · intro width height doc hdoc
    cases htext.symm.trans (expand_of_document hdoc)
    rfl
  · intro body hbody
    exact expand_of_no_use _ (no_use_of_transGen htext hexpanded.no_use hbody)

/-- A group with a definition, a reference to it, and a reference by another name to nothing. -/
def reusedSquare : Text :=
  "<g><rect id=\"a\"/><use href=\"#a\" x=\"5\"/><user/>b</g>".toList

/-- The text of its document, with the square at its two places. -/
def reusedSquareExpanded : Text := "<g><rect id=\"a\"/><rect x=\"5\" y=\"0\" id=\"a\"/>b</g>".toList

/-- The inside of the group in that document. -/
def squareTwice : Text := "<rect id=\"a\"/><rect x=\"5\" y=\"0\" id=\"a\"/>b".toList

theorem expansion_stable_reusedSquare :
    TagsClosed reusedSquare ∧ useMark <:+: reusedSquare ∧
    (∃ doc, (Document.ofText reusedSquare 160 120).outcome = .ok doc ∧
      doc.text = reusedSquareExpanded) ∧
    HasGroup reusedSquare squareTwice ∧
    expand (definitions squareTwice) squareTwice = pure squareTwice := by
  have hclosed : TagsClosed reusedSquare := by decide +kernel
  have hexpanded : (expand (definitions reusedSquare) reusedSquare).outcome =
      .ok reusedSquareExpanded := by
    decide +kernel
  have hgroup : HasGroup reusedSquare squareTwice :=
    ⟨reusedSquareExpanded, 0, hexpanded, by decide +kernel⟩
  have hread : (Document.ofText reusedSquare 160 120).outcome.toOption.isSome = true := by
    decide +kernel
  obtain ⟨text, htext, -, -, -, hdocument, hgroups⟩ := expansion_stable hclosed
  cases hexpanded.symm.trans htext
  refine ⟨hclosed, by decide +kernel, ?_, hgroup,
    hgroups _ (Relation.TransGen.single hgroup)⟩
  cases hdoc : (Document.ofText reusedSquare 160 120).outcome with
  | error fault =>
    rw [hdoc] at hread
    cases hread
  | ok doc => exact ⟨doc, rfl, hdocument 160 120 doc hdoc⟩

end Markup

end VectorPaint
