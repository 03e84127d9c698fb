/-
# Marks that are taken for tags

A tag is found by its mark: its name behind `<` or `:`, in lower or in upper case.  The mark is
all that is looked at.  Whether the name ends there, or whether the colon stands in a tag's name
at all, is not.  So what paints is not the tags of a text but its marks, and these are marks of
the text in which the references have been replaced.

**A text without marks leaves a blank canvas** (`blank_of_unmarked`).  A text without tags that
are painted need not: a longer name, a colon in an attribute, and a reference that is dropped
between the two halves of a name each give a mark (`untagged_text_painted`).
-/
import VectorPaint.Proofs.Expansion
import VectorPaint.Proofs.Coordinates
import VectorPaint.Proofs.Layer

namespace VectorPaint

namespace Text

theorem find?_eq_none_iff {pattern t : Text} {start : Nat} (hp : pattern ≠ []) :
    find? pattern t start = none ↔ ¬ pattern <:+: t.drop start := by
  unfold find?
  split
  · exact locate_eq_none_iff
  · rename_i h
    rw [List.drop_of_length_le (by omega), List.infix_nil]
    exact ⟨fun _ => hp, fun _ => rfl⟩

end Text

namespace Markup

/-! ## 1. Marks -/

/-- The four ways to mark a tag of a name. -/
def spellings (name : Text) : List Text :=
  ['<' :: name, '<' :: name.upper, ':' :: name, ':' :: name.upper]

theorem tagBehind?_eq_none_iff {mark : Char} {name t : Text} {start : Nat} :
    tagBehind? mark name t start = none ↔
      ¬ (mark :: name) <:+: t.drop start ∧ ¬ (mark :: name.upper) <:+: t.drop start := by
  unfold tagBehind?
  rw [Option.or_eq_none_iff, Text.find?_eq_none_iff (List.cons_ne_nil _ _),
    Text.find?_eq_none_iff (List.cons_ne_nil _ _)]

theorem nearer_eq_none_iff {p q : Option Nat} : nearer p q = none ↔ p = none ∧ q = none := by
  cases p <;> cases q <;> simp [nearer]

/-- **A tag of a name is found exactly if one of the name's spellings stands in the text.** -/
theorem tagPosition?_eq_none_iff {t name : Text} {start : Int} :
    tagPosition? t start name = none ↔
      ∀ mark ∈ spellings name, ¬ mark <:+: t.drop start.toNat := by
  unfold tagPosition?
  rw [nearer_eq_none_iff, tagBehind?_eq_none_iff, tagBehind?_eq_none_iff]
  simp [spellings, and_assoc]

/-- **A tag is found where one of the spellings of its name stands.** -/
theorem tagPosition?_stands {t name : Text} {start : Int} {p : Nat}
    (h : tagPosition? t start name = some p) : ∃ mark ∈ spellings name, mark <+: t.drop p := by
  rcases tagPosition?_behind h with h | h <;> rcases (tagBehind?_stands h).2 with h | h <;>
    exact ⟨_, by simp [spellings], h⟩

theorem nearest_eq_none_iff {α : Type} {found other : Option (Nat × α)} :
    nearest found other = none ↔ found = none ∧ other = none := by
  cases found with
  | none => simp [nearest]
  | some a =>
    cases other with
    | none => simp [nearest]
    | some b => grind [nearest]

/-- No tag of several kinds is found exactly if none of each of them is. -/
theorem nextTag?_eq_none_iff {α : Type} {name : α → Text} {kinds : List α} {t : Text}
    {start : Int} :
    nextTag? name kinds t start = none ↔
      ∀ kind ∈ kinds, tagPosition? t start (name kind) = none := by
  unfold nextTag?
  suffices key : ∀ found : Option (Nat × α), kinds.foldl (fun found kind =>
      nearest found ((tagPosition? t start (name kind)).map fun p => (p, kind))) found = none ↔
        found = none ∧ ∀ kind ∈ kinds, tagPosition? t start (name kind) = none by
    simpa using key none
  induction kinds with
  | nil => simp
  | cons k ks ih =>
    intro found
    rw [List.foldl_cons, ih, nearest_eq_none_iff, Option.map_eq_none_iff, List.forall_mem_cons,
      and_assoc]

/-- Nothing is found at the end of a text. -/
theorem nextTag?_length {α : Type} (name : α → Text) (kinds : List α) (t : Text) :
    nextTag? name kinds t t.length = none := by
  rw [nextTag?_eq_none_iff]
  intro kind _
  rw [tagPosition?_eq_none_iff, Int.toNat_natCast, List.drop_length]
  intro mark hmark
  rw [List.infix_nil]
  rintro rfl
  simp [spellings] at hmark

/-- A mark of something that paints stands in a text. -/
def IsMarked (t : Text) : Prop :=
  ∃ kind ∈ Kind.painted, ∃ mark ∈ spellings kind.name, mark <:+: t

/-- **Something that paints is found in a text exactly if a mark of it stands there.** -/
theorem nextTag?_painted_eq_none_iff {t : Text} :
    nextTag? Kind.name Kind.painted t 0 = none ↔ ¬ IsMarked t := by
  rw [nextTag?_eq_none_iff]
  simp only [tagPosition?_eq_none_iff, IsMarked, not_exists, not_and]
  rfl

/-- In a text without marks only definitions are found. -/
theorem kind_of_unmarked {t : Text} (ht : ¬ IsMarked t) {start : Int} {p : Nat} {kind : Kind}
    (h : nextTag? Kind.name Kind.all t start = some (p, kind)) : kind = .definitions := by
  obtain ⟨hkind, hposition⟩ := nextTag?_some h
  obtain ⟨mark, hmark, hstands⟩ := tagPosition?_stands hposition
  have hunpainted : kind ∉ Kind.painted := fun hpainted =>
    ht ⟨kind, hpainted, mark, hmark, hstands.isInfix.trans (List.drop_suffix _ _).isInfix⟩
  simpa [Kind.all, hunpainted] using hkind

end Markup

/-! ## 2. Scenes in which nothing is painted -/

namespace Scene

/-- A scene of notes alone, without groups and without a fault. -/
def IsQuiet : Scene → Prop
  | .done _ => True
  | .act (.note _) rest => rest.IsQuiet
  | .act (.paint _) _ | .failed _ | .group _ _ => False

/-- A scene of notes leaves the canvas as it is. -/
theorem IsQuiet.paintOnWith {s : Scene} (h : s.IsQuiet) (letters : Lettering) (c : Canvas) :
    s.paintOnWith letters c = .ok c := by
  induction s with
  | done stacked => rfl
  | act a rest ih =>
    cases a with
    | note r => exact ih h
    | paint p => exact h.elim
  | failed fault => exact h.elim
  | group body rest _ _ => exact h.elim

/-- Notes in front of a scene of notes leave a scene of notes. -/
theorem isQuiet_ofReading_notes {α : Type} {j : Journal Record α} {a : α} {next : α → Scene}
    (ha : j.outcome = .ok a) (hnext : (next a).IsQuiet) :
    (ofReading (j.mapEntries .note) next).IsQuiet := by
  obtain ⟨rs, r⟩ := j
  subst ha
  induction rs with
  | nil => exact hnext
  | cons r rs ih => exact ih

/-- **In a document without marks only definitions are read, and they paint nothing.** -/
theorem isQuiet_readFrom {doc : Document} (ht : ¬ Markup.IsMarked doc.text) (steps : Int)
    (readBody : (body : Text) → Markup.depth body < Markup.depth doc.text → Scene)
    (stacked : Int) (position : Nat) :
    (readFrom steps doc readBody stacked position).IsQuiet := by
  fun_induction readFrom steps doc readBody stacked position with
  | case1 => exact True.intro
  | case2 stacked position p kind hNext hPosition hResume ihBody ihRest =>
    obtain rfl := Markup.kind_of_unmarked ht hNext
    -- Definitions are neither a group nor do they leave acts, so only the rest is there.
    exact ihRest stacked

theorem isQuiet_read {source : Text} {width height : Int} {doc : Document}
    (hdoc : (Document.ofText source width height).outcome = .ok doc)
    (ht : ¬ Markup.IsMarked doc.text) (steps : Int) :
    (read width height steps source).IsQuiet := by
  unfold read
  split
  · rename_i fault hfault
    cases hdoc.symm.trans hfault
  · rename_i doc' hdoc'
    cases hdoc.symm.trans hdoc'
    exact isQuiet_ofReading_notes hdoc (isQuiet_readFrom ht steps _ 0 0)

end Scene

/-! ## 3. Renderings -/

open Number (overflow lt_overflow)

/-- **A text without marks leaves a blank canvas.**  Let the references of a text be replaced.  What
paints is then found in the text exactly if one of its marks stands there; and if none does, the
text has a rendering on a device of any size, and the canvas of the rendering is blank, whatever
else the text holds. -/
theorem blank_of_unmarked (letters : Lettering) (frame : Frame) {source text : Text}
    (hw : 0 ≤ frame.width) (hw' : (frame.width : ℚ) < overflow) (hh : 0 ≤ frame.height)
    (hh' : (frame.height : ℚ) < overflow)
    (htext : (Markup.expand (Markup.definitions source) source).outcome = .ok text) :
    (Markup.nextTag? Markup.Kind.name Markup.Kind.painted text 0 = none ↔
      ¬ Markup.IsMarked text) ∧
    (¬ Markup.IsMarked text →
      ∃ r, Rendering.ofTextWith letters frame source = .ok r ∧
        r.canvas = Canvas.blank frame.width.toNat frame.height.toNat) := by
  refine ⟨Markup.nextTag?_painted_eq_none_iff, fun hunmarked => ?_⟩
  have hside : ∀ {side : ℤ}, 0 ≤ side → (side : ℚ) < overflow →
      ∃ x, Number.ofWhole side = .ok x := by
    intro side hpos hlt
    have habs : |(side : ℚ)| < overflow := by rwa [abs_of_nonneg (by exact_mod_cast hpos)]
    obtain ⟨x, hx, -⟩ := Number.ofWhole_of_lt habs
    exact ⟨x, hx⟩
  obtain ⟨x, hx⟩ := hside hw hw'
  obtain ⟨y, hy⟩ := hside hh hh'
  obtain ⟨sides, -, hdoc⟩ := Document.ofText_outcome htext hx hy
  have hblank : Canvas.ofSize frame.width frame.height =
      .ok (Canvas.blank frame.width.toNat frame.height.toNat) := by
    simp only [Canvas.ofSize]
    rw [if_neg (by omega)]
  have hquiet := Scene.isQuiet_read hdoc (by cases sides <;> exact hunmarked) frame.steps
  have hpaint := hquiet.paintOnWith letters (Canvas.blank frame.width.toNat frame.height.toNat)
  exact ⟨_, bind_ok hdoc (bind_ok hblank (bind_ok hpaint rfl)), rfl⟩

/-- A document in which the names of shapes are only words, and a reference leads nowhere. -/
def shapesNamed : Text :=
  "<svg viewBox=\"0 0 4 4\"><a rect=\"circle: b\"/>a line<use href=\"#g\"/></svg>".toList

/-- Names that are not behind a mark paint nothing. -/
theorem blank_of_unmarked_shapesNamed :
    (0 : ℤ) ≤ 3 ∧ ((3 : ℤ) : ℚ) < overflow ∧ (0 : ℤ) ≤ 2 ∧ ((2 : ℤ) : ℚ) < overflow ∧
    ∃ text, (Markup.expand (Markup.definitions shapesNamed) shapesNamed).outcome = .ok text ∧
      Markup.nextTag? Markup.Kind.name Markup.Kind.painted text 0 = none ∧
      ∃ r, Rendering.ofTextWith .blocks ⟨3, 2, 5⟩ shapesNamed = .ok r ∧
        r.canvas = Canvas.blank 3 2 := by
  have hlt : ∀ {n : ℤ}, |n| ≤ 2 ^ 53 → (n : ℚ) < overflow := fun {n} hn =>
    (le_abs_self _).trans_lt (lt_overflow (by exact_mod_cast hn))
  have hw : ((3 : ℤ) : ℚ) < overflow := hlt (by decide)
  have hh : ((2 : ℤ) : ℚ) < overflow := hlt (by decide)
  obtain ⟨text, htext⟩ := Markup.expand_total (Markup.definitions shapesNamed) shapesNamed
  have hfound : (Markup.expand (Markup.definitions shapesNamed) shapesNamed).outcome.map
      (Markup.nextTag? Markup.Kind.name Markup.Kind.painted · 0) = .ok none := by decide +kernel
  rw [htext] at hfound
  have hnone : Markup.nextTag? Markup.Kind.name Markup.Kind.painted text 0 = none :=
    Except.ok.inj hfound
  obtain ⟨hiff, hblank⟩ := blank_of_unmarked .blocks ⟨3, 2, 5⟩ (by decide) hw (by decide) hh
    htext
  exact ⟨by decide, hw, by decide, hh, text, htext, hnone, hblank (hiff.mp hnone)⟩

/-! ## 4. Texts without tags -/

namespace Markup

/-- The name of a tag, from what stands behind its `<`. -/
def tagName (rest : Text) : Text := rest.takeWhile isNameChar

/-- A text has a tag of a name, with a namespace in front of it or without. -/
def HasTag (t name : Text) : Prop :=
  ∃ s ∈ t.tails, s.head? = some '<' ∧
    (tagName s.tail = name ∨ (':' :: name) <:+ tagName s.tail)

instance (t name : Text) : Decidable (HasTag t name) :=
  inferInstanceAs (Decidable (∃ s ∈ t.tails, _ ∧ (_ ∨ _)))

/-- A text has no tag that paints. -/
def Untagged (t : Text) : Prop :=
  ∀ kind ∈ Kind.painted, ¬ HasTag t kind.name ∧ ¬ HasTag t kind.name.upper

instance (t : Text) : Decidable (Untagged t) :=
  inferInstanceAs (Decidable (∀ kind ∈ Kind.painted, ¬ HasTag t kind.name ∧ _))

end Markup

/-- A gradient, whose name is longer than that of a line. -/
def gradient : Text := "<linearGradient x2=\"9\"/>".toList

/-- A link with a colon in its target. -/
def colonInTarget : Text := "<a href=\"b:line\" x2=\"9\"/>".toList

/-- A reference to nothing between the two halves of a name. -/
def splitName : Text := "<li<use/>ne x2=\"9\"/>".toList

/-- A text without tags that paint need not leave a blank canvas.  Three that do not have a longer
name, a colon in an attribute, and a name that is only there once the references are replaced. -/
theorem untagged_text_painted :
    (¬ ∀ (source : Text) (width height : ℤ), 0 < width → width ≤ 2 ^ 15 → 0 < height →
      height ≤ 2 ^ 15 → Markup.Untagged source →
      ∃ r, Rendering.ofText (.ofSize width height none) source = .ok r ∧
        r.canvas = Canvas.blank width.toNat height.toNat) ∧
    ∀ source ∈ [gradient, colonInTarget, splitName], Markup.Untagged source ∧
      ∃ r, Rendering.ofText (.ofSize 2 1 none) source = .ok r ∧ r.canvas.get (0, 0) = 1 := by
  have hpainted : ∀ {r : Except Fault Rendering}, r.map (fun r => r.canvas.get (0, 0)) = .ok 1 →
      ∃ s, r = .ok s ∧ s.canvas.get (0, 0) = 1 := by
    intro r h
    cases r with
    | error fault => cases h
    | ok s => exact ⟨s, rfl, Except.ok.inj h⟩
  have hcase : ∀ source ∈ [gradient, colonInTarget, splitName], Markup.Untagged source ∧
      (Rendering.ofText (.ofSize 2 1 none) source).map (fun r => r.canvas.get (0, 0)) = .ok 1 := by
    decide +kernel
  refine ⟨fun h => ?_, fun source hsource => ⟨(hcase source hsource).1,
    hpainted (hcase source hsource).2⟩⟩
  obtain ⟨huntagged, hink⟩ := hcase gradient (by simp)
  obtain ⟨r, hr, hblank⟩ := h gradient 2 1 (by decide) (by decide) (by decide) (by decide)
    huntagged
  obtain ⟨s, hs, hget⟩ := hpainted hink
  cases hr.symm.trans hs
  rw [hblank, Canvas.get_blank] at hget
  cases hget

end VectorPaint
