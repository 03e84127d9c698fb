/-
# What a text element leaves

A text element that is closed has a caption: the text of its tag, and what stands between the tag
and the closer.  Its element leaves one text to be painted.  Where both of its coordinates are
carried across to zero, the text is stacked below the texts that were stacked before it, and the
stack grows by the height of its letters, which are those that it is painted in.  Any other text
is painted where its coordinates say, and leaves the stack as it was (`IsPrinted`).

No other element leaves a text or has to do with the stack: `read_leaves`.
-/
import VectorPaint.Proofs.Faults
import VectorPaint.Proofs.Marks

namespace VectorPaint

open Number

/-! ## 1. Patterns, fonts and coordinates -/

/-- With a pattern all parts of it are found. -/
theorem Text.isSome_find?_of_infix {part pattern t : Text} {start : ℕ} (hpart : part ≠ [])
    (hpartOf : part <:+: pattern) (h : (find? pattern t start).isSome) :
    (find? part t start).isSome := by
  have hpattern : pattern ≠ [] := by
    rintro rfl
    exact hpart (List.infix_nil.mp hpartOf)
  by_contra hnone
  rw [Option.not_isSome_iff_eq_none, find?_eq_none_iff hpart] at hnone
  rw [Option.isSome_iff_ne_none, ne_eq, find?_eq_none_iff hpattern, not_not] at h
  exact hnone (hpartOf.trans h)

namespace Font

/-- What holds of all fonts to choose from holds of the one that is chosen. -/
theorem foldl_nearer {P : Font → Prop} {size : Float} {fs : List (Float × Font)}
    {best chosen : Option (Float × Font)} (hfs : ∀ f ∈ fs, P f.2) (hbest : ∀ f ∈ best, P f.2)
    (hchosen : fs.foldl (nearer size) best = chosen) : ∀ f ∈ chosen, P f.2 := by
  induction fs generalizing best with
  | nil => exact hchosen ▸ hbest
  | cons next rest ih =>
    have hnext : P next.2 := hfs next List.mem_cons_self
    refine ih (fun f hf => hfs f (List.mem_cons_of_mem _ hf)) ?_ hchosen
    intro f hf
    simp only [nearer] at hf
    split at hf
    · cases hf
      exact hnext
    · split at hf
      · cases hf
        exact hnext
      · cases hf
        exact hbest _ rfl

/-- **The letters of every font have a height.** -/
theorem charHeight_ofSize_pos (size : Float) : 0 < (ofSize size).charHeight := by
  have hmedium : 0 < medium.charHeight := by decide
  have hsizes : ∀ f ∈ sizes, 0 < f.2.charHeight := by simp [sizes, small, medium, large]
  simp only [ofSize]
  split
  · split
    · rename_i least font hchosen
      exact foldl_nearer (P := fun f => 0 < f.charHeight) hsizes (by simp) hchosen _ rfl
    · exact hmedium
  · exact hmedium

end Font

namespace Coord

variable {a : Coord}

/-- Of the coordinates that a viewport gives only the whole number zero is zero. -/
theorem IsSettled.sameNumber_zero_iff (h : a.IsSettled) :
    a.sameNumber (.whole 0) = true ↔ a = .whole 0 := by
  cases a with
  | whole n =>
    simp only [sameNumber, compare?]
    rw [beq_iff_eq, Option.some_inj, Std.LawfulEqCmp.compare_eq_iff_eq, whole.injEq]
  | real x =>
    refine iff_of_false ?_ (by simp)
    simp only [sameNumber, compare?]
    cases hnan : x.isNaN with
    | true =>
      simp only [compareWhole?]
      rw [if_pos hnan]
      decide
    | false =>
      rcases compareWhole?_of_not_isFinite hnan h with hside | hside <;> rw [hside] <;> decide

end Coord

/-! ## 2. Texts among acts -/

/-- The text that an act paints, if it paints one. -/
def Act.text? : Act → Option Paint
  | .paint ⟨.text content x y font, color⟩ => some ⟨.text content x y font, color⟩
  | _ => none

/-- An act that paints no text. -/
def Act.IsTextless (a : Act) : Prop := a.text? = none

/-- The texts that a reading leaves. -/
def Journal.texts {α : Type} (j : Journal Act α) : List Paint := j.entries.filterMap Act.text?

namespace Journal

variable {α β : Type} {j : Journal Act α} {f : α → Journal Act β}

theorem texts_of_textless (h : j.All Act.IsTextless) : j.texts = [] :=
  List.filterMap_eq_nil_iff.mpr h

theorem texts_bind {a : α} (h : j.outcome = .ok a) : (j >>= f).texts = j.texts ++ (f a).texts := by
  obtain ⟨es, r⟩ := j
  cases h
  exact List.filterMap_append

theorem outcome_bind {a : α} (h : j.outcome = .ok a) :
    (j >>= f).outcome = (f a).outcome := by
  obtain ⟨es, r⟩ := j
  cases h
  rfl

end Journal

/-! ## 3. Elements without texts -/

namespace Element

open Markup (Kind numberOf)

variable {v : Viewport} {stacked n : ℤ}

theorem number_textless (tag name : Text) : (number tag name).All Act.IsTextless := by
  simp only [number]
  rw [Journal.all_mapEntries]
  exact fun r _ => rfl

theorem paint_textless {shape : Shape} {color : ℤ} (h : Act.IsTextless (.paint ⟨shape, color⟩)) :
    (paint shape color).All Act.IsTextless := Journal.all_enter.mpr h

theorem lineBetween_textless {x0 y0 x1 y1 : Float} {shape : Shape}
    (h : lineBetween v x0 y0 x1 y1 = .ok shape) (color : ℤ) :
    Act.IsTextless (.paint ⟨shape, color⟩) := by
  obtain ⟨start, -, h⟩ := of_bind_ok h
  obtain ⟨stop, -, h⟩ := of_bind_ok h
  cases h
  rfl

theorem rect_textless (v : Viewport) (tag : Text) : (rect v tag).All Act.IsTextless := by
  simp only [rect]
  refine (number_textless _ _).bind fun x _ => (number_textless _ _).bind fun y _ =>
    (number_textless _ _).bind fun w _ => (number_textless _ _).bind fun h _ => ?_
  refine (Journal.all_lift _).bind fun _ _ => (Journal.all_lift _).bind fun _ _ =>
    (Journal.all_lift _).bind fun _ _ => (Journal.all_lift _).bind fun _ _ => ?_
  exact paint_textless rfl

theorem circle_textless (v : Viewport) (tag : Text) : (circle v tag).All Act.IsTextless := by
  simp only [circle]
  refine (number_textless _ _).bind fun cx _ => (number_textless _ _).bind fun cy _ =>
    (number_textless _ _).bind fun r _ => ?_
  refine (Journal.all_lift _).bind fun _ _ => (Journal.all_lift _).bind fun _ _ =>
    (Journal.all_lift _).bind fun _ _ => ?_
  exact paint_textless rfl

theorem line_textless (v : Viewport) (tag : Text) : (line v tag).All Act.IsTextless := by
  simp only [line]
  refine (number_textless _ _).bind fun x1 _ => (number_textless _ _).bind fun y1 _ =>
    (number_textless _ _).bind fun x2 _ => (number_textless _ _).bind fun y2 _ => ?_
  exact (Journal.all_lift _).bind fun _ h => paint_textless (lineBetween_textless h _)

theorem rows_textless (v : Viewport) (e : Ellipse) (whole color : ℤ) (rows : List ℤ) :
    (Ellipse.rows v e whole color rows).All Act.IsTextless := by
  induction rows with
  | nil => exact Journal.all_pure _
  | cons row rest ih =>
    simp only [Ellipse.rows]
    refine (Journal.all_lift _).bind ?_
    intro y _
    split
    · exact Journal.all_pure _
    · refine (Journal.all_lift _).bind ?_
      intro shape h
      obtain ⟨a, b, z, rfl, -⟩ := Ellipse.of_rowLine h
      have hline : Act.IsTextless (.paint ⟨.line (a, z) (b, z), color⟩) := rfl
      exact (paint_textless hline).bind fun _ _ => ih

theorem ellipse_textless (v : Viewport) (tag : Text) : (ellipse v tag).All Act.IsTextless := by
  simp only [ellipse]
  refine (number_textless _ _).bind fun cx _ => (number_textless _ _).bind fun cy _ =>
    (number_textless _ _).bind fun rx _ => (number_textless _ _).bind fun ry _ => ?_
  simp only [Ellipse.acts]
  split
  · refine (Journal.all_lift _).bind fun whole _ => (Journal.all_lift _).bind ?_
    intro _ _
    exact rows_textless _ _ _ _ _
  · exact Journal.all_pure _

theorem drawJoins_textless (v : Viewport) (color : ℤ) (js : List Join) :
    (drawJoins v color js).All Act.IsTextless := by
  induction js with
  | nil => exact Journal.all_pure _
  | cons j rest ih =>
    simp only [drawJoins]
    refine (Journal.all_lift _).bind ?_
    intro shape h
    exact (paint_textless (lineBetween_textless h _)).bind fun _ _ => ih

theorem path_textless (v : Viewport) (steps : ℤ) (tag : Text) :
    (path v steps tag).All Act.IsTextless := by
  refine Journal.All.bind ?_ fun _ _ => Journal.all_pure _
  intro a ha
  obtain ⟨event, -, he⟩ := List.mem_filterMap.mp ha
  cases event with
  | drawn s =>
    cases he
    rfl
  | done command relative taken pen => cases he
  | unsupported name =>
    cases he
    rfl

theorem read_textless (v : Viewport) (steps stacked : ℤ) (t : Text) (p : ℕ) {kind : Kind}
    (hkind : kind ≠ .text) : (read v steps stacked t p kind).All Act.IsTextless := by
  cases kind with
  | rect => exact (rect_textless _ _).bind fun _ _ => Journal.all_pure _
  | circle => exact (circle_textless _ _).bind fun _ _ => Journal.all_pure _
  | line => exact (line_textless _ _).bind fun _ _ => Journal.all_pure _
  | ellipse => exact (ellipse_textless _ _).bind fun _ _ => Journal.all_pure _
  | polyline | polygon => exact (drawJoins_textless _ _ _).bind fun _ _ => Journal.all_pure _
  | path => exact (path_textless _ _ _).bind fun _ _ => Journal.all_pure _
  | text => exact absurd rfl hkind
  | group | definitions => exact Journal.all_pure _

/-- An element that is no text leaves the stack as it was. -/
theorem stacked_of_read {steps : ℤ} {t : Text} {p : ℕ} {kind : Kind} (hkind : kind ≠ .text)
    (h : (read v steps stacked t p kind).outcome = .ok n) : n = stacked := by
  cases kind with
  | rect | circle | line | ellipse | polyline | polygon | path =>
    obtain ⟨_, -, hn⟩ := Journal.outcome_bind_eq_ok.mp h
    cases hn
    rfl
  | text => exact absurd rfl hkind
  | group | definitions =>
    cases h
    rfl

/-! ## 4. Captions -/

/-- The tag and the content of a closed text element. -/
abbrev Caption := Text × Text

/-- The caption of an element, if it is a closed text element. -/
def caption? (t : Text) (p : ℕ) (kind : Kind) : Option Caption :=
  if kind = .text then textParts? t p else none

/-- **A text element has a caption if its closer follows.** -/
theorem isSome_caption?_iff (t : Text) (p : ℕ) (kind : Kind) :
    (caption? t p kind).isSome ↔ kind = .text ∧ (Text.find? textCloser t p).isSome := by
  simp only [caption?]
  split
  · rename_i hkind
    rw [and_iff_right hkind]
    cases hstop : Text.find? textCloser t p with
    | none =>
      simp only [textParts?]
      rw [hstop]
      rfl
    | some stop =>
      -- The closer ends with what ends a tag.
      have hcloser : (Text.find? textCloser t p).isSome := by
        rw [hstop]
        rfl
      have htagStop : (Text.find? ['>'] t p).isSome :=
        Text.isSome_find?_of_infix (by decide) (by decide) hcloser
      obtain ⟨tagStop, htagStop⟩ := Option.isSome_iff_exists.mp htagStop
      simp only [textParts?]
      rw [hstop, htagStop]
      exact iff_of_true rfl rfl
  · rename_i hkind
    exact iff_of_false (by decide) fun h => hkind h.1

/-- The font of a caption's letters. -/
def fontOf (tag : Text) : Font :=
  Font.ofSize (numberOf tag ['f', 'o', 'n', 't', '-', 's', 'i', 'z', 'e'])

/-- Both coordinates of a text are carried across to zero. -/
def IsStacked (v : Viewport) (tag : Text) : Prop :=
  v.scaleX (.real (numberOf tag ['x'])) = .ok (.whole 0) ∧
    v.scaleY (.real (numberOf tag ['y'])) = .ok (.whole 0)

instance (v : Viewport) (tag : Text) : Decidable (IsStacked v tag) :=
  inferInstanceAs (Decidable (_ ∧ _))

/-- By how much a caption makes the stack grow. -/
def growth (v : Viewport) (e : Caption) : ℤ :=
  if IsStacked v e.1 then (fontOf e.1).charHeight else 0

/-- **How a caption is painted** below a stack of the given height: on the left of the device right
below the stack, or where its own coordinates say. -/
structure IsPrinted (v : Viewport) (stacked : ℤ) (e : Caption) (p : Paint) : Prop where
  of_isStacked : IsStacked v e.1 →
    p = ⟨.text e.2 (.whole 0) (.whole stacked) (fontOf e.1), fill e.1⟩
  of_not_isStacked : ¬ IsStacked v e.1 →
    ∃ x y, v.scaleX (.real (numberOf e.1 ['x'])) = .ok x ∧
      v.scaleY (.real (numberOf e.1 ['y'])) = .ok y ∧
      p = ⟨.text e.2 x y (fontOf e.1), fill e.1⟩

/-- Reading a number leaves no text. -/
theorem texts_number_bind {α : Type} {tag name : Text} {f : Float → Journal Act α} :
    (number tag name >>= f).texts = (f (numberOf tag name)).texts := by
  have hnumber : (number tag name).outcome = .ok (numberOf tag name) :=
    Markup.attributeNumber_outcome tag name
  rw [Journal.texts_bind hnumber, Journal.texts_of_textless (number_textless tag name),
    List.nil_append]

theorem outcome_number_bind {α : Type} {tag name : Text} {f : Float → Journal Act α} :
    (number tag name >>= f).outcome = (f (numberOf tag name)).outcome :=
  Journal.outcome_bind (Markup.attributeNumber_outcome tag name)

/-- A text counts as standing at the origin if both of its coordinates are carried across to the
whole number zero. -/
theorem isStacked_iff {tag : Text} {x y : Coord}
    (hx : v.scaleX (.real (numberOf tag ['x'])) = .ok x)
    (hy : v.scaleY (.real (numberOf tag ['y'])) = .ok y) :
    (x.sameNumber (.whole 0) && y.sameNumber (.whole 0)) = true ↔ IsStacked v tag := by
  rw [Bool.and_eq_true, (Viewport.settled_of_scale hx).sameNumber_zero_iff,
    (Viewport.settled_of_scale hy).sameNumber_zero_iff, IsStacked, hx, hy, Except.ok.injEq,
    Except.ok.injEq]

/-- **A closed text element leaves its text,** and the stack grows with it if it is stacked. -/
theorem text_leaves {e : Caption} (h : (text v stacked e.1 e.2).outcome = .ok n) :
    ∃ p, IsPrinted v stacked e p ∧ (text v stacked e.1 e.2).texts = [p] ∧
      n = stacked + growth v e := by
  simp only [text] at h ⊢
  rw [outcome_number_bind] at h
  obtain ⟨x, hx, h⟩ := Journal.outcome_bind_eq_ok.mp h
  rw [outcome_number_bind] at h
  obtain ⟨y, hy, h⟩ := Journal.outcome_bind_eq_ok.mp h
  rw [outcome_number_bind] at h
  have hcondition := isStacked_iff hx hy
  obtain ⟨_, -, h⟩ := Journal.outcome_bind_eq_ok.mp h
  cases h
  rw [texts_number_bind, Journal.texts_bind hx, texts_number_bind, Journal.texts_bind hy,
    texts_number_bind]
  refine ⟨_, ⟨fun hstacked => ?_, fun hplaced => ?_⟩, rfl, ?_⟩
  · cases Except.ok.inj (hx.symm.trans hstacked.1)
    rw [if_pos (hcondition.mpr hstacked)]
    rfl
  · refine ⟨x, y, hx, hy, ?_⟩
    rw [if_neg (hcondition.not.mpr hplaced)]
    rfl
  · simp only [growth]
    by_cases hstacked : IsStacked v e.1
    · rw [if_pos (hcondition.mpr hstacked), if_pos hstacked]
      rfl
    · rw [if_neg (hcondition.not.mpr hstacked), if_neg hstacked, add_zero]

/-- **What an element leaves.**  A closed text element leaves its text and lets the stack grow.
Every other element leaves no text and the stack as it was. -/
theorem read_leaves {steps : ℤ} {t : Text} {p : ℕ} {kind : Kind}
    (h : (read v steps stacked t p kind).outcome = .ok n) :
    (∀ e, caption? t p kind = some e → ∃ paint, IsPrinted v stacked e paint ∧
      (read v steps stacked t p kind).texts = [paint] ∧ n = stacked + growth v e) ∧
    (caption? t p kind = none → (read v steps stacked t p kind).texts = [] ∧ n = stacked) := by
  by_cases hkind : kind = .text
  · subst hkind
    simp only [read] at h ⊢
    change (∀ e, textParts? t p = some e → _) ∧ (textParts? t p = none → _)
    cases hparts : textParts? t p with
    | none =>
      rw [hparts] at h
      cases h
      refine ⟨?_, fun _ => ⟨rfl, rfl⟩⟩
      rintro e ⟨⟩
    | some e =>
      rw [hparts] at h
      refine ⟨?_, ?_⟩
      · rintro _ ⟨⟩
        exact text_leaves h
      · rintro ⟨⟩
  · refine ⟨fun e he => ?_, fun _ => ?_⟩
    · simp only [caption?] at he
      rw [if_neg hkind] at he
      cases he
    · exact ⟨Journal.texts_of_textless (read_textless v steps stacked t p hkind),
        stacked_of_read hkind h⟩

end Element

end VectorPaint
