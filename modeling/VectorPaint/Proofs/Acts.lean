/-
# What readings leave

A reading leaves acts: notes, and shapes in a color.  Two things hold of every act that an element
leaves, whatever its tag says.  A shape is in one of the fifteen colors of the palette, so nothing
is ever painted in the transparent index.  And a note is about the tag's values: that a tag was
found is noted by the reading of the document alone, once for each tag.

`Journal.All` says of a reading that its entries have a property, `Scene.Holds` says it of a scene
with its groups, and `Scene.holds_read` carries a property of all elements over to the scene of a
text.
-/
import VectorPaint.Scene.Reading

namespace VectorPaint

/-! ## 1. Entries of a journal -/

namespace Journal

variable {ε δ α β : Type} {P : ε → Prop}

/-- Every entry has the property. -/
def All (P : ε → Prop) (j : Journal ε α) : Prop := ∀ e ∈ j.entries, P e

@[simp] theorem all_mk {es : List ε} {r : Except Fault α} :
    (⟨es, r⟩ : Journal ε α).All P ↔ ∀ e ∈ es, P e := Iff.rfl

theorem all_pure (a : α) : (pure a : Journal ε α).All P := by
  intro e he
  cases he

theorem all_lift (r : Except Fault α) : (liftM r : Journal ε α).All P := by
  intro e he
  cases he

@[simp] theorem all_enter {e : ε} : (enter e).All P ↔ P e := by
  simp [enter]

@[simp] theorem all_mapEntries {P : δ → Prop} {f : ε → δ} {j : Journal ε α} :
    (j.mapEntries f).All P ↔ j.All fun e => P (f e) := by
  simp [mapEntries, All]

/-- The entries of a composed computation are those of its parts. -/
theorem All.bind {j : Journal ε α} {f : α → Journal ε β} (hj : j.All P)
    (hf : ∀ a, j.outcome = .ok a → (f a).All P) : (j >>= f).All P := by
  obtain ⟨es, r⟩ := j
  cases r with
  | error fault => exact hj
  | ok a =>
    intro e he
    rcases List.mem_append.mp he with he | he
    · exact hj e he
    · exact hf a rfl e he

end Journal

/-! ## 2. Colors of the palette -/

namespace Palette

/-- The nearer of two entries is one of them. -/
theorem nearer_snd (color : Rgb) (best : Int × Nat) (entry : Rgb × Nat) :
    (nearer color best entry).2 = best.2 ∨ (nearer color best entry).2 = entry.2 := by
  unfold nearer
  dsimp only
  split
  · exact Or.inr rfl
  · exact Or.inl rfl

/-- Whatever entries are compared, the index chosen is the one before or an entry's. -/
theorem foldl_nearer_snd (color : Rgb) (es : List (Rgb × Nat)) (best : Int × Nat) :
    (es.foldl (nearer color) best).2 = best.2 ∨
      ∃ entry ∈ es, (es.foldl (nearer color) best).2 = entry.2 := by
  induction es generalizing best with
  | nil => exact Or.inl rfl
  | cons entry es ih =>
    rw [List.foldl_cons]
    rcases ih (nearer color best entry) with h | ⟨other, ho, h⟩
    · rcases nearer_snd color best entry with hb | hb
      · exact Or.inl (h.trans hb)
      · exact Or.inr ⟨entry, List.mem_cons_self, h.trans hb⟩
    · exact Or.inr ⟨other, List.mem_cons_of_mem _ ho, h⟩

/-- **A color's text is never read as the transparent index.** -/
theorem quantize_range (t : Text) : 1 ≤ quantize t ∧ quantize t ≤ 15 := by
  have hentries : ∀ entry ∈ entries, 1 ≤ entry.2 ∧ entry.2 ≤ 15 := by decide
  simp only [quantize]
  split
  · rename_i color _
    rcases foldl_nearer_snd color entries (unreachable, default) with h | ⟨entry, he, h⟩
    · rw [nearest, h]
      decide
    · rw [nearest, h]
      exact hentries entry he
  · decide

end Palette

/-! ## 3. Acts of an element -/

/-- A color that stands for an entry of the palette. -/
def Paint.IsInked (p : Paint) : Prop := 1 ≤ p.color ∧ p.color ≤ 15

/-- An act that paints in a color of the palette, if it paints. -/
def Act.IsInked : Act → Prop
  | .note _ => True
  | .paint p => p.IsInked

/-- An act that an element may leave: a note about its values, or a shape in a color of the
palette. -/
def Act.IsOrdinary : Act → Prop
  | .note r => ∀ name position, r ≠ .tagFound name position
  | .paint p => p.IsInked

theorem Act.IsOrdinary.isInked {a : Act} (h : a.IsOrdinary) : a.IsInked := by
  cases a with
  | note r => exact True.intro
  | paint p => exact h

namespace Element

theorem fill_inked (shape : Shape) (tag : Text) : Paint.IsInked ⟨shape, fill tag⟩ := by
  have := Palette.quantize_range (Markup.attributeText tag ['f', 'i', 'l', 'l'])
  unfold Paint.IsInked fill Palette.ofAttribute
  dsimp only
  omega

theorem stroke_inked (shape : Shape) (tag : Text) : Paint.IsInked ⟨shape, stroke tag⟩ := by
  have := Palette.quantize_range (Markup.attributeText tag ['s', 't', 'r', 'o', 'k', 'e'])
  unfold Paint.IsInked stroke Palette.ofAttribute
  dsimp only
  omega

/-- Reading a number notes at most that it is none. -/
theorem number_ordinary (tag name : Text) : (number tag name).All Act.IsOrdinary := by
  unfold number Markup.attributeNumber
  rw [Journal.all_mapEntries]
  dsimp only
  split
  · exact Journal.all_pure _
  · split
    · refine Journal.All.bind (Journal.all_enter.mpr ?_) fun _ _ => Journal.all_pure _
      intro _ _ h
      cases h
    · exact Journal.all_pure _

theorem paint_ordinary {shape : Shape} {color : Int} (h : Paint.IsInked ⟨shape, color⟩) :
    (paint shape color).All Act.IsOrdinary := Journal.all_enter.mpr h

theorem rect_ordinary (v : Viewport) (tag : Text) : (rect v tag).All Act.IsOrdinary := by
  simp only [rect]
  refine (number_ordinary _ _).bind fun x _ => (number_ordinary _ _).bind fun y _ =>
    (number_ordinary _ _).bind fun w _ => (number_ordinary _ _).bind fun h _ => ?_
  refine (Journal.all_lift _).bind fun _ _ => (Journal.all_lift _).bind fun _ _ =>
    (Journal.all_lift _).bind fun _ _ => (Journal.all_lift _).bind fun _ _ => ?_
  exact paint_ordinary (fill_inked _ _)

theorem circle_ordinary (v : Viewport) (tag : Text) : (circle v tag).All Act.IsOrdinary := by
  simp only [circle]
  refine (number_ordinary _ _).bind fun cx _ => (number_ordinary _ _).bind fun cy _ =>
    (number_ordinary _ _).bind fun r _ => ?_
  refine (Journal.all_lift _).bind fun _ _ => (Journal.all_lift _).bind fun _ _ =>
    (Journal.all_lift _).bind fun _ _ => ?_
  exact paint_ordinary (fill_inked _ _)

theorem line_ordinary (v : Viewport) (tag : Text) : (line v tag).All Act.IsOrdinary := by
  simp only [line]
  refine (number_ordinary _ _).bind fun x1 _ => (number_ordinary _ _).bind fun y1 _ =>
    (number_ordinary _ _).bind fun x2 _ => (number_ordinary _ _).bind fun y2 _ => ?_
  exact (Journal.all_lift _).bind fun _ _ => paint_ordinary (stroke_inked _ _)

/-- Each row of an ellipse leaves one line in the ellipse's color. -/
theorem rows_ordinary (v : Viewport) (e : Ellipse) (whole color : Int)
    (h : ∀ shape, Paint.IsInked ⟨shape, color⟩) (rows : List Int) :
    (Ellipse.rows v e whole color rows).All Act.IsOrdinary := by
  induction rows with
  | nil => exact Journal.all_pure _
  | cons row rest ih =>
    simp only [Ellipse.rows]
    refine (Journal.all_lift _).bind ?_
    intro y _
    split
    · exact Journal.all_pure _
    · refine (Journal.all_lift _).bind ?_
      intro shape _
      exact (paint_ordinary (h shape)).bind fun _ _ => ih

theorem ellipse_ordinary (v : Viewport) (tag : Text) : (ellipse v tag).All Act.IsOrdinary := by
  simp only [ellipse]
  refine (number_ordinary _ _).bind fun cx _ => (number_ordinary _ _).bind fun cy _ =>
    (number_ordinary _ _).bind fun rx _ => (number_ordinary _ _).bind fun ry _ => ?_
  simp only [Ellipse.acts]
  split
  · refine (Journal.all_lift _).bind fun whole _ => (Journal.all_lift _).bind ?_
    intro _ _
    exact rows_ordinary _ _ _ _ (fun shape => fill_inked shape tag) _
  · exact Journal.all_pure _

theorem drawJoins_ordinary (v : Viewport) (color : Int)
    (h : ∀ shape, Paint.IsInked ⟨shape, color⟩) (js : List Join) :
    (drawJoins v color js).All Act.IsOrdinary := by
  induction js with
  | nil => exact Journal.all_pure _
  | cons j rest ih =>
    simp only [drawJoins]
    refine (Journal.all_lift _).bind ?_
    intro shape _
    exact (paint_ordinary (h shape)).bind fun _ _ => ih

theorem poly_ordinary (v : Viewport) (closed : Bool) (tag : Text) :
    (poly v closed tag).All Act.IsOrdinary :=
  drawJoins_ordinary v _ (fun shape => stroke_inked shape tag) _

/-- A path leaves its lines in one color, and a note for each command it does not know. -/
theorem ofRun_ordinary {color : Int} (h : ∀ shape, Paint.IsInked ⟨shape, color⟩)
    (j : Journal Path.Event Path.Progress) : (ofRun color j).All Act.IsOrdinary := by
  intro a ha
  obtain ⟨event, _, he⟩ := List.mem_filterMap.mp ha
  cases event with
  | drawn s =>
    cases he
    exact h _
  | done command relative taken pen => cases he
  | unsupported name =>
    cases he
    intro _ _ hr
    cases hr

theorem path_ordinary (v : Viewport) (steps : Int) (tag : Text) :
    (path v steps tag).All Act.IsOrdinary :=
  (ofRun_ordinary (fun shape => stroke_inked shape tag) _).bind fun _ _ => Journal.all_pure _

theorem text_ordinary (v : Viewport) (stacked : Int) (tag content : Text) :
    (text v stacked tag content).All Act.IsOrdinary := by
  simp only [text]
  refine (number_ordinary _ _).bind fun x _ => (Journal.all_lift _).bind fun _ _ =>
    (number_ordinary _ _).bind fun y _ => (Journal.all_lift _).bind fun _ _ =>
    (number_ordinary _ _).bind fun size _ => ?_
  exact (paint_ordinary (fill_inked _ _)).bind fun _ _ => Journal.all_pure _

/-- **Elements paint in the colors of the palette,** and leave no note that a tag was found. -/
theorem read_ordinary (v : Viewport) (steps stacked : Int) (t : Text) (p : Nat)
    (kind : Markup.Kind) : (read v steps stacked t p kind).All Act.IsOrdinary := by
  simp only [read]
  cases kind with
  | rect => exact (rect_ordinary _ _).bind fun _ _ => Journal.all_pure _
  | circle => exact (circle_ordinary _ _).bind fun _ _ => Journal.all_pure _
  | line => exact (line_ordinary _ _).bind fun _ _ => Journal.all_pure _
  | ellipse => exact (ellipse_ordinary _ _).bind fun _ _ => Journal.all_pure _
  | polyline => exact (poly_ordinary _ _ _).bind fun _ _ => Journal.all_pure _
  | polygon => exact (poly_ordinary _ _ _).bind fun _ _ => Journal.all_pure _
  | path => exact (path_ordinary _ _ _).bind fun _ _ => Journal.all_pure _
  | text =>
    dsimp only
    split
    · exact text_ordinary _ _ _ _
    · exact Journal.all_pure _
  | group => exact Journal.all_pure _
  | definitions => exact Journal.all_pure _

end Element

/-! ## 4. Acts of a scene -/

namespace Scene

open Markup (Kind)

variable {P : Act → Prop}

/-- Every act has the property, those of groups included. -/
def Holds (P : Act → Prop) : Scene → Prop
  | .done _ => True
  | .failed _ => True
  | .act a rest => P a ∧ rest.Holds P
  | .group body rest => body.Holds P ∧ rest.Holds P

/-- What a scene holds is what it lists. -/
theorem Holds.mem_acts {s : Scene} (h : s.Holds P) : ∀ a ∈ s.acts.1, P a := by
  induction s with
  | done stacked => intro a ha; cases ha
  | failed fault => intro a ha; cases ha
  | act a rest ih =>
    intro b hb
    rcases List.mem_cons.mp hb with rfl | hb
    · exact h.1
    · exact ih h.2 b hb
  | group body rest ihBody ihRest =>
    intro a ha
    simp only [acts] at ha
    split at ha
    · rename_i inner fault hb
      exact ihBody h.1 a (by rw [hb]; exact ha)
    · rename_i inner hb
      rcases List.mem_append.mp ha with ha | ha
      · exact ihBody h.1 a (by rw [hb]; exact ha)
      · exact ihRest h.2 a ha

/-- A reading in front of a scene adds the reading's entries. -/
theorem holds_ofReading {α : Type} {j : Journal Act α} {next : α → Scene} (hj : j.All P)
    (hnext : ∀ a, j.outcome = .ok a → (next a).Holds P) : (ofReading j next).Holds P := by
  obtain ⟨es, r⟩ := j
  simp only [ofReading]
  induction es with
  | nil =>
    cases r with
    | ok a => exact hnext a rfl
    | error fault => exact True.intro
  | cons e es ih =>
    refine ⟨hj e List.mem_cons_self, ih (fun e' he => hj e' (List.mem_cons_of_mem _ he)) hnext⟩

theorem holds_readFrom (hnote : ∀ r, P (.note r))
    (hread : ∀ v steps stacked t p kind, (Element.read v steps stacked t p kind).All P)
    (steps : Int) (doc : Document)
    (readBody : (body : Text) → Markup.depth body < Markup.depth doc.text → Scene)
    (hbody : ∀ body h, (readBody body h).Holds P) (stacked : Int) (position : Nat) :
    (readFrom steps doc readBody stacked position).Holds P := by
  fun_induction readFrom steps doc readBody stacked position with
  | case1 => exact True.intro
  | case2 stacked position p kind hNext hPosition hResume ihBody ihRest =>
    refine ⟨hnote _, ?_⟩
    split
    · rename_i body hBody
      exact ⟨hbody _ _, ihBody body⟩
    · exact holds_ofReading (hread _ _ _ _ _ _) fun stacked _ => ihRest stacked

/-- **What holds of all notes and of all that elements leave holds of the scene of a text.** -/
theorem holds_read (hnote : ∀ r, P (.note r))
    (hread : ∀ v steps stacked t p kind, (Element.read v steps stacked t p kind).All P)
    (width height steps : Int) (source : Text) : (read width height steps source).Holds P := by
  fun_induction read width height steps source with
  | case1 source fault hDoc =>
    exact holds_ofReading (Journal.all_mapEntries.mpr fun r _ => hnote r) fun _ _ => True.intro
  | case2 source doc hDoc ih =>
    refine holds_ofReading (Journal.all_mapEntries.mpr fun r _ => hnote r) ?_
    intro _ _
    exact holds_readFrom hnote hread steps doc _ ih 0 0

/-- **The scene of a text paints in the colors of the palette.** -/
theorem read_inked (width height steps : Int) (source : Text) :
    (read width height steps source).Holds Act.IsInked :=
  holds_read (fun _ => True.intro)
    (fun _ _ _ _ _ _ a ha => (Element.read_ordinary _ _ _ _ _ _ a ha).isInked) _ _ _ _

end Scene

end VectorPaint
