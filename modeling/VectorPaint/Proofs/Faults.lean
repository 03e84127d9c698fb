/-
# Which texts can be rendered

Markup that is malformed is left out and never a fault.  So a text should always have a rendering,
and almost every text has one: attributes of any size, points that lack a coordinate, paths of any
kind, tags without an end.  But arithmetic on the numbers of a document still meets a fault in four
places, and this module says exactly where (`rendering_ok_iff`).

Two of the places are in the reading of a tag: an ellipse whose vertical radius has a square of
zero (`Ellipse.IsFlat`), and a path that runs away (`Path.RunsAway`).  The other two are in the
painting of a shape: a disc whose center fits no machine word (`Shape.IsRemote`), and a text below
so many others that its place fits no float (`Shape.IsBuried`).
-/
import VectorPaint.Proofs.Paths
import VectorPaint.Proofs.Rows

namespace VectorPaint

/-! ## 1. Reading an element -/

namespace Markup

/-- The number that an attribute is read as, zero where it is none. -/
def numberOf (tag name : Text) : Float :=
  let value := attributeText tag name
  if value.isEmpty then 0.0
  else
    let n := Number.read value
    if n.isNaN then 0.0 else n

theorem attributeNumber_outcome (tag name : Text) :
    (attributeNumber tag name).outcome = .ok (numberOf tag name) := by
  unfold attributeNumber numberOf
  dsimp only
  split
  · rfl
  · split <;> rfl

end Markup

namespace Element

open Markup (Kind numberOf)

variable {v : Viewport}

/-- A number is left to what follows. -/
theorem succeeds_number_bind {α : Type} {tag name : Text} {f : Float → Journal Act α} :
    (number tag name >>= f).Succeeds ↔ (f (numberOf tag name)).Succeeds :=
  Journal.succeeds_bind_of_ok (Markup.attributeNumber_outcome tag name)

/-- The ellipse of a tag. -/
def ellipseOf (tag : Text) : Ellipse :=
  ⟨numberOf tag ['c', 'x'], numberOf tag ['c', 'y'], numberOf tag ['r', 'x'],
    numberOf tag ['r', 'y']⟩

theorem ellipse_succeeds_iff (hv : v.IsSound) (tag : Text) :
    (ellipse v tag).Succeeds ↔ ¬ (ellipseOf tag).IsFlat v := by
  simp only [ellipse]
  rw [succeeds_number_bind, succeeds_number_bind, succeeds_number_bind, succeeds_number_bind]
  exact Ellipse.acts_succeeds_iff hv _

theorem rect_succeeds (hv : v.IsSound) (tag : Text) : (rect v tag).Succeeds := by
  simp only [rect]
  rw [succeeds_number_bind, succeeds_number_bind, succeeds_number_bind, succeeds_number_bind]
  obtain ⟨x, hx, -⟩ := hv.scaleX_ok (numberOf tag ['x'])
  obtain ⟨y, hy, -⟩ := hv.scaleY_ok (numberOf tag ['y'])
  obtain ⟨w, hw, -⟩ := hv.scaleX_ok (numberOf tag ['w', 'i', 'd', 't', 'h'])
  obtain ⟨h, hh, -⟩ := hv.scaleY_ok (numberOf tag ['h', 'e', 'i', 'g', 'h', 't'])
  rw [Journal.succeeds_lift_bind hx, Journal.succeeds_lift_bind hy,
    Journal.succeeds_lift_bind hw, Journal.succeeds_lift_bind hh]
  exact Journal.succeeds_enter _

theorem circle_succeeds (hv : v.IsSound) (tag : Text) : (circle v tag).Succeeds := by
  unfold circle
  rw [succeeds_number_bind, succeeds_number_bind, succeeds_number_bind]
  obtain ⟨r, hr⟩ := hv.scaleRadius_ok (numberOf tag ['r'])
  obtain ⟨x, hx, -⟩ := hv.scaleX_ok (numberOf tag ['c', 'x'])
  obtain ⟨y, hy, -⟩ := hv.scaleY_ok (numberOf tag ['c', 'y'])
  rw [Journal.succeeds_lift_bind hr]
  dsimp only
  rw [Journal.succeeds_lift_bind hx, Journal.succeeds_lift_bind hy]
  exact Journal.succeeds_enter _

theorem lineBetween_ok (hv : v.IsSound) (x0 y0 x1 y1 : Float) :
    ∃ shape, lineBetween v x0 y0 x1 y1 = .ok shape := by
  obtain ⟨start, hstart, -⟩ := hv.scalePoint_ok x0 y0
  obtain ⟨stop, hstop, -⟩ := hv.scalePoint_ok x1 y1
  exact exists_bind_ok hstart (exists_bind_ok hstop ⟨_, rfl⟩)

theorem line_succeeds (hv : v.IsSound) (tag : Text) : (line v tag).Succeeds := by
  simp only [line]
  rw [succeeds_number_bind, succeeds_number_bind, succeeds_number_bind, succeeds_number_bind]
  obtain ⟨shape, hshape⟩ := lineBetween_ok hv (numberOf tag ['x', '1']) (numberOf tag ['y', '1'])
    (numberOf tag ['x', '2']) (numberOf tag ['y', '2'])
  rw [Journal.succeeds_lift_bind hshape]
  exact Journal.succeeds_enter _

theorem drawJoins_succeeds (hv : v.IsSound) (color : ℤ) (js : List Join) :
    (drawJoins v color js).Succeeds := by
  induction js with
  | nil => exact Journal.succeeds_pure _
  | cons j rest ih =>
    obtain ⟨x0, y0, x1, y1⟩ := j
    obtain ⟨shape, hshape⟩ := lineBetween_ok hv x0 y0 x1 y1
    simp only [drawJoins]
    rw [Journal.succeeds_lift_bind hshape]
    exact (Journal.succeeds_enter _).bind fun _ _ => ih

theorem text_succeeds (hv : v.IsSound) (stacked : ℤ) (tag content : Text) :
    (text v stacked tag content).Succeeds := by
  unfold text
  obtain ⟨x, hx, -⟩ := hv.scaleX_ok (numberOf tag ['x'])
  obtain ⟨y, hy, -⟩ := hv.scaleY_ok (numberOf tag ['y'])
  rw [succeeds_number_bind, Journal.succeeds_lift_bind hx, succeeds_number_bind,
    Journal.succeeds_lift_bind hy]
  dsimp only
  rw [succeeds_number_bind]
  exact (Journal.succeeds_enter _).bind fun _ _ => Journal.succeeds_pure _

/-- The tag at a place stops the reading: it is an ellipse that is too flat, or a path that runs
away. -/
def Stops (v : Viewport) (steps : ℤ) (t : Text) (p : ℕ) : Kind → Prop
  | .ellipse => (ellipseOf (tagOf t p .ellipse)).IsFlat v
  | .path => Path.RunsAway v steps Path.Pen.initial (Path.tokens (pathData (tagOf t p .path)))
  | _ => False

/-- **An element is read to its end unless it stops the reading.** -/
theorem read_succeeds_iff (hv : v.IsSound) {steps : ℤ} (hsteps : 0 < steps) (stacked : ℤ)
    (t : Text) (p : ℕ) (kind : Kind) :
    (read v steps stacked t p kind).Succeeds ↔ ¬ Stops v steps t p kind := by
  have hthen : ∀ {j : Journal Act Unit}, (j >>= fun _ => pure stacked).Succeeds ↔ j.Succeeds := by
    intro j
    rw [Journal.succeeds_bind_iff]
    exact ⟨fun ⟨a, ha, _⟩ => ⟨a, ha⟩, fun ⟨a, ha⟩ => ⟨a, ha, Journal.succeeds_pure _⟩⟩
  simp only [read]
  cases kind with
  | rect => exact hthen.trans (iff_of_true (rect_succeeds hv _) not_false)
  | circle => exact hthen.trans (iff_of_true (circle_succeeds hv _) not_false)
  | line => exact hthen.trans (iff_of_true (line_succeeds hv _) not_false)
  | ellipse => exact hthen.trans (ellipse_succeeds_iff hv _)
  | polyline => exact hthen.trans (iff_of_true (drawJoins_succeeds hv _ _) not_false)
  | polygon => exact hthen.trans (iff_of_true (drawJoins_succeeds hv _ _) not_false)
  | path => exact hthen.trans (path_succeeds_iff hv hsteps _)
  | text =>
    refine iff_of_true ?_ not_false
    dsimp only
    split
    · exact text_succeeds hv _ _ _
    · exact Journal.succeeds_pure _
  | group => exact iff_of_true (Journal.succeeds_pure _) not_false
  | definitions => exact iff_of_true (Journal.succeeds_pure _) not_false

end Element

/-! ## 2. Reading a document -/

namespace Scene

open Markup (Kind)

variable {width height steps : ℤ}

/-- A reading comes to a tag: from a position in a document, to a tag of the document or of a
group in it, at any depth. -/
inductive ReadsFrom (width height : ℤ) : Document → ℕ → Document → ℕ → Kind → Prop
  /-- The next tag is the one. -/
  | here {doc : Document} {position p : ℕ} {kind : Kind}
      (hnext : Markup.nextTag? Kind.name Kind.all doc.text position = some (p, kind)) :
      ReadsFrom width height doc position doc p kind
  /-- The reading comes to it behind the next tag. -/
  | behind {doc doc' : Document} {position p p' : ℕ} {kind kind' : Kind}
      (hnext : Markup.nextTag? Kind.name Kind.all doc.text position = some (p, kind))
      (hrest : ReadsFrom width height doc (Element.resume doc.text p kind) doc' p' kind') :
      ReadsFrom width height doc position doc' p' kind'
  /-- The next tag is a group, and the reading comes to it inside of that. -/
  | inside {doc inner doc' : Document} {position p p' : ℕ} {body : Text} {kind' : Kind}
      (hnext : Markup.nextTag? Kind.name Kind.all doc.text position = some (p, .group))
      (hbody : Element.groupBody? doc.text p = some body)
      (hinner : (Document.ofText body width height).outcome = .ok inner)
      (hrest : ReadsFrom width height inner 0 doc' p' kind') :
      ReadsFrom width height doc position doc' p' kind'

/-- No tag that a reading comes to stops it. -/
def GoesOn (width height steps : ℤ) (doc : Document) (position : ℕ) : Prop :=
  ∀ doc' p kind, ReadsFrom width height doc position doc' p kind →
    ¬ Element.Stops doc'.viewport steps doc'.text p kind

theorem goesOn_of_none {doc : Document} {position : ℕ}
    (hnext : Markup.nextTag? Kind.name Kind.all doc.text position = none) :
    GoesOn width height steps doc position := by
  intro doc' p kind h
  cases h with
  | here hnext' => cases hnext.symm.trans hnext'
  | behind hnext' _ => cases hnext.symm.trans hnext'
  | inside hnext' _ _ _ => cases hnext.symm.trans hnext'

/-- A reading goes on from a tag to what is inside of it and to what is behind it. -/
theorem goesOn_iff {doc : Document} {position p : ℕ} {kind : Kind}
    (hnext : Markup.nextTag? Kind.name Kind.all doc.text position = some (p, kind)) :
    GoesOn width height steps doc position ↔
      ¬ Element.Stops doc.viewport steps doc.text p kind ∧
        GoesOn width height steps doc (Element.resume doc.text p kind) ∧
        ∀ body inner, kind = .group → Element.groupBody? doc.text p = some body →
          (Document.ofText body width height).outcome = .ok inner →
          GoesOn width height steps inner 0 := by
  constructor
  · intro h
    refine ⟨h doc p kind (.here hnext), fun doc' p' kind' hrest => ?_, ?_⟩
    · exact h doc' p' kind' (.behind hnext hrest)
    · rintro body inner rfl hbody hinner doc' p' kind' hrest
      exact h doc' p' kind' (.inside hnext hbody hinner hrest)
  · rintro ⟨hhere, hbehind, hinside⟩ doc' p' kind' h
    cases h with
    | here hnext' =>
      cases hnext.symm.trans hnext'
      exact hhere
    | behind hnext' hrest =>
      cases hnext.symm.trans hnext'
      exact hbehind doc' p' kind' hrest
    | inside hnext' hbody hinner hrest =>
      cases hnext.symm.trans hnext'
      exact hinside _ _ rfl hbody hinner doc' p' kind' hrest

theorem fault?_act (a : Act) (rest : Scene) : (act a rest).fault? = rest.fault? := rfl

theorem fault?_ofReading {α : Type} (j : Journal Act α) (next : α → Scene) :
    (ofReading j next).fault? = none ↔ ∃ a, j.outcome = .ok a ∧ (next a).fault? = none := by
  obtain ⟨es, r⟩ := j
  simp only [ofReading]
  induction es with
  | nil =>
    cases r with
    | ok a =>
      constructor
      · intro h
        exact ⟨a, rfl, h⟩
      · rintro ⟨b, hb, h⟩
        cases hb
        exact h
    | error fault =>
      constructor
      · intro h
        cases h
      · rintro ⟨b, hb, -⟩
        cases hb
  | cons e es ih => exact ih

/-- **A document is read to its end if nothing stops the reading,** where that holds of the insides
of its groups. -/
theorem fault?_readFrom (hsteps : 0 < steps) {doc : Document} (hdoc : doc.viewport.IsSound)
    (readBody : (body : Text) → Markup.depth body < Markup.depth doc.text → Scene)
    (hbody : ∀ body h inner, (Document.ofText body width height).outcome = .ok inner →
      ((readBody body h).fault? = none ↔ GoesOn width height steps inner 0))
    (htotal : ∀ body, ∃ inner, (Document.ofText body width height).outcome = .ok inner)
    (stacked : ℤ) (position : ℕ) :
    (readFrom steps doc readBody stacked position).fault? = none ↔
      GoesOn width height steps doc position := by
  fun_induction readFrom steps doc readBody stacked position with
  | case1 stacked position hNext => exact iff_of_true rfl (goesOn_of_none hNext)
  | case2 stacked position p kind hNext hPosition hResume ihBody ihRest =>
    rw [goesOn_iff hNext]
    rw [fault?_act]
    split
    · rename_i body hBody
      have hgroup : kind = .group ∧ Element.groupBody? doc.text p = some body := by
        split at hBody
        · exact ⟨‹_›, hBody⟩
        · cases hBody
      obtain ⟨rfl, hBody⟩ := hgroup
      obtain ⟨inner, hinner⟩ := htotal body
      rw [fault?_group, Option.or_eq_none_iff, ihBody body, hbody _ _ inner hinner]
      constructor
      · rintro ⟨hinside, hbehind⟩
        refine ⟨not_false, hbehind, ?_⟩
        intro body' inner' _ hbody' hinner'
        cases hBody.symm.trans hbody'
        cases hinner.symm.trans hinner'
        exact hinside
      · rintro ⟨-, hbehind, hinside⟩
        exact ⟨hinside body inner rfl hBody hinner, hbehind⟩
    · rename_i hBody
      have hread := Element.read_succeeds_iff hdoc hsteps stacked doc.text p kind
      have hnone : ∀ body inner, kind = .group → Element.groupBody? doc.text p = some body →
          (Document.ofText body width height).outcome = .ok inner →
          GoesOn width height steps inner 0 := by
        rintro body inner rfl hbody' -
        rw [if_pos rfl, hbody'] at hBody
        cases hBody
      rw [fault?_ofReading, ← hread]
      constructor
      · rintro ⟨a, ha, hrest⟩
        exact ⟨⟨a, ha⟩, (ihRest a).mp hrest, hnone⟩
      · rintro ⟨⟨a, ha⟩, hrest, -⟩
        exact ⟨a, ha, (ihRest a).mpr hrest⟩

/-- **A text is read to its end if no tag in it or in its groups stops the reading.** -/
theorem fault?_read (hw : 0 < width) (hw' : width ≤ Viewport.longestSide) (hh : 0 < height)
    (hh' : height ≤ Viewport.longestSide) (hsteps : 0 < steps) (source : Text) {doc : Document}
    (hdoc : (Document.ofText source width height).outcome = .ok doc) :
    (read width height steps source).fault? = none ↔ GoesOn width height steps doc 0 := by
  have htotal : ∀ body, ∃ inner, (Document.ofText body width height).outcome = .ok inner := by
    intro body
    obtain ⟨inner, hinner, -⟩ := Document.ofText_sound body hw hw' hh hh'
    exact ⟨inner, hinner⟩
  fun_induction read width height steps source generalizing doc with
  | case1 source fault hDoc => cases hdoc.symm.trans hDoc
  | case2 source doc' hDoc ih =>
    cases hdoc.symm.trans hDoc
    obtain ⟨sound, hsound, hv, -⟩ := Document.ofText_sound source hw hw' hh hh'
    cases hdoc.symm.trans hsound
    rw [fault?_ofReading]
    have hfrom := fault?_readFrom hsteps hv (fun body _ => read width height steps body)
      (fun body h inner hinner => ih body h hinner) htotal 0 0
    constructor
    · rintro ⟨_, -, h⟩
      exact hfrom.mp h
    · intro h
      exact ⟨_, hDoc, hfrom.mpr h⟩

end Scene

/-! ## 3. Painting -/

section Painting

variable (letters : Lettering)

theorem Canvas.paintWith_ok_iff (c : Canvas) {p : Paint} (hp : p.IsInked) :
    (∃ d, c.paintWith letters p = .ok d) ↔
      ∃ r, p.shape.coverageWith letters c.width c.height = .ok r := by
  obtain ⟨i, hi, -⟩ := Canvas.ink_of_inked hp
  constructor
  · rintro ⟨d, hd⟩
    obtain ⟨r, hr, -⟩ := of_bind_ok hd
    exact ⟨r, hr⟩
  · rintro ⟨r, hr⟩
    refine exists_bind_ok hr ?_
    cases r with
    | none => exact ⟨c, rfl⟩
    | some pixels => exact exists_bind_ok hi ⟨_, rfl⟩

/-- Shapes are painted if each of them covers some pixels or none. -/
theorem Canvas.paintAllWith_ok_iff (c : Canvas) {ps : List Paint} (hps : ∀ p ∈ ps, p.IsInked) :
    (∃ d, c.paintAllWith letters ps = .ok d) ↔
      ∀ p ∈ ps, ∃ r, p.shape.coverageWith letters c.width c.height = .ok r := by
  induction ps generalizing c with
  | nil => exact iff_of_true ⟨c, rfl⟩ fun p hp => absurd hp List.not_mem_nil
  | cons p rest ih =>
    have hrest : ∀ q ∈ rest, q.IsInked := fun q hq => hps q (List.mem_cons_of_mem _ hq)
    have hfirst := Canvas.paintWith_ok_iff letters c (hps p List.mem_cons_self)
    rw [List.forall_mem_cons, ← hfirst]
    constructor
    · rintro ⟨d, hd⟩
      obtain ⟨e, he, hd⟩ := of_bind_ok hd
      obtain ⟨hwidth, hheight⟩ := Canvas.size_paintWith letters he
      refine ⟨⟨e, he⟩, ?_⟩
      rw [← hwidth, ← hheight]
      exact (ih e hrest).mp ⟨d, hd⟩
    · rintro ⟨⟨e, he⟩, hall⟩
      obtain ⟨hwidth, hheight⟩ := Canvas.size_paintWith letters he
      rw [← hwidth, ← hheight] at hall
      exact exists_bind_ok he ((ih e hrest).mpr hall)

/-- **A scene is painted if its reading came to the end and its shapes can be painted.** -/
theorem Scene.paintOnWith_ok_iff (c : Canvas) {s : Scene} (hinked : ∀ p ∈ s.paints, p.IsInked) :
    (∃ d, s.paintOnWith letters c = .ok d) ↔ s.fault? = none ∧
      ∀ p ∈ s.paints, ∃ r, p.shape.coverageWith letters c.width c.height = .ok r := by
  rw [Scene.paintOnWith_eq letters c s hinked,
    ← Canvas.paintAllWith_ok_iff letters c hinked]
  constructor
  · rintro ⟨d, hd⟩
    obtain ⟨e, he, hd⟩ := of_bind_ok hd
    refine ⟨?_, e, he⟩
    cases hfault : s.fault? with
    | none => rfl
    | some fault =>
      rw [hfault] at hd
      cases hd
  · rintro ⟨hfault, d, hd⟩
    rw [hfault]
    exact ⟨d, bind_ok hd rfl⟩

/-- All shapes of a text are shapes as elements leave them. -/
theorem Scene.paints_read_made (width height steps : ℤ) (source : Text) :
    ∀ p ∈ (Scene.read width height steps source).paints, p.shape.IsMade := by
  intro p hp
  obtain ⟨a, ha, hap⟩ := List.mem_filterMap.mp hp
  have hmade := Scene.holds_read (P := Act.IsMade) (fun _ => True.intro) Element.read_made
    width height steps source
  cases a with
  | note r => cases hap
  | paint q =>
    cases hap
    exact hmade.mem_acts _ ha

end Painting

/-! ## 4. Renderings -/

/-- The reading of a text comes to a tag of the text's document or of a group in it. -/
def Scene.Reads (width height : ℤ) (source : Text) (doc : Document) (p : ℕ)
    (kind : Markup.Kind) : Prop :=
  ∃ start, (Document.ofText source width height).outcome = .ok start ∧
    Scene.ReadsFrom width height start 0 doc p kind

theorem Frame.effectiveSteps_pos {steps : Option ℤ} (h : ∀ n, steps = some n → 0 < n) :
    0 < Frame.effectiveSteps steps := by
  cases steps with
  | none => decide
  | some n =>
    have hn := h n rfl
    change 0 < if n = 0 then Frame.standardSteps else n
    rw [if_neg hn.ne']
    exact hn

/-- A text has a rendering where its scene can be painted. -/
theorem Rendering.ofTextWith_ok_iff (letters : Lettering) (frame : Frame) {source : Text}
    {doc : Document} (hdoc : (Document.ofText source frame.width frame.height).outcome = .ok doc)
    (hw : 0 < frame.width) (hh : 0 < frame.height) :
    (∃ r, Rendering.ofTextWith letters frame source = .ok r) ↔
      ∃ d, (Scene.read frame.width frame.height frame.steps source).paintOnWith letters
        (Canvas.blank frame.width.toNat frame.height.toNat) = .ok d := by
  have hblank : Canvas.ofSize frame.width frame.height =
      .ok (Canvas.blank frame.width.toNat frame.height.toNat) := by
    simp only [Canvas.ofSize]
    rw [if_neg (by omega)]
  constructor
  · rintro ⟨r, hr⟩
    obtain ⟨hscene, hpaint⟩ := Rendering.paintOn_of_ofTextWith hr
    rw [hscene] at hpaint
    exact ⟨r.canvas, hpaint⟩
  · rintro ⟨d, hd⟩
    exact exists_bind_ok hdoc (exists_bind_ok hblank (exists_bind_ok hd ⟨_, rfl⟩))

/-- **Which texts can be rendered.**  A text has a rendering, whatever the form of letters is, for
a device of a moderate size and for any number of steps, unless the reading of the text and of its
groups comes to an ellipse that is too flat or to a path that runs away, or one of the shapes that
it leaves is a remote disc or a buried text. -/
theorem rendering_ok_iff (letters : Lettering) (source : Text) (width height : ℤ)
    (steps : Option ℤ) (hw : 0 < width) (hw' : width ≤ 2 ^ 15) (hh : 0 < height)
    (hh' : height ≤ 2 ^ 15) (hsteps : ∀ n, steps = some n → 0 < n) :
    (∃ r, Rendering.ofTextWith letters (.ofSize width height steps) source = .ok r) ↔
      (∀ doc p kind, Scene.Reads width height source doc p kind →
        ¬ Element.Stops doc.viewport (Frame.effectiveSteps steps) doc.text p kind) ∧
      ∀ paint ∈ (Scene.read width height (Frame.effectiveSteps steps) source).paints,
        ¬ paint.shape.IsRemote width height ∧ ¬ paint.shape.IsBuried := by
  obtain ⟨doc, hdoc, -⟩ := Document.ofText_sound source hw hw' hh hh'
  have hinked := Scene.paints_read_inked width height (Frame.effectiveSteps steps) source
  have hmade := Scene.paints_read_made width height (Frame.effectiveSteps steps) source
  have hreads : Scene.GoesOn width height (Frame.effectiveSteps steps) doc 0 ↔
      ∀ doc' p kind, Scene.Reads width height source doc' p kind →
        ¬ Element.Stops doc'.viewport (Frame.effectiveSteps steps) doc'.text p kind := by
    constructor
    · rintro h doc' p kind ⟨start, hstart, hfrom⟩
      cases hdoc.symm.trans hstart
      exact h doc' p kind hfrom
    · intro h doc' p kind hfrom
      exact h doc' p kind ⟨doc, hdoc, hfrom⟩
  have hwidth : ((width.toNat : ℕ) : ℤ) = width := by omega
  have hheight : ((height.toNat : ℕ) : ℤ) = height := by omega
  refine (Rendering.ofTextWith_ok_iff letters (.ofSize width height steps) hdoc hw hh).trans ?_
  refine (Scene.paintOnWith_ok_iff letters _ hinked).trans ?_
  refine and_congr ?_ (forall₂_congr fun paint hpaint => ?_)
  · rw [← hreads]
    exact Scene.fault?_read hw hw' hh hh' (Frame.effectiveSteps_pos hsteps) source hdoc
  · change (∃ r, paint.shape.coverageWith letters (width.toNat : ℤ) (height.toNat : ℤ) = .ok r) ↔ _
    rw [hwidth, hheight]
    exact Shape.coverageWith_ok_iff hw hw' hh hh' (hmade paint hpaint)

/-- An ellipse in the lower half of a small square. -/
def lyingEllipse : Text := "<ellipse cx=\"2\" cy=\"2\" rx=\"2\" ry=\"1\" fill=\"#ff2121\"/>".toList

/-- An ellipse that is flat, but not too flat, is rendered. -/
theorem rendering_ok_iff_lyingEllipse :
    (∃ r, Rendering.ofTextWith .blocks (.ofSize 4 4 (some 3)) lyingEllipse = .ok r) ∧
    (∀ doc p kind, Scene.Reads 4 4 lyingEllipse doc p kind →
      ¬ Element.Stops doc.viewport (Frame.effectiveSteps (some 3)) doc.text p kind) ∧
    ∀ paint ∈ (Scene.read 4 4 (Frame.effectiveSteps (some 3)) lyingEllipse).paints,
      ¬ paint.shape.IsRemote 4 4 ∧ ¬ paint.shape.IsBuried := by
  have hsteps : ∀ n : ℤ, some 3 = some n → 0 < n := by
    rintro n ⟨⟩
    decide
  have hsome :
      (Rendering.ofTextWith .blocks (.ofSize 4 4 (some 3)) lyingEllipse).toOption.isSome := by
    decide +kernel
  have hok : ∃ r, Rendering.ofTextWith .blocks (.ofSize 4 4 (some 3)) lyingEllipse = .ok r := by
    cases h : Rendering.ofTextWith .blocks (.ofSize 4 4 (some 3)) lyingEllipse with
    | ok r => exact ⟨r, rfl⟩
    | error fault =>
      rw [h] at hsome
      cases hsome
  exact ⟨hok, (rendering_ok_iff .blocks lyingEllipse 4 4 (some 3) (by decide) (by decide)
    (by decide) (by decide) hsteps).mp hok⟩

/-- An ellipse whose vertical radius is not zero, but has a square of zero.  It lies on the left of
the device. -/
def flatEllipse : Text := "<ellipse cx=\"-50\" cy=\"5\" rx=\"3\" ry=\"1e-200\"/>".toList

/-- A circle around a center far away that covers all of a small device. -/
def remoteCircle : Text := "<circle cx=\"1e20\" r=\"2e20\"/>".toList

/-- A cubic curve that ends far away, and a smooth curve behind it.  All of it is off the
device. -/
def runawayPath : Text :=
  "<svg viewBox=\"0 0 1 1\"><path d=\"M 0 -9 C 0 -9 0 -9 1e306 -9 S 0 -9 0 -9\"/></svg>".toList

/-- Not every text has a rendering.  Three that have none meet three different faults. -/
theorem not_every_text_rendered :
    (¬ ∀ (source : Text) (width height : ℤ) (steps : Option ℤ), 0 < width → width ≤ 2 ^ 15 →
      0 < height → height ≤ 2 ^ 15 → (∀ n, steps = some n → 0 < n) →
      ∃ r, Rendering.ofText (.ofSize width height steps) source = .ok r) ∧
    Rendering.ofText (.ofSize 160 120 none) flatEllipse = .error .divisionByZero ∧
    Rendering.ofText (.ofSize 1 1 none) remoteCircle = .error .wordTooLarge ∧
    Rendering.ofText (.ofSize 160 120 (some 1)) runawayPath = .error .wholeTooLarge := by
  have hfault : ∀ {r : Except Fault Rendering} {fault : Fault},
      r.map (fun r => r.canvas.width) = .error fault → r = .error fault := by
    intro r fault h
    cases r with
    | ok r => cases h
    | error other =>
      cases h
      rfl
  have hflat : Rendering.ofText (.ofSize 160 120 none) flatEllipse = .error .divisionByZero :=
    hfault (by decide +kernel)
  refine ⟨fun h => ?_, hflat, hfault (by decide +kernel), hfault (by decide +kernel)⟩
  obtain ⟨r, hr⟩ := h flatEllipse 160 120 none (by decide) (by decide) (by decide) (by decide)
    (by simp)
  cases hflat.symm.trans hr

end VectorPaint
