/-
# Groups are transparent to painting

A group is painted on a blank canvas of its own, and that layer is put on the canvas the group
belongs to.  This module shows that the detour has no effect: painting the group's shapes one
after the other on the canvas itself gives the same pixels, whatever the canvas already holds.

Two facts carry it.  The pixels that a shape covers follow from the size of the canvas alone, so a
shape covers the same pixels on the layer and below it.  And no shape is in the transparent index,
so what is painted on the layer is what shows through it: `overlay_plot`.  From there a layer
follows its canvas shape by shape (`paintAllWith_overlay`), and a scene with its groups paints
like the list of all its shapes (`paintOnWith_eq`).
-/
import VectorPaint.Proofs.Acts
import VectorPaint.Rendering

namespace VectorPaint

namespace Canvas

/-! ## 1. Canvases by their pixels -/

/-- The pixel at a place among the cells. -/
theorem get_of_lt {c : Canvas} {i : Nat} (h : i < c.cells.size) :
    c.get ((i % c.width : Nat), (i / c.width : Nat)) = c.cells[i] := by
  have hlt : i < c.width * c.height := c.size_cells ▸ h
  have hw : 0 < c.width := Nat.pos_of_mul_pos_right (Nat.zero_lt_of_lt hlt)
  have hx : i % c.width < c.width := Nat.mod_lt i hw
  have hy : i / c.width < c.height := Nat.div_lt_of_lt_mul hlt
  have hholds : c.holds ((i % c.width : Nat), (i / c.width : Nat)) = true :=
    holds_iff.mpr ⟨Int.natCast_nonneg _, Int.ofNat_lt.mpr hx, Int.natCast_nonneg _,
      Int.ofNat_lt.mpr hy⟩
  have hplace : c.place ((i % c.width : Nat), (i / c.width : Nat)) = i := by
    unfold place
    dsimp only
    rw [Int.toNat_natCast, Int.toNat_natCast, Nat.mul_comm]
    exact Nat.div_add_mod i c.width
  unfold get
  rw [if_pos hholds, hplace, Array.getD, dif_pos h]
  rfl

/-- **Two canvases of one size with the same pixels are the same.** -/
theorem ext_get {c d : Canvas} (hw : c.width = d.width) (hh : c.height = d.height)
    (h : ∀ q, c.get q = d.get q) : c = d := by
  have hsize : c.cells.size = d.cells.size := by rw [c.size_cells, d.size_cells, hw, hh]
  have hcells : c.cells = d.cells := by
    refine Array.ext hsize ?_
    intro i hc hd
    have := h ((i % c.width : Nat), (i / c.width : Nat))
    rw [get_of_lt hc, hw, get_of_lt hd] at this
    exact this
  obtain ⟨width, height, cells, hcs⟩ := c
  obtain ⟨width', height', cells', hds⟩ := d
  cases hw
  cases hh
  cases hcells
  rfl

/-- Outside of a canvas there is nothing. -/
theorem get_of_not_holds {c : Canvas} {q : Pixel} (h : ¬ c.holds q = true) : c.get q = 0 :=
  if_neg h

theorem holds_congr {c d : Canvas} (hw : c.width = d.width) (hh : c.height = d.height)
    (q : Pixel) : c.holds q = d.holds q := by
  simp only [holds]
  rw [hw, hh]

/-! ## 2. A layer on a canvas -/

/-- One pixel of a layer. -/
def overlayAt (other : Canvas) (dx dy : Int) (c : Canvas) (p : Pixel) : Canvas :=
  let ink := other.get (p.1 - dx, p.2 - dy)
  if ink == 0 then c else c.put p ink

theorem overlay_eq_foldl (c other : Canvas) (dx dy : Int) :
    c.overlay other dx dy =
      (box (max 0 dx) (max 0 dy) (min c.width (dx + other.width))
        (min c.height (dy + other.height))).foldl (overlayAt other dx dy) c := rfl

@[simp] theorem width_overlayAt (other : Canvas) (dx dy : Int) (c : Canvas) (p : Pixel) :
    (overlayAt other dx dy c p).width = c.width := by
  unfold overlayAt
  dsimp only
  split
  · rfl
  · exact width_put _ _ _

@[simp] theorem height_overlayAt (other : Canvas) (dx dy : Int) (c : Canvas) (p : Pixel) :
    (overlayAt other dx dy c p).height = c.height := by
  unfold overlayAt
  dsimp only
  split
  · rfl
  · exact height_put _ _ _

theorem get_overlayAt (other : Canvas) (dx dy : Int) (c : Canvas) (p q : Pixel) :
    (overlayAt other dx dy c p).get q =
      if q = p ∧ c.holds q = true ∧ other.get (q.1 - dx, q.2 - dy) ≠ 0 then
        other.get (q.1 - dx, q.2 - dy)
      else c.get q := by
  unfold overlayAt
  dsimp only
  by_cases hqp : q = p
  · subst hqp
    by_cases hink : other.get (q.1 - dx, q.2 - dy) = 0
    · simp [hink]
    · rw [if_neg (by simpa using hink), get_put]
      simp [hink]
  · split
    · simp [hqp]
    · rw [get_put]
      simp [hqp]

/-- Going through a list of pixels of a layer keeps the size of the canvas. -/
theorem size_foldl_overlayAt (other : Canvas) (dx dy : Int) (pixels : List Pixel) (c : Canvas) :
    (pixels.foldl (overlayAt other dx dy) c).width = c.width ∧
      (pixels.foldl (overlayAt other dx dy) c).height = c.height := by
  induction pixels generalizing c with
  | nil => exact ⟨rfl, rfl⟩
  | cons p ps ih =>
    rw [List.foldl_cons]
    exact ⟨(ih _).1.trans (width_overlayAt _ _ _ _ _), (ih _).2.trans (height_overlayAt _ _ _ _ _)⟩

theorem get_foldl_overlayAt (other : Canvas) (dx dy : Int) (pixels : List Pixel) (c : Canvas)
    (q : Pixel) :
    (pixels.foldl (overlayAt other dx dy) c).get q =
      if q ∈ pixels ∧ c.holds q = true ∧ other.get (q.1 - dx, q.2 - dy) ≠ 0 then
        other.get (q.1 - dx, q.2 - dy)
      else c.get q := by
  induction pixels generalizing c with
  | nil => simp
  | cons p ps ih =>
    have hholds : (overlayAt other dx dy c p).holds q = c.holds q :=
      holds_congr (width_overlayAt _ _ _ _ _) (height_overlayAt _ _ _ _ _) q
    rw [List.foldl_cons, ih, hholds, get_overlayAt]
    by_cases hps : q ∈ ps
    · by_cases hq : c.holds q = true ∧ other.get (q.1 - dx, q.2 - dy) ≠ 0
      · rw [if_pos ⟨hps, hq⟩, if_pos ⟨List.mem_cons_of_mem _ hps, hq⟩]
      · rw [if_neg fun h => hq h.2, if_neg fun h => hq h.2, if_neg fun h => hq h.2]
    · rw [if_neg fun h => hps h.1]
      simp [List.mem_cons, hps]

@[simp] theorem width_overlay (c other : Canvas) (dx dy : Int) :
    (c.overlay other dx dy).width = c.width := (size_foldl_overlayAt _ _ _ _ _).1

@[simp] theorem height_overlay (c other : Canvas) (dx dy : Int) :
    (c.overlay other dx dy).height = c.height := (size_foldl_overlayAt _ _ _ _ _).2

/-- **What shows of a layer.**  A pixel of the canvas is the layer's where the layer is not
transparent, and stays what it was elsewhere. -/
theorem get_overlay (c other : Canvas) (dx dy : Int) (q : Pixel) :
    (c.overlay other dx dy).get q =
      if c.holds q = true ∧ other.get (q.1 - dx, q.2 - dy) ≠ 0 then
        other.get (q.1 - dx, q.2 - dy)
      else c.get q := by
  rw [overlay_eq_foldl, get_foldl_overlayAt]
  by_cases hq : c.holds q = true ∧ other.get (q.1 - dx, q.2 - dy) ≠ 0
  · -- The pixel is on both canvases, so it is one of those that are gone through.
    have hother : other.holds (q.1 - dx, q.2 - dy) = true :=
      Decidable.byContradiction fun h => hq.2 (get_of_not_holds h)
    have hc := holds_iff.mp hq.1
    have ho := holds_iff.mp hother
    dsimp only at ho
    rw [if_pos ⟨mem_box.mpr (by omega), hq⟩, if_pos hq]
  · rw [if_neg fun h => hq h.2, if_neg hq]

/-- A blank layer has no effect. -/
theorem overlay_blank (c : Canvas) (width height : Nat) (dx dy : Int) :
    c.overlay (blank width height) dx dy = c := by
  refine ext_get (width_overlay _ _ _ _) (height_overlay _ _ _ _) ?_
  intro q
  rw [get_overlay, get_blank]
  exact if_neg fun h => h.2 rfl

/-- **Writing below a layer or on it is the same,** unless what is written is transparent. -/
theorem overlay_plot (c : Canvas) {layer : Canvas} (hw : layer.width = c.width)
    (hh : layer.height = c.height) (pixels : List Pixel) {ink : UInt8} (hink : ink ≠ 0) :
    (c.overlay layer 0 0).plot pixels ink = c.overlay (layer.plot pixels ink) 0 0 := by
  refine ext_get (by simp) (by simp) ?_
  intro q
  have hover : (c.overlay layer 0 0).holds q = c.holds q :=
    holds_congr (width_overlay _ _ _ _) (height_overlay _ _ _ _) q
  have hlayer : layer.holds q = c.holds q := holds_congr hw hh q
  have hshift : ((q.1 - 0, q.2 - 0) : Pixel) = q := by simp
  rw [get_plot, hover, get_overlay, get_overlay, hshift, get_plot, hlayer]
  by_cases hq : c.holds q = true
  · by_cases hp : q ∈ pixels
    · simp [hq, hp, hink]
    · simp [hp]
  · simp [hq]

/-! ## 3. Shapes on a layer -/

variable (letters : Lettering)

/-- A color of the palette has an index, and the index is not transparent. -/
theorem ink_of_inked {p : Paint} (h : p.IsInked) : ∃ i, ink p.color = .ok i ∧ i ≠ 0 := by
  obtain ⟨h1, h2⟩ := h
  refine ⟨p.color.toNat.toUInt8, if_pos ⟨by omega, by omega⟩, fun hz => ?_⟩
  have hz := congrArg UInt8.toNat hz
  simp only [UInt8.toNat_ofNat', Nat.toUInt8, UInt8.toNat_zero] at hz
  omega

theorem paintAllWith_cons (c : Canvas) (p : Paint) (rest : List Paint) :
    c.paintAllWith letters (p :: rest) =
      (c.paintWith letters p).bind fun d => d.paintAllWith letters rest := rfl

/-- Painting keeps the size of the canvas. -/
theorem size_paintWith {c d : Canvas} {p : Paint} (h : c.paintWith letters p = .ok d) :
    d.width = c.width ∧ d.height = c.height := by
  simp only [paintWith] at h
  cases hcov : p.shape.coverageWith letters c.width c.height with
  | error fault =>
    rw [hcov] at h
    cases h
  | ok covered =>
    rw [hcov] at h
    cases covered with
    | none =>
      cases h
      exact ⟨rfl, rfl⟩
    | some pixels =>
      cases hi : ink p.color with
      | error fault =>
        simp only [hi] at h
        cases h
      | ok i =>
        simp only [hi] at h
        cases h
        exact ⟨width_plot _ _ _, height_plot _ _ _⟩

/-- A shape painted below a layer or on it is the same. -/
theorem paintWith_overlay (c : Canvas) {layer : Canvas} (hw : layer.width = c.width)
    (hh : layer.height = c.height) {p : Paint} (hp : p.IsInked) :
    (c.overlay layer 0 0).paintWith letters p =
      (layer.paintWith letters p).map fun d => c.overlay d 0 0 := by
  obtain ⟨i, hi, hne⟩ := ink_of_inked hp
  simp only [paintWith]
  rw [width_overlay, height_overlay, hw, hh]
  cases p.shape.coverageWith letters c.width c.height with
  | error fault => rfl
  | ok covered =>
    cases covered with
    | none => rfl
    | some pixels =>
      simp only [hi]
      exact congrArg Except.ok (overlay_plot c hw hh pixels hne)

/-- **Shapes painted below a layer or on it are the same.** -/
theorem paintAllWith_overlay (c : Canvas) (ps : List Paint) (hps : ∀ p ∈ ps, p.IsInked)
    {layer : Canvas} (hw : layer.width = c.width) (hh : layer.height = c.height) :
    (c.overlay layer 0 0).paintAllWith letters ps =
      (layer.paintAllWith letters ps).map fun d => c.overlay d 0 0 := by
  induction ps generalizing layer with
  | nil => rfl
  | cons p rest ih =>
    rw [paintAllWith_cons, paintAllWith_cons,
      paintWith_overlay letters c hw hh (hps p List.mem_cons_self)]
    cases hd : layer.paintWith letters p with
    | error fault => rfl
    | ok d =>
      obtain ⟨hdw, hdh⟩ := size_paintWith letters hd
      exact ih (fun q hq => hps q (List.mem_cons_of_mem _ hq)) (hdw.trans hw) (hdh.trans hh)

/-- **A layer painted from blank is the canvas painted through.** -/
theorem paintAllWith_eq_overlay (c : Canvas) (ps : List Paint) (hps : ∀ p ∈ ps, p.IsInked) :
    c.paintAllWith letters ps =
      ((blank c.width c.height).paintAllWith letters ps).map fun d => c.overlay d 0 0 := by
  have h : (c.overlay (blank c.width c.height) 0 0).paintAllWith letters ps = _ :=
    paintAllWith_overlay letters c ps hps rfl rfl
  rwa [overlay_blank] at h

theorem paintAllWith_append (c : Canvas) (ps qs : List Paint) :
    c.paintAllWith letters (ps ++ qs) =
      (c.paintAllWith letters ps).bind fun d => d.paintAllWith letters qs := by
  induction ps generalizing c with
  | nil => rfl
  | cons p rest ih =>
    rw [List.cons_append, paintAllWith_cons, paintAllWith_cons]
    cases c.paintWith letters p with
    | error fault => rfl
    | ok d => exact ih d

end Canvas

/-! ## 4. Scenes -/

namespace Scene

/-- The fault that ends a scene, if one does. -/
def fault? (s : Scene) : Option Fault := s.acts.2

/-- A canvas, unless there is a fault. -/
def ending (fault : Option Fault) (c : Canvas) : Except Fault Canvas :=
  match fault with
  | none => .ok c
  | some fault => .error fault

theorem paints_paint (p : Paint) (rest : Scene) :
    (act (.paint p) rest).paints = p :: rest.paints := rfl

/-- What follows a group is painted if the group itself has no fault. -/
theorem paints_group (body rest : Scene) :
    (group body rest).paints =
      body.paints ++ match body.fault? with
        | none => rest.paints
        | some _ => [] := by
  simp only [paints, fault?]
  rw [acts]
  cases body.acts with
  | mk inner fault =>
    cases fault with
    | none => exact List.filterMap_append
    | some fault => exact (List.append_nil _).symm

theorem fault?_group (body rest : Scene) :
    (group body rest).fault? = body.fault?.or rest.fault? := by
  simp only [fault?]
  rw [acts]
  cases body.acts with
  | mk inner fault => cases fault <;> rfl

/-- **A scene paints like the list of all its shapes.**  The groups of the scene are painted
apart, those in the list in place; the fault that ends the scene ends both. -/
theorem paintOnWith_eq (letters : Lettering) (c : Canvas) (s : Scene)
    (h : ∀ p ∈ s.paints, p.IsInked) :
    s.paintOnWith letters c = (c.paintAllWith letters s.paints).bind (ending s.fault?) := by
  induction s generalizing c with
  | done stacked => rfl
  | failed fault => rfl
  | act a rest ih =>
    cases a with
    | note r => exact ih c h
    | paint p =>
      rw [paintOnWith, paints_paint, Canvas.paintAllWith_cons]
      cases c.paintWith letters p with
      | error fault => rfl
      | ok d => exact ih d fun q hq => h q (List.mem_cons_of_mem _ hq)
  | group body rest ihBody ihRest =>
    rw [paints_group] at h
    have hbody : ∀ p ∈ body.paints, p.IsInked := fun p hp => h p (List.mem_append_left _ hp)
    rw [paintOnWith, ihBody _ hbody, paints_group, fault?_group, Canvas.paintAllWith_append,
      Canvas.paintAllWith_eq_overlay letters c _ hbody]
    cases (Canvas.blank c.width c.height).paintAllWith letters body.paints with
    | error fault => rfl
    | ok layer =>
      cases hf : body.fault? with
      | some fault => rfl
      | none =>
        rw [hf] at h
        exact ihRest _ fun p hp => h p (List.mem_append_right _ hp)

/-- Every shape of a text's scene is in a color of the palette. -/
theorem paints_read_inked (width height steps : Int) (source : Text) :
    ∀ p ∈ (read width height steps source).paints, p.IsInked := by
  intro p hp
  obtain ⟨a, ha, hap⟩ := List.mem_filterMap.mp hp
  cases a with
  | note r => cases hap
  | paint q =>
    cases hap
    exact (read_inked width height steps source).mem_acts _ ha

/-- What a scene without a fault paints is what the list of its shapes paints. -/
theorem paintAllWith_of_paintOnWith {letters : Lettering} {c d : Canvas} {s : Scene}
    (hinked : ∀ p ∈ s.paints, p.IsInked) (h : s.paintOnWith letters c = .ok d) :
    c.paintAllWith letters s.paints = .ok d := by
  rw [paintOnWith_eq letters c s hinked] at h
  cases hp : c.paintAllWith letters s.paints with
  | error fault =>
    rw [hp] at h
    cases h
  | ok e =>
    rw [hp] at h
    cases hf : s.fault? with
    | none =>
      rw [hf] at h
      exact h
    | some fault =>
      rw [hf] at h
      cases h

end Scene

/-! ## 5. Groups -/

/-- The canvas of a rendering is the scene of the text painted on a blank canvas. -/
theorem Rendering.paintOn_of_ofTextWith {letters : Lettering} {frame : Frame} {source : Text}
    {r : Rendering} (h : Rendering.ofTextWith letters frame source = .ok r) :
    r.scene = Scene.read frame.width frame.height frame.steps source ∧
      r.scene.paintOnWith letters (Canvas.blank frame.width.toNat frame.height.toNat) =
        .ok r.canvas := by
  simp only [Rendering.ofTextWith] at h
  cases hdoc : (Document.ofText source frame.width frame.height).outcome with
  | error fault =>
    rw [hdoc] at h
    cases h
  | ok doc =>
    rw [hdoc] at h
    cases hblank : Canvas.ofSize frame.width frame.height with
    | error fault =>
      rw [hblank] at h
      cases h
    | ok blank =>
      have hb : blank = Canvas.blank frame.width.toNat frame.height.toNat := by
        simp only [Canvas.ofSize] at hblank
        split at hblank <;> cases hblank
        rfl
      rw [hblank] at h
      cases hc : (Scene.read frame.width frame.height frame.steps source).paintOnWith letters
          blank with
      | error fault =>
        simp only [hc, bind, Except.bind] at h
        cases h
      | ok canvas =>
        simp only [hc, bind, Except.bind, pure, Except.pure] at h
        cases h
        exact ⟨rfl, hb ▸ hc⟩

/-- **Groups are transparent to painting,** whatever form letters have.  The canvas of a rendering
is what all shapes of the text and of its groups, at any depth and in order, paint one after the
other on a single blank canvas.  Likewise a text painted on a blank layer, which is then put on
any canvas, leaves what its shapes leave that are painted on the canvas itself. -/
theorem groups_transparent (letters : Lettering) (frame : Frame) (source : Text) :
    (∀ r, Rendering.ofTextWith letters frame source = .ok r →
      (Canvas.blank frame.width.toNat frame.height.toNat).paintAllWith letters r.scene.paints =
        .ok r.canvas) ∧
    (∀ c layer : Canvas,
      (Scene.read frame.width frame.height frame.steps source).paintOnWith letters
          (Canvas.blank c.width c.height) = .ok layer →
        c.paintAllWith letters (Scene.read frame.width frame.height frame.steps source).paints =
          .ok (c.overlay layer 0 0)) ∧
    ∀ r, Rendering.ofText frame source = .ok r →
      (Canvas.blank frame.width.toNat frame.height.toNat).paintAll r.scene.paints =
        .ok r.canvas := by
  have hinked := Scene.paints_read_inked frame.width frame.height frame.steps source
  have hrendering : ∀ letters r, Rendering.ofTextWith letters frame source = .ok r →
      (Canvas.blank frame.width.toNat frame.height.toNat).paintAllWith letters r.scene.paints =
        .ok r.canvas := by
    intro letters r hr
    obtain ⟨hscene, hpaint⟩ := Rendering.paintOn_of_ofTextWith hr
    rw [hscene] at hpaint ⊢
    exact Scene.paintAllWith_of_paintOnWith hinked hpaint
  refine ⟨hrendering letters, fun c layer h => ?_, hrendering .blocks⟩
  rw [Canvas.paintAllWith_eq_overlay letters c _ hinked,
    Scene.paintAllWith_of_paintOnWith hinked h]
  rfl

/-- A red square, and on it a group with a black line from corner to corner. -/
def crossedSquare : Text :=
  "<rect width=\"3\" height=\"3\" fill=\"#ff2121\"/>,<g><line x2=\"3\" y2=\"3\" stroke=\"#000000\"/></g>".toList

theorem groups_transparent_crossedSquare :
    ∃ r, Rendering.ofTextWith .blocks ⟨4, 4, 10⟩ crossedSquare = .ok r ∧
      (r.canvas.get (1, 0), r.canvas.get (1, 1)) = (2, 15) ∧
      (Canvas.blank 4 4).paintAllWith .blocks r.scene.paints = .ok r.canvas := by
  have hpixels : ((Rendering.ofTextWith .blocks ⟨4, 4, 10⟩ crossedSquare).toOption.map fun r =>
      (r.canvas.get (1, 0), r.canvas.get (1, 1))) = some (2, 15) := by
    decide +kernel
  cases hr : Rendering.ofTextWith .blocks ⟨4, 4, 10⟩ crossedSquare with
  | error fault =>
    rw [hr] at hpixels
    cases hpixels
  | ok r =>
    rw [hr] at hpixels
    exact ⟨r, rfl, Option.some.inj hpixels,
      (groups_transparent .blocks ⟨4, 4, 10⟩ crossedSquare).1 r hr⟩

end VectorPaint
