/-
# Painting moment by moment

Painting a scene is described as one function from a canvas to a canvas.  What holds of a canvas
only at the end of it says nothing about the time before, so here painting is taken apart into
moments.  A moment has the canvases, one for the text and one for each group that was entered so
far, and the painters at work, one for each group that is not finished; between a moment and the
next one, at most one pixel of one canvas is written.

`Step` lists all that can happen between two moments.  That these moments are those of the
painting of a scene is `leadsTo_paintOnWith`: the moments come to the canvas that the scene
paints, or to the fault that ends it (`reaches_outcome` says so of a text).
-/
import Mathlib.Logic.Function.Basic
import Mathlib.Logic.Relation
import VectorPaint.Proofs.Layer

namespace VectorPaint

/-! ## 1. Painting as writing -/

/-- A pixel, and the index that it is given. -/
abbrev Write := Pixel × UInt8

namespace Canvas

/-- The canvas with several pixels written, one after the other. -/
def writeAll (c : Canvas) (ws : List Write) : Canvas := ws.foldl (fun c w => c.put w.1 w.2) c

/-- The pixels of a canvas that are not transparent, with their indices. -/
def shown (c : Canvas) : List Write :=
  ((box 0 0 c.width c.height).filter fun q => c.get q != 0).map fun q => (q, c.get q)

/-- What is written for a shape on a canvas of the given size. -/
def writesOf (letters : Lettering) (width height : Int) (p : Paint) :
    Except Fault (List Write) := do
  match ← p.shape.coverageWith letters width height with
  | none => return []
  | some pixels =>
    let index ← ink p.color
    return pixels.map fun q => (q, index)

/-- What is written for a shape is nothing at all, or one index for each pixel that it covers. -/
theorem writesOf_cases {letters : Lettering} {width height : Int} {p : Paint} {ws : List Write}
    (h : writesOf letters width height p = .ok ws) :
    (p.shape.coverageWith letters width height = .ok none ∧ ws = []) ∨
      ∃ pixels index, p.shape.coverageWith letters width height = .ok (some pixels) ∧
        ink p.color = .ok index ∧ ws = pixels.map fun q => (q, index) := by
  simp only [writesOf] at h
  cases hcov : p.shape.coverageWith letters width height with
  | error fault =>
    rw [hcov] at h
    cases h
  | ok covered =>
    rw [hcov] at h
    cases covered with
    | none =>
      cases h
      exact Or.inl ⟨rfl, rfl⟩
    | some pixels =>
      cases hi : ink p.color with
      | error fault =>
        simp only [hi] at h
        cases h
      | ok index =>
        simp only [hi] at h
        cases h
        exact Or.inr ⟨pixels, index, rfl, rfl, rfl⟩

theorem writeAll_map (c : Canvas) (pixels : List Pixel) (index : UInt8) :
    c.writeAll (pixels.map fun q => (q, index)) = c.plot pixels index := by
  rw [writeAll, List.foldl_map]
  rfl

/-- **Painting a shape is writing.** -/
theorem paintWith_eq_writeAll (letters : Lettering) (c : Canvas) (p : Paint) :
    c.paintWith letters p = (writesOf letters c.width c.height p).map c.writeAll := by
  simp only [paintWith, writesOf]
  cases p.shape.coverageWith letters c.width c.height with
  | error fault => rfl
  | ok covered =>
    cases covered with
    | none => rfl
    | some pixels =>
      dsimp only [bind, Except.bind]
      cases ink p.color with
      | error fault => rfl
      | ok index => exact congrArg Except.ok (writeAll_map c pixels index).symm

/-- **Putting a layer on a canvas is writing what the layer shows.** -/
theorem overlay_eq_writeAll {c layer : Canvas} (hw : layer.width = c.width)
    (hh : layer.height = c.height) : c.overlay layer 0 0 = c.writeAll layer.shown := by
  rw [overlay_eq_foldl, writeAll, shown, List.foldl_map, List.foldl_filter, hw, hh]
  simp only [Int.zero_add, Int.max_self, Int.min_self]
  congr 1
  funext d q
  simp only [overlayAt, Int.sub_zero]
  by_cases hq : layer.get q = 0 <;> simp [hq]

end Canvas

/-! ## 2. Moments -/

/-- A painter at work on a canvas: the pixels still to be written of the shape or the layer at
hand, and the scene to be painted after that. -/
structure Painter where
  /-- The number of the canvas. -/
  sheet : Nat
  writes : List Write
  scene : Scene

/-- What a finished layer shows, handed to the painter who waits for it. -/
def Painter.handOver (ws : List Write) : List Painter → List Painter
  | [] => []
  | p :: below => { p with writes := ws ++ p.writes } :: below

/-- A moment of painting. -/
structure Moment where
  /-- The canvases by their numbers.  There is no end to them. -/
  sheets : Nat → Canvas
  /-- How many canvases were taken so far. -/
  used : Nat
  /-- The painters, each of whom waits for the one before. -/
  painters : List Painter

namespace Moment

/-- The first moment: all canvases are blank, and one painter begins with the text's scene. -/
def start (frame : Frame) (source : Text) : Moment where
  sheets _ := Canvas.blank frame.width.toNat frame.height.toNat
  used := 1
  painters := [⟨0, [], Scene.read frame.width frame.height frame.steps source⟩]

/-- The next moment, if painting is not at its end. -/
def next (letters : Lettering) : Moment → Except Fault (Option Moment)
  | ⟨_, _, []⟩ => .ok none
  | ⟨sheets, used, ⟨sheet, w :: ws, scene⟩ :: below⟩ =>
    .ok (some ⟨Function.update sheets sheet ((sheets sheet).put w.1 w.2), used,
      ⟨sheet, ws, scene⟩ :: below⟩)
  | ⟨_, _, ⟨_, [], .failed fault⟩ :: _⟩ => .error fault
  | ⟨sheets, used, ⟨sheet, [], .done _⟩ :: below⟩ =>
    .ok (some ⟨sheets, used, Painter.handOver (sheets sheet).shown below⟩)
  | ⟨sheets, used, ⟨sheet, [], .act (.note _) rest⟩ :: below⟩ =>
    .ok (some ⟨sheets, used, ⟨sheet, [], rest⟩ :: below⟩)
  | ⟨sheets, used, ⟨sheet, [], .act (.paint p) rest⟩ :: below⟩ => do
    let ws ← Canvas.writesOf letters (sheets sheet).width (sheets sheet).height p
    return some ⟨sheets, used, ⟨sheet, ws, rest⟩ :: below⟩
  | ⟨sheets, used, ⟨sheet, [], .group body rest⟩ :: below⟩ =>
    .ok (some ⟨sheets, used + 1, ⟨used, [], body⟩ :: ⟨sheet, [], rest⟩ :: below⟩)

/-- One moment comes after another, at once or later. -/
def Reaches (letters : Lettering) : Moment → Moment → Prop :=
  Relation.ReflTransGen fun m m' => m.next letters = .ok (some m')

/-- All that can happen between two moments. -/
inductive Step (letters : Lettering) : Moment → Moment → Prop
  /-- A pixel is written. -/
  | write (sheets used sheet w ws scene below) :
    Step letters ⟨sheets, used, ⟨sheet, w :: ws, scene⟩ :: below⟩
      ⟨Function.update sheets sheet ((sheets sheet).put w.1 w.2), used,
        ⟨sheet, ws, scene⟩ :: below⟩
  /-- A painter is finished, and the one who waits is handed the layer. -/
  | finish (sheets used sheet stacked below) :
    Step letters ⟨sheets, used, ⟨sheet, [], .done stacked⟩ :: below⟩
      ⟨sheets, used, Painter.handOver (sheets sheet).shown below⟩
  /-- A note is passed over. -/
  | note (sheets used sheet r rest below) :
    Step letters ⟨sheets, used, ⟨sheet, [], .act (.note r) rest⟩ :: below⟩
      ⟨sheets, used, ⟨sheet, [], rest⟩ :: below⟩
  /-- A shape is taken up. -/
  | paint (sheets used sheet p rest below) {ws}
    (h : Canvas.writesOf letters (sheets sheet).width (sheets sheet).height p = .ok ws) :
    Step letters ⟨sheets, used, ⟨sheet, [], .act (.paint p) rest⟩ :: below⟩
      ⟨sheets, used, ⟨sheet, ws, rest⟩ :: below⟩
  /-- A group is entered, with a canvas that was not in use. -/
  | enter (sheets used sheet body rest below) :
    Step letters ⟨sheets, used, ⟨sheet, [], .group body rest⟩ :: below⟩
      ⟨sheets, used + 1, ⟨used, [], body⟩ :: ⟨sheet, [], rest⟩ :: below⟩

variable {letters : Lettering} {m m' : Moment}

/-- **A moment's next one is a step away.** -/
theorem next_iff_step : m.next letters = .ok (some m') ↔ Step letters m m' := by
  constructor
  · intro h
    obtain ⟨sheets, used, painters⟩ := m
    cases painters with
    | nil => cases h
    | cons p below =>
      obtain ⟨sheet, writes, scene⟩ := p
      cases writes with
      | cons w ws =>
        cases h
        exact .write ..
      | nil =>
        cases scene with
        | failed fault => cases h
        | done stacked =>
          cases h
          exact .finish ..
        | group body rest =>
          cases h
          exact .enter ..
        | act a rest =>
          cases a with
          | note r =>
            cases h
            exact .note ..
          | paint p =>
            dsimp only [next] at h
            cases hws : Canvas.writesOf letters (sheets sheet).width (sheets sheet).height p with
            | error fault =>
              rw [hws] at h
              cases h
            | ok ws =>
              rw [hws] at h
              cases h
              exact .paint _ _ _ _ _ _ hws
  · intro h
    cases h with
    | write | finish | note | enter => rfl
    | paint _ _ _ _ _ _ hws =>
      dsimp only [next]
      rw [hws]
      rfl

/-- What one step preserves holds at all later moments. -/
theorem Reaches.preserves {P : Moment → Prop} (hstep : ∀ m m', Step letters m m' → P m → P m')
    (h : m.Reaches letters m') (hm : P m) : P m' := by
  induction h with
  | refl => exact hm
  | tail _ hnext ih => exact hstep _ _ (next_iff_step.mp hnext) ih

theorem Reaches.trans {m'' : Moment} (h : m.Reaches letters m') (h' : m'.Reaches letters m'') :
    m.Reaches letters m'' := Relation.ReflTransGen.trans h h'

theorem Step.reaches (h : Step letters m m') : m.Reaches letters m' :=
  .single (next_iff_step.mpr h)

/-- The moment so many steps later, if painting goes on for so long. -/
def later? (letters : Lettering) : Nat → Moment → Option Moment
  | 0, m => some m
  | n + 1, m =>
    match m.next letters with
    | .ok (some m') => m'.later? letters n
    | _ => none

/-- A moment some steps later is reached. -/
theorem reaches_of_later? {n : Nat} (h : m.later? letters n = some m') : m.Reaches letters m' := by
  induction n generalizing m with
  | zero =>
    cases h
    exact .refl
  | succ n ih =>
    unfold later? at h
    split at h
    · rename_i hnext
      exact .head hnext (ih h)
    · cases h

/-! ## 3. Canvases in use -/

/-- All canvases have one size, those not in use are blank, and painters work on those in use. -/
structure IsTidy (width height : Nat) (m : Moment) : Prop where
  size : ∀ i, (m.sheets i).width = width ∧ (m.sheets i).height = height
  unused : ∀ i, m.used ≤ i → m.sheets i = Canvas.blank width height
  inUse : ∀ p ∈ m.painters, p.sheet < m.used

variable {width height : Nat}

theorem isTidy_start (frame : Frame) (source : Text) :
    (start frame source).IsTidy frame.width.toNat frame.height.toNat where
  size _ := ⟨rfl, rfl⟩
  unused _ _ := rfl
  inUse p hp := by
    cases List.mem_singleton.mp hp
    exact Nat.zero_lt_one

theorem isTidy_step (h : Step letters m m') (hm : m.IsTidy width height) :
    m'.IsTidy width height := by
  obtain ⟨hsize, hunused, hinUse⟩ := hm
  cases h with
  | write sheets used sheet w ws scene below =>
    have hsheet : sheet < used := hinUse _ List.mem_cons_self
    refine ⟨fun i => ?_, fun i hi => ?_, ?_⟩
    · by_cases his : i = sheet
      · subst his
        simpa using hsize i
      · simpa [his] using hsize i
    · have his : i ≠ sheet := Nat.ne_of_gt (Nat.lt_of_lt_of_le hsheet hi)
      simpa [his] using hunused i hi
    · exact List.forall_mem_cons.mpr ⟨hsheet, fun p hp => hinUse p (List.mem_cons_of_mem _ hp)⟩
  | finish sheets used sheet stacked below =>
    refine ⟨hsize, hunused, ?_⟩
    cases below with
    | nil => exact fun p hp => absurd hp List.not_mem_nil
    | cons parent below =>
      refine List.forall_mem_cons.mpr ⟨hinUse parent (by simp), fun p hp => hinUse p (by simp [hp])⟩
  | note | paint =>
    obtain ⟨hsheet, hbelow⟩ := List.forall_mem_cons.mp hinUse
    exact ⟨hsize, hunused, List.forall_mem_cons.mpr ⟨hsheet, hbelow⟩⟩
  | enter sheets used sheet body rest below =>
    obtain ⟨hsheet, hbelow⟩ := List.forall_mem_cons.mp hinUse
    refine ⟨hsize, fun i hi => hunused i (Nat.le_of_succ_le hi), ?_⟩
    refine List.forall_mem_cons.mpr ⟨Nat.lt_succ_self used, List.forall_mem_cons.mpr ⟨?_, ?_⟩⟩
    · exact Nat.lt_succ_of_lt hsheet
    · exact fun p hp => Nat.lt_succ_of_lt (hbelow p hp)

/-! ## 4. The run of a scene -/

/-- Painting a scene on a sheet comes to an outcome: either the painter is finished, and of the
canvases that were in use only the painter's own is changed, or there is a fault. -/
def LeadsTo (letters : Lettering) (sheet : Nat) (below : List Painter) (m : Moment) :
    Except Fault Canvas → Prop
  | .ok d => ∃ sheets used stacked,
      m.Reaches letters ⟨sheets, used, ⟨sheet, [], .done stacked⟩ :: below⟩ ∧
        sheets sheet = d ∧ m.used ≤ used ∧ ∀ i < m.used, i ≠ sheet → sheets i = m.sheets i
  | .error fault => ∃ stop, m.Reaches letters stop ∧ stop.next letters = .error fault

/-- A run may be preceded by one that changes the painter's own canvas only. -/
theorem LeadsTo.after {sheet : Nat} {below : List Painter} {outcome : Except Fault Canvas}
    (hreach : m.Reaches letters m') (hused : m.used ≤ m'.used)
    (hframe : ∀ i < m.used, i ≠ sheet → m'.sheets i = m.sheets i)
    (h : m'.LeadsTo letters sheet below outcome) : m.LeadsTo letters sheet below outcome := by
  cases outcome with
  | error fault =>
    obtain ⟨stop, hstop, hfault⟩ := h
    exact ⟨stop, hreach.trans hstop, hfault⟩
  | ok d =>
    obtain ⟨sheets, used, stacked, hend, hd, hle, hsame⟩ := h
    refine ⟨sheets, used, stacked, hreach.trans hend, hd, Nat.le_trans hused hle, ?_⟩
    intro i hi hne
    exact (hsame i (Nat.lt_of_lt_of_le hi hused) hne).trans (hframe i hi hne)

/-- The pixels at hand are all written. -/
theorem reaches_writeAll (sheets : Nat → Canvas) (used sheet : Nat) (ws : List Write)
    (scene : Scene) (below : List Painter) :
    Reaches letters ⟨sheets, used, ⟨sheet, ws, scene⟩ :: below⟩
      ⟨Function.update sheets sheet ((sheets sheet).writeAll ws), used,
        ⟨sheet, [], scene⟩ :: below⟩ := by
  induction ws generalizing sheets with
  | nil =>
    have hnone : Function.update sheets sheet ((sheets sheet).writeAll []) = sheets :=
      Function.update_eq_self sheet sheets
    rw [hnone]
    exact .refl
  | cons w ws ih =>
    refine (Step.write sheets used sheet w ws scene below).reaches.trans ?_
    have hrest := ih (Function.update sheets sheet ((sheets sheet).put w.1 w.2))
    rwa [Function.update_idem, Function.update_self] at hrest

/-- **The moments of a scene come to what the scene paints.** -/
theorem leadsTo_paintOnWith (letters : Lettering) (scene : Scene) {sheets : Nat → Canvas}
    {used sheet : Nat} {below : List Painter}
    (hm : IsTidy width height ⟨sheets, used, ⟨sheet, [], scene⟩ :: below⟩) :
    LeadsTo letters sheet below ⟨sheets, used, ⟨sheet, [], scene⟩ :: below⟩
      (scene.paintOnWith letters (sheets sheet)) := by
  induction scene generalizing sheets used sheet below with
  | done stacked => exact ⟨sheets, used, stacked, .refl, rfl, Nat.le_refl _, fun _ _ _ => rfl⟩
  | failed fault => exact ⟨_, .refl, rfl⟩
  | act a rest ih =>
    cases a with
    | note r =>
      have hstep : Step letters _ _ := .note sheets used sheet r rest below
      exact (ih (isTidy_step hstep hm)).after hstep.reaches (Nat.le_refl _) fun _ _ _ => rfl
    | paint p =>
      rw [Scene.paintOnWith, Canvas.paintWith_eq_writeAll]
      cases hws : Canvas.writesOf letters (sheets sheet).width (sheets sheet).height p with
      | error fault =>
        refine ⟨_, .refl, ?_⟩
        dsimp only [next]
        rw [hws]
        rfl
      | ok ws =>
        have hrun := (Step.paint sheets used sheet p rest below hws).reaches.trans
          (reaches_writeAll sheets used sheet ws rest below)
        have hrest := ih (hrun.preserves (fun _ _ => isTidy_step) hm)
        rw [Function.update_self] at hrest
        refine hrest.after hrun (Nat.le_refl _) fun i _ hne => ?_
        exact Function.update_of_ne hne _ _
  | group body rest ihBody ihRest =>
    have hsheet : sheet < used := hm.inUse _ List.mem_cons_self
    have henter : Step letters _ _ := .enter sheets used sheet body rest below
    -- The group's painter begins on a blank canvas of the same size.
    have hblank : sheets used = Canvas.blank (sheets sheet).width (sheets sheet).height := by
      rw [show sheets used = _ from hm.unused used (Nat.le_refl _), (hm.size sheet).1,
        (hm.size sheet).2]
    have hbody := ihBody (isTidy_step henter hm)
    rw [hblank] at hbody
    rw [Scene.paintOnWith]
    cases hlayer : body.paintOnWith letters
        (Canvas.blank (sheets sheet).width (sheets sheet).height) with
    | error fault =>
      rw [hlayer] at hbody
      obtain ⟨stop, hstop, hfault⟩ := hbody
      exact ⟨stop, henter.reaches.trans hstop, hfault⟩
    | ok layer =>
      rw [hlayer] at hbody
      obtain ⟨sheets', used', stacked, hend, rfl, hle, hsame⟩ := hbody
      have hown : sheets' sheet = sheets sheet :=
        hsame sheet (Nat.lt_succ_of_lt hsheet) (Nat.ne_of_lt hsheet)
      have hdone := henter.reaches.trans hend
      have htidy := hdone.preserves (fun _ _ => isTidy_step) hm
      -- The layer is finished, and then written on the canvas below.
      have hrun := (hdone.trans (Step.finish ..).reaches).trans
        (reaches_writeAll sheets' used' sheet ((sheets' used).shown ++ []) rest below)
      have hover : (sheets' sheet).writeAll ((sheets' used).shown ++ []) =
          (sheets sheet).overlay (sheets' used) 0 0 := by
        rw [List.append_nil, hown, Canvas.overlay_eq_writeAll
          ((htidy.size used).1.trans (hm.size sheet).1.symm)
          ((htidy.size used).2.trans (hm.size sheet).2.symm)]
      rw [hover] at hrun
      have hrest := ihRest (hrun.preserves (fun _ _ => isTidy_step) hm)
      rw [Function.update_self] at hrest
      refine hrest.after hrun (Nat.le_of_succ_le hle) fun i hi hne => ?_
      exact (Function.update_of_ne hne _ _).trans
        (hsame i (Nat.lt_succ_of_lt hi) (Nat.ne_of_lt hi))

/-! ## 5. The run of a text -/

/-- What a text comes to if this is the last moment: the first canvas, or a fault. -/
def outcome? (letters : Lettering) (m : Moment) : Option (Except Fault Canvas) :=
  match m.next letters with
  | .ok (some _) => none
  | .ok none => some (.ok (m.sheets 0))
  | .error fault => some (.error fault)

theorem sheets_of_outcome? {c : Canvas} (h : m.outcome? letters = some (.ok c)) :
    m.sheets 0 = c := by
  unfold outcome? at h
  split at h
  · cases h
  · cases h
    rfl
  · cases h

/-- **The moments of a text come to an end,** and there to what its scene paints, canvas or
fault. -/
theorem reaches_outcome (letters : Lettering) (frame : Frame) (source : Text) :
    ∃ last, (start frame source).Reaches letters last ∧
      last.outcome? letters =
        some ((Scene.read frame.width frame.height frame.steps source).paintOnWith letters
          (Canvas.blank frame.width.toNat frame.height.toNat)) := by
  have hrun := leadsTo_paintOnWith letters _ (isTidy_start frame source)
  cases hpaint : (Scene.read frame.width frame.height frame.steps source).paintOnWith letters
      (Canvas.blank frame.width.toNat frame.height.toNat) with
  | error fault =>
    rw [hpaint] at hrun
    obtain ⟨stop, hstop, hfault⟩ := hrun
    refine ⟨stop, hstop, ?_⟩
    unfold outcome?
    rw [hfault]
  | ok c =>
    rw [hpaint] at hrun
    obtain ⟨sheets, used, stacked, hend, rfl, -, -⟩ := hrun
    -- The painter of the text is finished, and nobody waits for the canvas.
    exact ⟨_, hend.trans (Step.finish ..).reaches, rfl⟩

/-- The canvas of a rendering is the first one at some moment of its text. -/
theorem reaches_canvas {frame : Frame} {source : Text} {r : Rendering}
    (h : Rendering.ofTextWith letters frame source = .ok r) :
    ∃ last, (start frame source).Reaches letters last ∧ last.sheets 0 = r.canvas := by
  obtain ⟨hscene, hpaint⟩ := Rendering.paintOn_of_ofTextWith h
  obtain ⟨last, hlast, houtcome⟩ := reaches_outcome letters frame source
  rw [← hscene, hpaint] at houtcome
  exact ⟨last, hlast, sheets_of_outcome? houtcome⟩

/-- The canvas of a rendering has the size of the frame. -/
theorem size_canvas {frame : Frame} {source : Text} {r : Rendering}
    (h : Rendering.ofTextWith letters frame source = .ok r) :
    r.canvas.width = frame.width.toNat ∧ r.canvas.height = frame.height.toNat := by
  obtain ⟨last, hlast, hcanvas⟩ := reaches_canvas h
  have hsize := (hlast.preserves (fun _ _ => isTidy_step) (isTidy_start frame source)).size 0
  rwa [hcanvas] at hsize

end Moment

end VectorPaint
