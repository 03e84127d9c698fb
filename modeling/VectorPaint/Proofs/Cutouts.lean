/-
# How a layer is copied

A layer is put on a canvas by copying a cutout of the layer onto a cutout of the canvas.  Both are
the part that the two have in common, once with the bounds that it has on the canvas and once with
those that it has on the layer (`overlap`, `Cutout.moved`).

Bounds are not safe as such.  One below zero does not fail, but counts from the far end of its axis,
and one past an end is moved there; and two cutouts of different extents cannot be copied onto each
other at all (`edge`, `copy`).  None of this happens here: where the part is not empty, all bounds
of both cutouts lie on their axes, so both cutouts are what they seem to be and have one extent,
and copying goes through the pixels that the layer was said to be put on (`copy_overlap`).  With
what shows of a layer this gives every pixel of the result (`overlay_copies`).
-/
import VectorPaint.Proofs.Layer

namespace VectorPaint

namespace Canvas

/-! ## 1. Cutouts and their bounds -/

/-- A cutout of a canvas by its bounds, the right and the lower one left out. -/
structure Cutout where
  left : Int
  top : Int
  right : Int
  bottom : Int
  deriving DecidableEq

/-- The place that a bound names on an axis.  A bound below zero counts from the end of the axis,
and a bound past an end names that end. -/
def edge (length : Nat) (bound : Int) : Nat := min (Text.anchor length bound) length

namespace Cutout

/-- The pixels that a cutout takes from a canvas, row after row. -/
def pixels (cutout : Cutout) (c : Canvas) : List Pixel :=
  box (edge c.width cutout.left) (edge c.height cutout.top) (edge c.width cutout.right)
    (edge c.height cutout.bottom)

/-- The numbers of columns and of rows that a cutout takes from a canvas. -/
def extent (cutout : Cutout) (c : Canvas) : Nat × Nat :=
  (edge c.width cutout.right - edge c.width cutout.left,
    edge c.height cutout.bottom - edge c.height cutout.top)

/-- There is no column or no row between the bounds. -/
def IsEmpty (cutout : Cutout) : Prop := cutout.right ≤ cutout.left ∨ cutout.bottom ≤ cutout.top

/-- No bound is below zero, and none is past an edge. -/
structure IsWithin (cutout : Cutout) (c : Canvas) : Prop where
  left : 0 ≤ cutout.left ∧ cutout.left ≤ c.width
  right : 0 ≤ cutout.right ∧ cutout.right ≤ c.width
  top : 0 ≤ cutout.top ∧ cutout.top ≤ c.height
  bottom : 0 ≤ cutout.bottom ∧ cutout.bottom ≤ c.height

/-- A cutout of the same extent elsewhere. -/
def moved (cutout : Cutout) (dx dy : Int) : Cutout :=
  ⟨cutout.left + dx, cutout.top + dy, cutout.right + dx, cutout.bottom + dy⟩

end Cutout

/-- The part that a canvas has in common with a layer, in the coordinates of the canvas. -/
def overlap (c layer : Canvas) (dx dy : Int) : Cutout :=
  ⟨max 0 dx, max 0 dy, min c.width (dx + layer.width), min c.height (dy + layer.height)⟩

/-- One pixel copied to another, unless it is transparent: of two canvases, the first is written to
and the second is read. -/
def copyPixel (canvases : Canvas × Canvas) (pixels : Pixel × Pixel) : Canvas × Canvas :=
  let ink := canvases.2.get pixels.2
  if ink == 0 then canvases else (canvases.1.put pixels.1 ink, canvases.2)

/-- A cutout of the second canvas copied pixel by pixel onto a cutout of the first.  Their extents
must be the same. -/
def copy (canvases : Canvas × Canvas) (onto source : Cutout) : Option (Canvas × Canvas) :=
  if onto.extent canvases.1 = source.extent canvases.2 then
    some (((onto.pixels canvases.1).zip (source.pixels canvases.2)).foldl copyPixel canvases)
  else none

/-! ## 2. Cutouts within a canvas -/

/-- A bound on the axis names itself. -/
theorem edge_of_within {length : Nat} {bound : Int} (h : 0 ≤ bound ∧ bound ≤ length) :
    (edge length bound : Int) = bound := by
  obtain ⟨n, rfl⟩ := Int.eq_ofNat_of_zero_le h.1
  have hn : n ≤ length := Int.ofNat_le.mp h.2
  rw [edge, Text.anchor_natCast, Nat.min_eq_left hn]

namespace Cutout

variable {cutout : Cutout} {c : Canvas}

theorem IsWithin.pixels_eq (h : cutout.IsWithin c) :
    cutout.pixels c = box cutout.left cutout.top cutout.right cutout.bottom := by
  rw [pixels, edge_of_within h.left, edge_of_within h.right, edge_of_within h.top,
    edge_of_within h.bottom]

/-- The extent follows from the bounds alone. -/
theorem IsWithin.extent_eq (h : cutout.IsWithin c) :
    cutout.extent c = ((cutout.right - cutout.left).toNat, (cutout.bottom - cutout.top).toNat) := by
  have hleft := edge_of_within h.left
  have hright := edge_of_within h.right
  have htop := edge_of_within h.top
  have hbottom := edge_of_within h.bottom
  rw [extent, Prod.mk.injEq]
  omega

end Cutout

theorem interval_add (start stop d : Int) :
    interval (start + d) (stop + d) = (interval start stop).map (· + d) := by
  rw [interval, interval, List.map_map, Int.add_sub_add_right]
  refine List.map_congr_left fun i _ => ?_
  exact Int.add_right_comm start d i

/-- Moving a rectangle moves its pixels, in the same order. -/
theorem box_add (left top right bottom dx dy : Int) :
    box (left + dx) (top + dy) (right + dx) (bottom + dy) =
      (box left top right bottom).map fun p => (p.1 + dx, p.2 + dy) := by
  rw [box, box, interval_add, interval_add, List.flatMap_map, List.map_flatMap]
  simp only [List.map_map, Function.comp_def]

/-! ## 3. Copying the common part -/

/-- Copying pixels from the places that a layer has them at is putting the layer there, and it
leaves the layer alone. -/
theorem foldl_copyPixel (layer : Canvas) (dx dy : Int) (pixels : List Pixel) (c : Canvas) :
    (pixels.map fun p => (p, ((p.1 + -dx, p.2 + -dy) : Pixel))).foldl copyPixel (c, layer) =
      (pixels.foldl (overlayAt layer dx dy) c, layer) := by
  induction pixels generalizing c with
  | nil => rfl
  | cons p ps ih =>
    have hstep : copyPixel (c, layer) (p, (p.1 + -dx, p.2 + -dy)) =
        (overlayAt layer dx dy c p, layer) := by
      simp only [copyPixel, overlayAt, ← Int.sub_eq_add_neg]
      split <;> rfl
    rw [List.map_cons, List.foldl_cons, List.foldl_cons, hstep, ih]

section Overlap

variable {c layer : Canvas} {dx dy : Int}

/-- **The bounds of the common part lie on the axes of both canvases.** -/
theorem overlap_isWithin (h : ¬ (overlap c layer dx dy).IsEmpty) :
    (overlap c layer dx dy).IsWithin c ∧
      ((overlap c layer dx dy).moved (-dx) (-dy)).IsWithin layer := by
  simp only [Cutout.IsEmpty, overlap, not_or, Int.not_le] at h
  obtain ⟨hx, hy⟩ := h
  constructor
  · constructor <;> simp only [overlap] <;> omega
  · constructor <;> simp only [overlap, Cutout.moved] <;> omega

/-- **So the two cutouts can be copied onto each other, and this puts the layer on the canvas.** -/
theorem copy_overlap (h : ¬ (overlap c layer dx dy).IsEmpty) :
    copy (c, layer) (overlap c layer dx dy) ((overlap c layer dx dy).moved (-dx) (-dy)) =
      some (c.overlay layer dx dy, layer) := by
  obtain ⟨honto, hsource⟩ := overlap_isWithin h
  have hextent : (overlap c layer dx dy).extent c =
      ((overlap c layer dx dy).moved (-dx) (-dy)).extent layer := by
    rw [honto.extent_eq, hsource.extent_eq, Cutout.moved]
    simp only [Int.add_sub_add_right]
  rw [copy, if_pos hextent, honto.pixels_eq, hsource.pixels_eq, Cutout.moved, box_add,
    ← List.map_prod_left_eq_zip, foldl_copyPixel, overlay_eq_foldl]
  rfl

/-- Without a common part there is nothing to do. -/
theorem overlay_of_isEmpty (h : (overlap c layer dx dy).IsEmpty) : c.overlay layer dx dy = c := by
  have hnone : box (max 0 dx) (max 0 dy) (min c.width (dx + layer.width))
      (min c.height (dy + layer.height)) = [] := by
    refine List.eq_nil_iff_forall_not_mem.mpr fun p hp => ?_
    have hbounds := mem_box.mp hp
    simp only [Cutout.IsEmpty, overlap] at h
    omega
  rw [overlay_eq_foldl, hnone, List.foldl_nil]

end Overlap

/-- **A layer is copied exactly,** wherever it is put.  A pixel of the canvas is afterwards the
pixel of the layer above it, if there is one and it is not transparent, and what it was before
otherwise.  Where canvas and layer have no part in common nothing is done.  Where they do, all
bounds of this part lie on the axes of the canvas, those of the same part of the layer lie on the
axes of the layer, and copying the one cutout onto the other succeeds; it leaves this canvas, and
the layer as it was. -/
theorem overlay_copies (c layer : Canvas) (dx dy : Int) :
    let onto := overlap c layer dx dy
    let source := onto.moved (-dx) (-dy)
    ((c.overlay layer dx dy).width = c.width ∧ (c.overlay layer dx dy).height = c.height) ∧
    (∀ x y, c.holds (x, y) = true → (c.overlay layer dx dy).get (x, y) =
      if layer.holds (x - dx, y - dy) = true ∧ layer.get (x - dx, y - dy) ≠ 0 then
        layer.get (x - dx, y - dy)
      else c.get (x, y)) ∧
    (onto.IsEmpty → c.overlay layer dx dy = c) ∧
    (¬ onto.IsEmpty → onto.IsWithin c ∧ source.IsWithin layer ∧
      copy (c, layer) onto source = some (c.overlay layer dx dy, layer)) := by
  intro onto source
  refine ⟨⟨width_overlay _ _ _ _, height_overlay _ _ _ _⟩, fun x y hc => ?_, overlay_of_isEmpty,
    fun h => ⟨(overlap_isWithin h).1, (overlap_isWithin h).2, copy_overlap h⟩⟩
  rw [get_overlay]
  by_cases hink : layer.get (x - dx, y - dy) = 0
  · rw [if_neg fun h => h.2 hink, if_neg fun h => h.2 hink]
  · have hholds : layer.holds (x - dx, y - dy) = true :=
      Decidable.byContradiction fun h => hink (get_of_not_holds h)
    rw [if_pos ⟨hc, hink⟩, if_pos ⟨hholds, hink⟩]

/-- A canvas of three columns and two rows, with one pixel painted. -/
def dotted : Canvas := (blank 3 2).put (1, 0) 4

/-- A layer of two columns and three rows that is transparent in one corner. -/
def cornered : Canvas := (blank 2 3).plot [(1, 0), (0, 1), (1, 1), (0, 2), (1, 2)] 7

theorem overlay_copies_cornered :
    dotted.holds (0, 1) = true ∧ ¬ (overlap dotted cornered (-1) (-1)).IsEmpty ∧
      (dotted.overlay cornered (-1) (-1)).get (0, 1) = 7 ∧
      (copy (dotted, cornered) ⟨0, 0, 1, 2⟩ ⟨1, 1, 2, 3⟩).isSome = true ∧
      (overlap dotted cornered 3 (-9)).IsEmpty ∧ dotted.overlay cornered 3 (-9) = dotted := by
  have hholds : dotted.holds (0, 1) = true := by decide
  have hcommon : ¬ (overlap dotted cornered (-1) (-1)).IsEmpty := by
    rw [Cutout.IsEmpty]
    decide
  have hapart : (overlap dotted cornered 3 (-9)).IsEmpty := by
    rw [Cutout.IsEmpty]
    decide
  obtain ⟨-, hpixels, -, hcopy⟩ := overlay_copies dotted cornered (-1) (-1)
  refine ⟨hholds, hcommon, (hpixels 0 1 hholds).trans (by decide), ?_, hapart,
    (overlay_copies dotted cornered 3 (-9)).2.2.1 hapart⟩
  exact Option.isSome_iff_exists.mpr ⟨_, (hcopy hcommon).2.2⟩

end Canvas

end VectorPaint
