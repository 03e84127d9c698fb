/-
# The canvas

A canvas holds a palette index for each of its pixels, row after row.  Outside of the canvas
there is nothing: reading there gives the transparent index, and writing there has no effect.

Painting comes down to writing one index to a list of pixels.  `get_plot` says what that does:
the pixels of the list have the index afterwards, and all others have what they had.
-/
import VectorPaint.Palette

namespace VectorPaint

/-- A column and a row. -/
abbrev Pixel := Int × Int

/-- The indices of a grid of pixels, row after row from the top. -/
structure Canvas where
  width : Nat
  height : Nat
  cells : Array UInt8
  size_cells : cells.size = width * height

namespace Canvas

/-! ## 1. Pixels -/

/-- The canvas on which nothing was painted. -/
def blank (width height : Nat) : Canvas :=
  ⟨width, height, Array.replicate (width * height) 0, by simp⟩

/-- The blank canvas of a size, which must not be negative. -/
def ofSize (width height : Int) : Except Fault Canvas :=
  if width < 0 ∨ height < 0 then .error .negativeSize else .ok (blank width.toNat height.toNat)

/-- Whether a pixel lies on the canvas. -/
def holds (c : Canvas) (p : Pixel) : Bool :=
  0 ≤ p.1 && p.1 < c.width && 0 ≤ p.2 && p.2 < c.height

/-- The place of a pixel among the cells. -/
def place (c : Canvas) (p : Pixel) : Nat := p.2.toNat * c.width + p.1.toNat

/-- The index of a pixel. -/
def get (c : Canvas) (p : Pixel) : UInt8 := if c.holds p then c.cells.getD (c.place p) 0 else 0

/-- The canvas with one pixel written. -/
def put (c : Canvas) (p : Pixel) (ink : UInt8) : Canvas :=
  if c.holds p then
    { c with
      cells := c.cells.setIfInBounds (c.place p) ink
      size_cells := by simpa using c.size_cells }
  else c

/-- The canvas with one index written to all pixels of a list. -/
def plot (c : Canvas) (pixels : List Pixel) (ink : UInt8) : Canvas :=
  pixels.foldl (fun c p => c.put p ink) c

/-- Whether nothing was painted. -/
def isBlank (c : Canvas) : Bool := c.cells.all (· == 0)

/-! ## 2. Colors -/

/-- The index that a color has in a pixel. -/
def ink (color : Int) : Except Fault UInt8 :=
  if 0 ≤ color ∧ color ≤ 255 then .ok color.toNat.toUInt8 else .error (.colorRange color)

/-- The canvas with one pixel in a color.  Only a pixel on the canvas needs a color that fits. -/
def setPixel (c : Canvas) (p : Pixel) (color : Int) : Except Fault Canvas :=
  if c.holds p then (ink color).map (c.put p) else .ok c

/-! ## 3. Rectangles of pixels -/

/-- The whole numbers from one up to another, which is left out. -/
def interval (start stop : Int) : List Int :=
  (List.range (stop - start).toNat).map fun (i : Nat) => start + i

/-- The pixels of a rectangle, row after row, the right and the lower bound left out. -/
def box (left top right bottom : Int) : List Pixel :=
  (interval top bottom).flatMap fun y => (interval left right).map fun x => (x, y)

/-- Another canvas put on this one, its upper left corner at a given pixel.  Transparent pixels
leave what is below them. -/
def overlay (c other : Canvas) (dx dy : Int) : Canvas :=
  let area := box (max 0 dx) (max 0 dy) (min c.width (dx + other.width))
    (min c.height (dy + other.height))
  area.foldl (fun c p =>
    let ink := other.get (p.1 - dx, p.2 - dy)
    if ink == 0 then c else c.put p ink) c

/-! ## 4. What writing does -/

@[simp] theorem width_put (c : Canvas) (p : Pixel) (ink : UInt8) :
    (c.put p ink).width = c.width := by
  unfold put
  split <;> rfl

@[simp] theorem height_put (c : Canvas) (p : Pixel) (ink : UInt8) :
    (c.put p ink).height = c.height := by
  unfold put
  split <;> rfl

@[simp] theorem holds_put (c : Canvas) (p q : Pixel) (ink : UInt8) :
    (c.put p ink).holds q = c.holds q := by
  simp [holds]

@[simp] theorem width_plot (c : Canvas) (pixels : List Pixel) (ink : UInt8) :
    (c.plot pixels ink).width = c.width := by
  unfold plot
  induction pixels generalizing c with
  | nil => rfl
  | cons p ps ih => rw [List.foldl_cons, ih, width_put]

@[simp] theorem height_plot (c : Canvas) (pixels : List Pixel) (ink : UInt8) :
    (c.plot pixels ink).height = c.height := by
  unfold plot
  induction pixels generalizing c with
  | nil => rfl
  | cons p ps ih => rw [List.foldl_cons, ih, height_put]

theorem holds_iff {c : Canvas} {p : Pixel} :
    c.holds p = true ↔ 0 ≤ p.1 ∧ p.1 < c.width ∧ 0 ≤ p.2 ∧ p.2 < c.height := by
  simp [holds, and_assoc]

/-- A pixel on the canvas has a place among the cells. -/
theorem place_lt {c : Canvas} {p : Pixel} (h : c.holds p = true) : c.place p < c.cells.size := by
  obtain ⟨h1, h2, h3, h4⟩ := holds_iff.mp h
  rw [c.size_cells]
  unfold place
  have hx : p.1.toNat < c.width := by omega
  have hy : p.2.toNat + 1 ≤ c.height := by omega
  calc
    p.2.toNat * c.width + p.1.toNat < p.2.toNat * c.width + c.width := by omega
    _ = (p.2.toNat + 1) * c.width := by rw [Nat.succ_mul]
    _ ≤ c.height * c.width := Nat.mul_le_mul_right _ hy
    _ = c.width * c.height := Nat.mul_comm _ _

/-- Two pixels on the canvas have the same place only if they are the same. -/
theorem place_inj {c : Canvas} {p q : Pixel} (hp : c.holds p = true) (hq : c.holds q = true)
    (h : c.place p = c.place q) : p = q := by
  obtain ⟨p1, p2, p3, p4⟩ := holds_iff.mp hp
  obtain ⟨q1, q2, q3, q4⟩ := holds_iff.mp hq
  unfold place at h
  have hpx : p.1.toNat < c.width := by omega
  have hqx : q.1.toNat < c.width := by omega
  have hy : p.2.toNat = q.2.toNat := by
    have := congrArg (· / c.width) h
    have hw : 0 < c.width := by omega
    simpa [Nat.mul_add_div, Nat.mul_comm _ c.width, Nat.div_eq_of_lt, hpx, hqx, hw] using this
  have hx : p.1.toNat = q.1.toNat := by
    rw [hy] at h
    omega
  exact Prod.ext (by omega) (by omega)

/-- **Writing a pixel.**  The pixel written has the new index, and all others have what they
had. -/
theorem get_put (c : Canvas) (p q : Pixel) (ink : UInt8) :
    (c.put p ink).get q = if q = p ∧ c.holds q = true then ink else c.get q := by
  unfold get
  rw [holds_put]
  by_cases hq : c.holds q = true
  · have hplace : (c.put p ink).place q = c.place q := by simp [place]
    rw [if_pos hq, hplace, if_pos hq]
    unfold put
    by_cases hp : c.holds p = true
    · rw [if_pos hp]
      by_cases hqp : q = p
      · subst hqp
        have := place_lt hq
        simp [hq, Array.getD, this]
      · have hne : c.place p ≠ c.place q := fun h => hqp (place_inj hp hq h).symm
        have := place_lt hq
        simp [hqp, Array.getD, this, hne]
    · rw [if_neg hp]
      have hqp : q ≠ p := fun h => hp (h ▸ hq)
      simp [hqp]
  · simp [hq]

/-- **Writing a list of pixels.**  The pixels of the list have the new index, and all others have
what they had. -/
theorem get_plot (c : Canvas) (pixels : List Pixel) (ink : UInt8) (q : Pixel) :
    (c.plot pixels ink).get q = if q ∈ pixels ∧ c.holds q = true then ink else c.get q := by
  unfold plot
  induction pixels generalizing c with
  | nil => simp
  | cons p ps ih =>
    rw [List.foldl_cons, ih, holds_put, get_put]
    by_cases hps : q ∈ ps <;> by_cases hqp : q = p <;> by_cases hq : c.holds q = true <;>
      simp [hps, hqp, hq] <;> simp_all

/-- The numbers of an interval. -/
theorem mem_interval {start stop n : Int} : n ∈ interval start stop ↔ start ≤ n ∧ n < stop := by
  unfold interval
  rw [List.mem_map]
  constructor
  · rintro ⟨i, hi, rfl⟩
    have := List.mem_range.mp hi
    omega
  · rintro ⟨h1, h2⟩
    exact ⟨(n - start).toNat, List.mem_range.mpr (by omega), by omega⟩

/-- The pixels of a rectangle. -/
theorem mem_box {left top right bottom : Int} {p : Pixel} :
    p ∈ box left top right bottom ↔
      left ≤ p.1 ∧ p.1 < right ∧ top ≤ p.2 ∧ p.2 < bottom := by
  obtain ⟨x, y⟩ := p
  unfold box
  rw [List.mem_flatMap]
  constructor
  · rintro ⟨b, hb, hp⟩
    obtain ⟨a, ha, he⟩ := List.mem_map.mp hp
    cases he
    exact ⟨(mem_interval.mp ha).1, (mem_interval.mp ha).2, mem_interval.mp hb⟩
  · rintro ⟨h1, h2, h3⟩
    exact ⟨y, mem_interval.mpr h3, List.mem_map.mpr ⟨x, mem_interval.mpr ⟨h1, h2⟩, rfl⟩⟩

/-- A blank canvas is transparent everywhere. -/
theorem get_blank (width height : Nat) (q : Pixel) : (blank width height).get q = 0 := by
  unfold get blank
  split
  · simp [Array.getD]
  · rfl

end Canvas

end VectorPaint
