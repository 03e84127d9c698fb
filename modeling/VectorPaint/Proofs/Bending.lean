/-
# What cutting does to the picture of a line

A line that is cut is walked between two other ends, so its pixels need not be those of the walk
between its own.  What is painted instead is told here (`cut_line_painted`).

* **Where the ends go.**  Each end that is cut is moved to a pixel next to the point where the line
  comes near the canvas or leaves it, and exactly to that point if it is a pixel (`IsMovedTo`).
* **What stays.**  Between two points that are pixels the walk is a part of the whole walk, and
  every pixel of the whole walk on the canvas lies between them.  So lines that are upright, level
  or diagonal and lines that are not cut have the same picture as the whole walk.
* **What changes.**  Between other ends pixels are lost and others are painted (`cut_line_bent`),
  but none farther away from the straight line than a pixel, apart from the digits that very large
  coordinates lose (`blur`).

A line for which nothing is walked has no pixel on the canvas.  This includes lines that pass a
corner of the border so closely that the rounded parameters do not tell it
(`holds_cutAt_of_lt`).
-/
import VectorPaint.Proofs.Cutting
import VectorPaint.Proofs.Passages
import VectorPaint.Canvas.Shape

namespace VectorPaint.Raster

open Number

variable {first extent reach width height : ℤ} {t : ℚ} {start stop p q : Pixel}

/-! ## 1. How far an end is moved -/

/-- **A computed coordinate is one of the two whole numbers at the exact one,** or the exact one
where that is whole. -/
theorem along_bounds (hlow : 0 ≤ t) (hhigh : t ≤ 1) (hfirst : |first| ≤ farthest)
    (hlast : |first + extent| ≤ farthest) :
    ⌊first + t * extent⌋ ≤ along first extent (rounded t) ∧
      along first extent (rounded t) ≤ ⌈first + t * extent⌉ := by
  have hfloor := Int.floor_le (first + t * extent)
  have hceil := Int.le_ceil (first + t * extent)
  rcases lt_trichotomy extent 0 with hcase | rfl | hcase
  · have hneg : (extent : ℚ) < 0 := by exact_mod_cast hcase
    have hanti : Antitone (along first extent) := along_anti hcase.le
    have hstop : first + extent ≤ ⌊first + t * extent⌋ := by
      rw [Int.le_floor]
      push_cast
      nlinarith
    have hstart : ⌈first + t * extent⌉ ≤ first := by
      rw [Int.ceil_le]
      nlinarith
    have hle := Int.floor_le_ceil (first + t * extent)
    have hbelow := along_crossing hfirst hlast (Or.inr ⟨hstop, hle.trans hstart⟩)
    have habove := along_crossing hfirst hlast (Or.inr ⟨hstop.trans hle, hstart⟩)
    constructor
    · refine hbelow.symm.trans_le (hanti (rounded_mono ?_))
      rw [le_div_iff_of_neg hneg]
      linarith
    · refine (hanti (rounded_mono ?_)).trans_eq habove
      rw [div_le_iff_of_neg hneg]
      linarith
  · simp [along_level hfirst]
  · have hpos : (0 : ℚ) < extent := by exact_mod_cast hcase
    have hmono : Monotone (along first extent) := along_mono hcase.le
    have hstart : first ≤ ⌊first + t * extent⌋ := by
      rw [Int.le_floor]
      nlinarith
    have hstop : ⌈first + t * extent⌉ ≤ first + extent := by
      rw [Int.ceil_le]
      push_cast
      nlinarith
    have hle := Int.floor_le_ceil (first + t * extent)
    have hbelow := along_crossing hfirst hlast (Or.inl ⟨hstart, hle.trans hstop⟩)
    have habove := along_crossing hfirst hlast (Or.inl ⟨hstart.trans hle, hstop⟩)
    constructor
    · refine hbelow.symm.trans_le (hmono (rounded_mono ?_))
      rw [div_le_iff₀ hpos]
      linarith
    · refine (hmono (rounded_mono ?_)).trans_eq habove
      rw [le_div_iff₀ hpos]
      linarith

/-- How much farther than half a pixel an end may be moved, for coordinates up to a bound. -/
def blur (reach : ℤ) : ℚ := min (1 / 2) (reach / 2 ^ 49)

/-- Each of the roundings on the way moves a coordinate by a part of what it is at most. -/
theorem abs_along_sub_le_of_reach (hlow : 0 ≤ t) (hhigh : t ≤ 1) (hreach : 1 ≤ reach)
    (hreach' : reach ≤ farthest) (hfirst : |first| ≤ reach) (hlast : |first + extent| ≤ reach) :
    |(along first extent (rounded t) : ℚ) - (first + t * extent)| ≤ 1 / 2 + reach / 2 ^ 49 := by
  have hone : (1 : ℚ) ≤ reach := by exact_mod_cast hreach
  have hfirst' : |(first : ℚ)| ≤ reach := by exact_mod_cast hfirst
  have hextent : |(extent : ℚ)| ≤ 2 * reach := by exact_mod_cast abs_extent_le hfirst hlast
  have hbound : ∀ {k : ℤ}, 0 ≤ k → k ≤ 4 → |k * reach| ≤ 2 ^ 53 := by
    intro k hk hk'
    rw [abs_of_nonneg (mul_nonneg hk (by omega))]
    calc k * reach ≤ 4 * farthest := mul_le_mul hk' hreach' (by omega) (by norm_num)
      _ = 2 ^ 53 := by decide
  have hparameter : |rounded t * extent - t * extent| ≤ 2 * reach / 2 ^ 54 := by
    rw [← sub_mul, abs_mul]
    calc |rounded t - t| * |(extent : ℚ)| ≤ 1 / 2 ^ 54 * (2 * reach) :=
          mul_le_mul (abs_rounded_sub_le_of_unit hlow hhigh) hextent (abs_nonneg _) (by norm_num)
      _ = 2 * reach / 2 ^ 54 := by ring
  have hunit : |rounded t| ≤ 1 := by
    rw [abs_rounded, abs_of_nonneg hlow, ← rounded_one]
    exact rounded_mono hhigh
  have hpart : |rounded t * extent| ≤ ((2 * reach : ℤ) : ℚ) := by
    rw [abs_mul]
    push_cast
    exact (mul_le_of_le_one_left (abs_nonneg _) hunit).trans hextent
  generalize hp : rounded t * extent = p at hparameter hpart
  have hproduct := abs_rounded_sub_le_of_le hpart (by push_cast; linarith)
  have hpart' := abs_rounded_le hpart (hbound (by norm_num) (by norm_num))
  have hpoint : |first + rounded p| ≤ ((3 * reach : ℤ) : ℚ) := by
    refine (abs_add_le _ _).trans ?_
    push_cast at hpart' ⊢
    linarith
  generalize hq : first + rounded p = q at hpoint
  have hsum := abs_rounded_sub_le_of_le hpoint (by push_cast; linarith)
  have hpoint' := abs_rounded_le hpoint (hbound (by norm_num) (by norm_num))
  have hplace : |rounded q + 1 / 2| ≤ ((4 * reach : ℤ) : ℚ) := by
    refine (abs_add_le _ _).trans ?_
    push_cast at hpoint' ⊢
    norm_num
    linarith
  have hhalf := abs_rounded_sub_le_of_le hplace (by push_cast; linarith)
  have halong : along first extent (rounded t) = ⌊rounded (rounded q + 1 / 2)⌋ := by
    rw [along, hp, hq]
  have hfloor := Int.floor_le (rounded (rounded q + 1 / 2))
  have hfloor' := Int.lt_floor_add_one (rounded (rounded q + 1 / 2))
  rw [← halong] at hfloor hfloor'
  push_cast at hproduct hsum hhalf
  rw [abs_le] at hparameter hproduct hsum hhalf ⊢
  constructor <;> linarith

/-- **A computed coordinate is next to the exact one.** -/
theorem abs_along_sub_le (hlow : 0 ≤ t) (hhigh : t ≤ 1) (hreach : 1 ≤ reach)
    (hreach' : reach ≤ farthest) (hfirst : |first| ≤ reach) (hlast : |first + extent| ≤ reach) :
    |(along first extent (rounded t) : ℚ) - (first + t * extent)| ≤ 1 / 2 + blur reach := by
  rw [blur, ← min_add_add_left, le_min_iff]
  refine ⟨?_, abs_along_sub_le_of_reach hlow hhigh hreach hreach' hfirst hlast⟩
  obtain ⟨h1, h2⟩ := along_bounds hlow hhigh (hfirst.trans hreach') (hlast.trans hreach')
  have h1' : (⌊first + t * extent⌋ : ℚ) ≤ along first extent (rounded t) := by exact_mod_cast h1
  have h2' : (along first extent (rounded t) : ℚ) ≤ ⌈first + t * extent⌉ := by exact_mod_cast h2
  have hfloor := Int.lt_floor_add_one (first + t * extent)
  have hceil := Int.ceil_lt_add_one (first + t * extent)
  rw [abs_le]
  constructor <;> linarith

/-! ## 2. The part of a line around a canvas -/

/-- A point on the canvas grown by one pixel on each side. -/
def IsOn (width height : ℤ) (v : ℚ × ℚ) : Prop :=
  (-1 ≤ v.1 ∧ v.1 ≤ width) ∧ -1 ≤ v.2 ∧ v.2 ≤ height

/-- The parameters of the points of a straight line that are around a canvas. -/
def visible (width height : ℤ) (start stop : Pixel) : Set ℚ :=
  {t | 0 ≤ t ∧ t ≤ 1 ∧ IsOn width height (straight start stop t)}

/-- The points around a canvas are those inside of its border. -/
theorem mem_visible_iff :
    t ∈ visible width height start stop ↔ IsInside (border width height start stop) t := by
  have hbehind : ∀ {first last side : ℤ}, ((last - first : ℤ) : ℚ) * t ≤ (side - first : ℤ) ↔
      first + t * ((last : ℚ) - first) ≤ side := by
    intro first last side
    push_cast
    constructor <;> intro h <;> linarith
  have hbefore : ∀ {first last : ℤ}, ((-(last - first) : ℤ) : ℚ) * t ≤ (first + 1 : ℤ) ↔
      -1 ≤ first + t * ((last : ℚ) - first) := by
    intro first last
    push_cast
    constructor <;> intro h <;> linarith
  have hinside : (∀ e ∈ border width height start stop, (e.speed : ℚ) * t ≤ e.room) ↔
      IsOn width height (straight start stop t) := by
    simp only [border, List.forall_mem_cons, hbehind, hbefore, IsOn, straight]
    constructor
    · rintro ⟨hbottom, htop, hright, hleft, -⟩
      exact ⟨⟨hleft, hright⟩, htop, hbottom⟩
    · rintro ⟨⟨hleft, hright⟩, htop, hbottom⟩
      exact ⟨hbottom, htop, hright, hleft, List.forall_mem_nil _⟩
  constructor
  · rintro ⟨hlow, hhigh, hon⟩
    exact ⟨hlow, hhigh, hinside.mpr hon⟩
  · intro h
    exact ⟨h.nonneg, h.le_one, hinside.mp h.inside⟩

/-- A walk's pixel on the canvas is next to a point around the canvas. -/
theorem mem_visible_of_holds {c : Canvas} {i : ℕ} (hi : i ≤ steps start stop)
    (hp : c.holds (pixelAt start stop i) = true) :
    (i : ℚ) / steps start stop ∈ visible c.width c.height start stop := by
  obtain ⟨hx, hx', hy, hy'⟩ := Canvas.holds_iff.mp hp
  obtain ⟨hnearX, hnearY⟩ := pixelAt_near start stop hi
  rw [abs_le] at hnearX hnearY
  have hx0 : (0 : ℚ) ≤ (pixelAt start stop i).1 := by exact_mod_cast hx
  have hx1 : ((pixelAt start stop i).1 : ℚ) + 1 ≤ c.width := by exact_mod_cast hx'
  have hy0 : (0 : ℚ) ≤ (pixelAt start stop i).2 := by exact_mod_cast hy
  have hy1 : ((pixelAt start stop i).2 : ℚ) + 1 ≤ c.height := by exact_mod_cast hy'
  have hi' : (i : ℚ) ≤ steps start stop := by exact_mod_cast hi
  refine ⟨div_nonneg (Nat.cast_nonneg _) (Nat.cast_nonneg _),
    div_le_one_of_le₀ hi' (Nat.cast_nonneg _), ⟨?_, ?_⟩, ?_, ?_⟩
  · linarith
  · push_cast
    linarith
  · linarith
  · push_cast
    linarith

/-- **The entry and the exit are the first and the last point around a canvas.** -/
theorem isLeast_entry (hle : entry (border width height start stop) ≤
      exit (border width height start stop))
    (hruns : RunsInside (border width height start stop)) :
    IsLeast (visible width height start stop) (entry (border width height start stop)) ∧
      IsGreatest (visible width height start stop) (exit (border width height start stop)) := by
  refine ⟨⟨?_, ?_⟩, ?_, ?_⟩
  · exact mem_visible_iff.mpr (isInside_iff.mpr ⟨le_rfl, hle, hruns⟩)
  · intro t ht
    exact (isInside_iff.mp (mem_visible_iff.mp ht)).1
  · exact mem_visible_iff.mpr (isInside_iff.mpr ⟨hle, le_rfl, hruns⟩)
  · intro t ht
    exact (isInside_iff.mp (mem_visible_iff.mp ht)).2.1

/-- The entry is the crossing of an edge that the line comes in over, unless it is the start. -/
theorem entry_cases (edges : List Edge) :
    entry edges = 0 ∨ ∃ e ∈ edges, e.speed < 0 ∧ entry edges = e.crossing := by
  induction edges with
  | nil => exact Or.inl rfl
  | cons e edges ih =>
    have hrest : entry edges = 0 ∨
        ∃ e' ∈ e :: edges, e'.speed < 0 ∧ entry edges = e'.crossing := by
      refine ih.imp_right ?_
      rintro ⟨e', he', h⟩
      exact ⟨e', List.mem_cons_of_mem e he', h⟩
    rcases lt_or_ge e.speed 0 with hspeed | hspeed
    · rw [entry_cons_of_neg hspeed]
      rcases max_choice (entry edges) e.crossing with hmax | hmax
      · rwa [hmax]
      · exact Or.inr ⟨e, List.mem_cons_self, hspeed, hmax⟩
    · rwa [entry_cons_of_nonneg hspeed]

theorem exit_nonneg {edges : List Edge} (h : ∀ e ∈ edges, 0 < e.speed → 0 ≤ e.crossing) :
    0 ≤ exit edges := by
  induction edges with
  | nil => exact zero_le_one
  | cons e edges ih =>
    have hrest := ih fun e' he' => h e' (List.mem_cons_of_mem e he')
    rcases lt_or_ge 0 e.speed with hspeed | hspeed
    · rw [exit_cons_of_pos hspeed]
      exact le_min hrest (h e List.mem_cons_self hspeed)
    · rwa [exit_cons_of_nonpos hspeed]

/-- The exit is the crossing of an edge that the line goes out over, unless it is the stop. -/
theorem exit_cases (edges : List Edge) :
    exit edges = 1 ∨ ∃ e ∈ edges, 0 < e.speed ∧ exit edges = e.crossing := by
  induction edges with
  | nil => exact Or.inl rfl
  | cons e edges ih =>
    have hrest : exit edges = 1 ∨
        ∃ e' ∈ e :: edges, 0 < e'.speed ∧ exit edges = e'.crossing := by
      refine ih.imp_right ?_
      rintro ⟨e', he', h⟩
      exact ⟨e', List.mem_cons_of_mem e he', h⟩
    rcases lt_or_ge 0 e.speed with hspeed | hspeed
    · rw [exit_cons_of_pos hspeed]
      rcases min_choice (exit edges) e.crossing with hmin | hmin
      · rwa [hmin]
      · exact Or.inr ⟨e, List.mem_cons_self, hspeed, hmin⟩
    · rwa [exit_cons_of_nonpos hspeed]

/-- A line that is upright, level or diagonal. -/
def IsEven (start stop : Pixel) : Prop :=
  extentX start stop = 0 ∨ extentY start stop = 0 ∨ extentX start stop = extentY start stop

/-- Such a line crosses the edges of the border in pixels. -/
theorem IsEven.center_crossing (h : IsEven start stop) {e : Edge}
    (he : e ∈ border width height start stop) (hspeed : e.speed ≠ 0) :
    ∃ v, straight start stop e.crossing = center v := by
  have hextents : (extentX start stop = 0 ∨ extentX start stop = e.speed.natAbs) ∧
      (extentY start stop = 0 ∨ extentY start stop = e.speed.natAbs) := by
    simp only [IsEven, extentX, extentY] at h ⊢
    simp only [border, List.mem_cons, List.not_mem_nil, or_false] at he
    rcases he with rfl | rfl | rfl | rfl <;> dsimp only at hspeed ⊢ <;> omega
  have hdvd : ∀ {n : ℤ}, n.natAbs = 0 ∨ n.natAbs = e.speed.natAbs → e.speed ∣ n := by
    intro n hn
    rw [← Int.natAbs_dvd_natAbs]
    rcases hn with hn | hn <;> simp [hn]
  obtain ⟨k, hk⟩ := hdvd hextents.1
  obtain ⟨l, hl⟩ := hdvd hextents.2
  have hspeed' : (e.speed : ℚ) ≠ 0 := by exact_mod_cast hspeed
  have hk' : (stop.1 : ℚ) - start.1 = e.speed * k := by exact_mod_cast hk
  have hl' : (stop.2 : ℚ) - start.2 = e.speed * l := by exact_mod_cast hl
  refine ⟨(start.1 + e.room * k, start.2 + e.room * l), ?_⟩
  simp only [straight, center, Edge.crossing, hk', hl']
  push_cast
  rw [← mul_assoc, ← mul_assoc, div_mul_cancel₀ _ hspeed']

theorem IsEven.center_entry (h : IsEven start stop) :
    ∃ v, straight start stop (entry (border width height start stop)) = center v := by
  rcases entry_cases (border width height start stop) with hzero | ⟨e, he, hspeed, hentry⟩
  · exact ⟨start, by simp [hzero, straight, center]⟩
  · rw [hentry]
    exact h.center_crossing he hspeed.ne

theorem IsEven.center_exit (h : IsEven start stop) :
    ∃ v, straight start stop (exit (border width height start stop)) = center v := by
  rcases exit_cases (border width height start stop) with hone | ⟨e, he, hspeed, hexit⟩
  · exact ⟨stop, by simp [hone, straight, center]⟩
  · rw [hexit]
    exact h.center_crossing he hspeed.ne'

section Meeting

variable {side : ℤ} {e : Edge} (hmeets : Meets side first (first + extent))
  (he : e = ⟨-extent, first + 1⟩ ∨ e = ⟨extent, side - first⟩)

include hmeets he

/-- A line that meets the canvas side goes out after its start. -/
theorem crossing_nonneg (hspeed : 0 < e.speed) : 0 ≤ e.crossing := by
  obtain ⟨hmax, hmin⟩ := hmeets
  have hroom : 0 ≤ e.room := by
    rcases he with rfl | rfl <;> dsimp only at hspeed ⊢ <;> omega
  exact div_nonneg (by exact_mod_cast hroom) (by exact_mod_cast hspeed.le)

/-- Where a line comes in its coordinate is the one of the edge, which is not on the canvas. -/
theorem along_entering (hfirst : |first| ≤ farthest) (hlast : |first + extent| ≤ farthest)
    (hspeed : e.speed < 0) (hcrossing : 0 ≤ e.crossing) :
    along first extent (rounded e.crossing) = -1 ∨
      along first extent (rounded e.crossing) = side := by
  obtain ⟨hmax, hmin⟩ := hmeets
  have hroom : e.room ≤ 0 := by
    have hspeed' : (e.speed : ℚ) < 0 := by exact_mod_cast hspeed
    have := mul_nonpos_of_nonpos_of_nonneg hspeed'.le hcrossing
    rw [Edge.crossing, mul_div_cancel₀ _ hspeed'.ne] at this
    exact_mod_cast this
  rcases he with rfl | rfl <;> dsimp only at hspeed hroom
  · refine Or.inl ?_
    rw [crossing_before]
    exact along_crossing hfirst hlast (Or.inl ⟨by omega, by omega⟩)
  · refine Or.inr ?_
    rw [crossing_behind]
    exact along_crossing hfirst hlast (Or.inr ⟨by omega, by omega⟩)

end Meeting

/-- **Where a line passes a corner of the border closely it is cut beside the canvas,** even if the
rounded parameters do not tell that it goes out before it comes in. -/
theorem holds_cutAt_of_lt {c : Canvas} (hstart : IsWithin farthest start)
    (hstop : IsWithin farthest stop) (hx : Meets c.width start.1 stop.1)
    (hy : Meets c.height start.2 stop.2)
    (h : exit (border c.width c.height start stop) < entry (border c.width c.height start stop)) :
    c.holds (cutAt start stop (rounded (entry (border c.width c.height start stop)))) = false := by
  have hsum : ∀ m n : ℤ, m + (n - m) = n := fun m n => by ring
  rw [← hsum start.1 stop.1] at hx
  rw [← hsum start.2 stop.2] at hy
  have hmem : ∀ e ∈ border c.width c.height start stop,
      (e = ⟨-(stop.1 - start.1), start.1 + 1⟩ ∨ e = ⟨stop.1 - start.1, c.width - start.1⟩) ∨
        (e = ⟨-(stop.2 - start.2), start.2 + 1⟩ ∨ e = ⟨stop.2 - start.2, c.height - start.2⟩) := by
    intro e he
    simp only [border, List.mem_cons, List.not_mem_nil, or_false] at he
    tauto
  have hexit : 0 ≤ exit (border c.width c.height start stop) := by
    refine exit_nonneg ?_
    intro e he hspeed
    rcases hmem e he with hside | hside
    · exact crossing_nonneg hx hside hspeed
    · exact crossing_nonneg hy hside hspeed
  rcases entry_cases (border c.width c.height start stop) with hzero | ⟨e, he, hspeed, hentry⟩
  · linarith
  rw [Bool.eq_false_iff, Ne, Canvas.holds_iff]
  rw [hentry] at h ⊢
  rintro ⟨h1, h2, h3, h4⟩
  simp only [cutAt] at h1 h2 h3 h4
  rcases hmem e he with hside | hside
  · have := along_entering hx hside hstart.1 (by rw [hsum]; exact hstop.1) hspeed
      (hexit.trans h.le)
    omega
  · have := along_entering hy hside hstart.2 (by rw [hsum]; exact hstop.2) hspeed
      (hexit.trans h.le)
    omega

/-! ## 3. The walk between two moved ends -/

/-- The pixel that an end is moved to: next to a point of the straight line, and in its row and
column where these are whole. -/
structure IsMovedTo (reach : ℤ) (start stop : Pixel) (t : ℚ) (p : Pixel) : Prop where
  near : IsNear (1 / 2 + blur reach) p (straight start stop t)
  column : ∀ m : ℤ, (straight start stop t).1 = m → p.1 = m
  row : ∀ m : ℤ, (straight start stop t).2 = m → p.2 = m

/-- A pixel of the straight line is the pixel that an end there is moved to. -/
theorem IsMovedTo.eq_of_center (h : IsMovedTo reach start stop t p)
    (hq : straight start stop t = center q) : p = q :=
  Prod.ext (h.column q.1 (congrArg Prod.fst hq)) (h.row q.2 (congrArg Prod.snd hq))

theorem isMovedTo_cutAt (hlow : 0 ≤ t) (hhigh : t ≤ 1) (hreach : 1 ≤ reach)
    (hreach' : reach ≤ farthest) (hstart : IsWithin reach start) (hstop : IsWithin reach stop) :
    IsMovedTo reach start stop t (cutAt start stop (rounded t)) := by
  have haxis : ∀ {first last : ℤ}, |first| ≤ reach → |last| ≤ reach →
      |(along first (last - first) (rounded t) : ℚ) - (first + t * (last - first))| ≤
          1 / 2 + blur reach ∧
        ∀ m : ℤ, first + t * ((last : ℚ) - first) = m →
          along first (last - first) (rounded t) = m := by
    intro first last hfirst hlast
    have hsum : |first + (last - first)| ≤ reach := by rwa [add_sub_cancel]
    have hnear := abs_along_sub_le hlow hhigh hreach hreach' hfirst hsum
    obtain ⟨h1, h2⟩ := along_bounds hlow hhigh (hfirst.trans hreach') (hsum.trans hreach')
    rw [Int.cast_sub] at hnear h1 h2
    refine ⟨hnear, ?_⟩
    intro m hm
    rw [hm, Int.floor_intCast] at h1
    rw [hm, Int.ceil_intCast] at h2
    exact le_antisymm h2 h1
  obtain ⟨hcolumn, hcolumn'⟩ := haxis hstart.1 hstop.1
  obtain ⟨hrow, hrow'⟩ := haxis hstart.2 hstop.2
  exact ⟨⟨hcolumn, hrow⟩, hcolumn', hrow'⟩

/-- A line that goes through both pixels that it is cut at has the same pixels on the canvas. -/
theorem mem_line_iff_of_whole {c : Canvas} {s : ℚ} {a b : Pixel}
    (hs : IsLeast (visible c.width c.height start stop) s)
    (ht : IsGreatest (visible c.width c.height start stop) t)
    (ha : straight start stop s = center a) (hb : straight start stop t = center b)
    (hp : c.holds p = true) : p ∈ line a b ↔ p ∈ line start stop := by
  obtain ⟨hslow, hshigh, -⟩ := hs.1
  obtain ⟨htlow, hthigh, -⟩ := ht.1
  obtain ⟨k, hk, hks⟩ := exists_standsAt hslow hshigh (congrArg Prod.fst ha).symm
    (congrArg Prod.snd ha).symm
  obtain ⟨l, hl, hlt⟩ := exists_standsAt htlow hthigh (congrArg Prod.fst hb).symm
    (congrArg Prod.snd hb).symm
  have hcount : ∀ {i j : ℕ} {q r : ℚ}, (i : ℚ) = q * steps start stop →
      (j : ℚ) = r * steps start stop → q ≤ r → i ≤ j := by
    intro i j q r hi hj hle
    have : (i : ℚ) ≤ j := by
      rw [hi, hj]
      exact mul_le_mul_of_nonneg_right hle (Nat.cast_nonneg _)
    exact_mod_cast this
  have hkl : k ≤ l := hcount hks hlt (hs.2 ht.1)
  rw [hk.mem_line hl hkl, mem_line]
  constructor
  · rintro ⟨i, -, hi, rfl⟩
    exact ⟨i, hi.trans hl.le, rfl⟩
  · rintro ⟨i, hi, rfl⟩
    have hvisible := mem_visible_of_holds hi hp
    have hstep : (i : ℚ) = i / steps start stop * steps start stop := by
      rcases Nat.eq_zero_or_pos (steps start stop) with hzero | hpos
      · obtain rfl : i = 0 := by omega
        simp
      · have : (steps start stop : ℚ) ≠ 0 := by exact_mod_cast hpos.ne'
        rw [div_mul_cancel₀ _ this]
    exact ⟨i, hcount hks hstep (hs.2 hvisible), hcount hstep hlt (ht.2 hvisible), rfl⟩

/-! ## 4. On the canvas -/

variable {c : Canvas} {source target : Point} {l : List Pixel} {color : ℤ}

theorem coverage_line (hl : pixels enoughHalvings c.width c.height source target = .ok l) :
    Shape.coverage c.width c.height (.line source target) =
      .ok (if (l.filter c.holds).isEmpty then none else some (l.filter c.holds)) := bind_ok hl rfl

/-- A line whose pixels are beside the canvas paints nothing. -/
theorem paint_beside (hl : pixels enoughHalvings c.width c.height source target = .ok l)
    (h : ∀ p ∈ l, c.holds p = false) : c.paint ⟨.line source target, color⟩ = .ok c := by
  have hshown : l.filter c.holds = [] := by
    rw [List.filter_eq_nil_iff]
    intro p hp
    simp [h p hp]
  refine bind_ok (coverage_line hl) ?_
  rw [hshown]
  rfl

/-- **A line paints its pixels on the canvas and nothing else.** -/
theorem paint_pixels (hl : pixels enoughHalvings c.width c.height source target = .ok l)
    (hcolor : 0 ≤ color) (hcolor' : color ≤ 255) :
    ∃ c', c.paint ⟨.line source target, color⟩ = .ok c' ∧ c'.width = c.width ∧
      c'.height = c.height ∧
        ∀ p, c'.get p = if p ∈ l ∧ c.holds p = true then color.toNat.toUInt8 else c.get p := by
  by_cases hbeside : ∀ p ∈ l, c.holds p = false
  · refine ⟨c, paint_beside hl hbeside, rfl, rfl, ?_⟩
    intro p
    rw [if_neg]
    rintro ⟨hp, hholds⟩
    simp [hbeside p hp] at hholds
  · have hshown : (l.filter c.holds).isEmpty = false := by
      rw [List.isEmpty_eq_false_iff]
      intro hnil
      rw [List.filter_eq_nil_iff] at hnil
      exact hbeside fun p hp => Bool.eq_false_iff.mpr (hnil p hp)
    have hink : Canvas.ink color = .ok color.toNat.toUInt8 := if_pos ⟨hcolor, hcolor'⟩
    refine ⟨c.plot (l.filter c.holds) color.toNat.toUInt8, bind_ok (coverage_line hl) ?_,
      Canvas.width_plot .., Canvas.height_plot .., ?_⟩
    · rw [hshown]
      exact bind_ok hink rfl
    · intro p
      rw [Canvas.get_plot]
      simp only [List.mem_filter, and_assoc, and_self]

/-- A line with a pixel on the canvas meets both sides. -/
theorem holds_of_beside (h : Meets c.width start.1 stop.1 → ¬ Meets c.height start.2 stop.2)
    (hp : p ∈ line start stop) : c.holds p = false := by
  have haxis : ∀ {side first last m : ℤ} {r : ℚ}, 0 ≤ r → r ≤ 1 → 0 ≤ m → m < side →
      |(m : ℚ) - (first + r * (last - first))| ≤ 1 / 2 → Meets side first last := by
    intro side first last m r hlow hhigh hm hside hnear
    have hm' : (0 : ℚ) ≤ m := by exact_mod_cast hm
    have hside' : (m : ℚ) + 1 ≤ side := by exact_mod_cast hside
    rw [abs_le] at hnear
    rcases le_total first last with hle | hle
    · have hle' : (first : ℚ) ≤ last := by exact_mod_cast hle
      have hmax : (-1 : ℚ) < last := by nlinarith
      have hmin : (first : ℚ) < side := by nlinarith
      have hmax' : -1 < last := by exact_mod_cast hmax
      have hmin' : first < side := by exact_mod_cast hmin
      constructor <;> omega
    · have hle' : (last : ℚ) ≤ first := by exact_mod_cast hle
      have hmax : (-1 : ℚ) < first := by nlinarith
      have hmin : (last : ℚ) < side := by nlinarith
      have hmax' : -1 < first := by exact_mod_cast hmax
      have hmin' : last < side := by exact_mod_cast hmin
      constructor <;> omega
  obtain ⟨i, hi, rfl⟩ := (mem_line start stop).mp hp
  rw [Bool.eq_false_iff]
  intro hholds
  obtain ⟨h1, h2, h3, h4⟩ := Canvas.holds_iff.mp hholds
  obtain ⟨hx, hy⟩ := pixelAt_near start stop hi
  obtain ⟨hlow, hhigh, -⟩ := mem_visible_of_holds hi hholds
  exact h (haxis hlow hhigh h1 h2 hx) (haxis hlow hhigh h3 h4 hy)

/-- What cutting makes of a line: the first and the last point around the canvas and the pixels that
the ends are moved to. -/
structure IsCut (width height reach : ℤ) (start stop : Pixel) (s t : ℚ) (a b : Pixel) : Prop where
  first : IsLeast (visible width height start stop) s
  last : IsGreatest (visible width height start stop) t
  movedStart : IsMovedTo reach start stop s a
  movedStop : IsMovedTo reach start stop t b

/-- **What is painted of a line.** -/
theorem cut_line_painted (c : Canvas) (hwidth : (c.width : ℤ) ≤ farthest)
    (hheight : (c.height : ℤ) ≤ farthest) (hreach : 1 ≤ reach) (hreach' : reach ≤ farthest)
    (hstart : IsWithin reach start) (hstop : IsWithin reach stop) (hcolor : 1 ≤ color)
    (hcolor' : color ≤ 255) :
    ∃ c', c.paint ⟨.line (wholePoint start) (wholePoint stop), color⟩ = .ok c' ∧
      c'.width = c.width ∧ c'.height = c.height ∧
      ((c' = c ∧ ∀ p ∈ line start stop, c.holds p = false) ∨
        ∃ s t a b, IsCut c.width c.height reach start stop s t a b ∧
          (∀ p, c'.get p =
            if p ∈ line a b ∧ c.holds p = true then color.toNat.toUInt8 else c.get p) ∧
          (∀ p ∈ line a b, ∃ r, 0 ≤ r ∧ r ≤ 1 ∧
            IsNear (1 + blur reach) p (straight start stop r)) ∧
          (∀ p ∈ line start stop, c.holds p = true → ∃ r, 0 ≤ r ∧ r ≤ 1 ∧
            IsNear (1 + blur reach) p (straight a b r)) ∧
          (IsEven start stop ∨
              (∃ v, straight start stop s = center v) ∧ (∃ w, straight start stop t = center w) →
            ∀ p, c.holds p = true → (p ∈ line a b ↔ p ∈ line start stop))) := by
  have hstart' : IsWithin farthest start := ⟨hstart.1.trans hreach', hstart.2.trans hreach'⟩
  have hstop' : IsWithin farthest stop := ⟨hstop.1.trans hreach', hstop.2.trans hreach'⟩
  have hsize : ∀ n : ℕ, (n : ℤ) ≤ farthest → |(n : ℤ)| ≤ farthest := by
    intro n hn
    rwa [Nat.abs_cast]
  obtain ⟨l, hl, hwalked⟩ := pixels_walked enoughHalvings (hsize _ hwidth) (hsize _ hheight)
    hstart' hstop'
  -- Where no point is around the canvas no pixel of the line is on it.
  have hunseen : (∀ t, t ∉ visible c.width c.height start stop) →
      ∀ p ∈ line start stop, c.holds p = false := by
    intro hnone p hp
    obtain ⟨i, hi, rfl⟩ := (mem_line start stop).mp hp
    rw [Bool.eq_false_iff]
    intro hholds
    exact hnone _ (mem_visible_of_holds hi hholds)
  cases hwalked with
  | beside h =>
    refine ⟨c, paint_beside hl ?_, rfl, rfl, Or.inl ⟨rfl, fun p hp => holds_of_beside h hp⟩⟩
    intro p hp
    cases hp
  | outside h =>
    refine ⟨c, paint_beside hl ?_, rfl, rfl, Or.inl ⟨rfl, hunseen ?_⟩⟩
    · intro p hp
      cases hp
    · intro t ht
      exact h t (mem_visible_iff.mp ht)
  | between hx hy hordered hruns =>
    rcases lt_or_ge (exit (border c.width c.height start stop))
      (entry (border c.width c.height start stop)) with hlt | hle
    · refine ⟨c, paint_beside hl ?_, rfl, rfl, Or.inl ⟨rfl, hunseen ?_⟩⟩
      · have hsame := le_antisymm hordered (rounded_mono hlt.le)
        intro p hp
        rw [← hsame, line_self, List.mem_singleton] at hp
        rw [hp]
        exact holds_cutAt_of_lt hstart' hstop' hx hy hlt
      · intro t ht
        exact not_isInside_of_lt hlt t (mem_visible_iff.mp ht)
    · obtain ⟨c', hc', hwidth', hheight', hget⟩ := paint_pixels hl (by omega) hcolor'
      obtain ⟨hleast, hgreatest⟩ := isLeast_entry hle hruns
      have ha := isMovedTo_cutAt hleast.1.1 hleast.1.2.1 hreach hreach' hstart hstop
      have hb := isMovedTo_cutAt hgreatest.1.1 hgreatest.1.2.1 hreach hreach' hstart hstop
      have hhalves : 1 / 2 + (1 / 2 + blur reach) = 1 + blur reach := by ring
      refine ⟨c', hc', hwidth', hheight', Or.inr ⟨_, _, _, _, ⟨hleast, hgreatest, ha, hb⟩, hget,
        ?_, ?_, ?_⟩⟩
      · intro p hp
        obtain ⟨u, hlow, hhigh, hnear⟩ := near_of_mem_line ha.near hb.near hp
        rw [hhalves] at hnear
        refine ⟨_, ?_, ?_, hnear⟩
        · nlinarith [hleast.1.1, hgreatest.1.1]
        · nlinarith [hleast.1.2.1, hgreatest.1.2.1]
      · intro p hp hholds
        obtain ⟨i, hi, rfl⟩ := (mem_line start stop).mp hp
        have hvisible := mem_visible_of_holds hi hholds
        obtain ⟨u, hlow, hhigh, hnear⟩ := near_of_between ha.near hb.near (hleast.2 hvisible)
          (hgreatest.2 hvisible) (pixelAt_near start stop hi)
        rw [hhalves] at hnear
        exact ⟨u, hlow, hhigh, hnear⟩
      · intro hwhole p hp
        obtain ⟨⟨v, hv⟩, w, hw⟩ := hwhole.elim (fun h => ⟨h.center_entry, h.center_exit⟩) id
        rw [ha.eq_of_center hv, hb.eq_of_center hw]
        exact mem_line_iff_of_whole hleast hgreatest hv hw hp

/-- A level line of two thousand million pixels through a canvas paints the row that it goes
through. -/
theorem cut_line_painted_levelLine :
    IsWithin (10 ^ 9) (-10 ^ 9, 5) ∧ IsWithin (10 ^ 9) (10 ^ 9, 5) ∧
      ∃ c', (Canvas.blank 10 10).paint
          ⟨.line (wholePoint (-10 ^ 9, 5)) (wholePoint (10 ^ 9, 5)), 2⟩ = .ok c' ∧
        c'.get (0, 5) = 2 ∧ c'.get (9, 5) = 2 := by
  have hstart : IsWithin (10 ^ 9) (-10 ^ 9, 5) := by constructor <;> decide
  have hstop : IsWithin (10 ^ 9) (10 ^ 9, 5) := by constructor <;> decide
  have hfirst : (0, 5) ∈ line (-10 ^ 9, 5) (10 ^ 9, 5) :=
    (mem_line _ _).mpr ⟨10 ^ 9, by decide +kernel, by decide +kernel⟩
  have hlast : (9, 5) ∈ line (-10 ^ 9, 5) (10 ^ 9, 5) :=
    (mem_line _ _).mpr ⟨10 ^ 9 + 9, by decide +kernel, by decide +kernel⟩
  have heven : IsEven (-10 ^ 9, 5) (10 ^ 9, 5) := Or.inr (Or.inl rfl)
  refine ⟨hstart, hstop, ?_⟩
  obtain ⟨c', hc', -, -, ⟨-, hunseen⟩ | ⟨s, t, a, b, -, hget, -, -, hsame⟩⟩ :=
    cut_line_painted (Canvas.blank 10 10) (by decide) (by decide) (by decide) (by decide) hstart
      hstop (by decide : (1 : ℤ) ≤ 2) (by decide)
  · exact absurd (hunseen _ hfirst) (by decide)
  · refine ⟨c', hc', ?_, ?_⟩
    · rw [hget, if_pos ⟨(hsame (Or.inl heven) _ (by decide)).mpr hfirst, by decide⟩]
      decide
    · rw [hget, if_pos ⟨(hsame (Or.inl heven) _ (by decide)).mpr hlast, by decide⟩]
      decide

/-- **A line that is cut may lose pixels.**  The walk from `(-2, -1)` goes through the only pixel of
the canvas.  The line enters the border half a pixel above `(-1, 0)`, and the walk from there goes
by. -/
theorem cut_line_bent :
    (0, 0) ∈ line (-2, -1) (1, 1) ∧ (Canvas.blank 1 1).holds (0, 0) = true ∧
      ∃ c', (Canvas.blank 1 1).paint
          ⟨.line (wholePoint (-2, -1)) (wholePoint (1, 1)), 1⟩ = .ok c' ∧ c'.get (0, 0) = 0 := by
  have hpixels : pixels enoughHalvings (Canvas.blank 1 1).width (Canvas.blank 1 1).height
      (wholePoint (-2, -1)) (wholePoint (1, 1)) = .ok [(-1, 0), (0, 1), (1, 1)] := by
    decide +kernel
  exact ⟨by decide, by decide, _, paint_beside hpixels (by decide), Canvas.get_blank 1 1 (0, 0)⟩

end VectorPaint.Raster
