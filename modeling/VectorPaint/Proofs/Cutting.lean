/-
# Where lines are cut

Before a line is walked it is cut to the canvas grown by one pixel on each side.  The edges are
crossed at quotients of whole numbers, the parameters, and what is computed from these are floats.
Two things are exact nevertheless.

* **The order of the parameters.**  The part of a line that is left is computed by comparing
  rounded quotients, and rounding keeps the order (`Shows`).  So a line that is given up for its
  parameters does not come near the canvas.
* **Whole coordinates.**  As long as the coordinates are `2 ^ 51` at most, the point that is
  computed for the parameter of a whole coordinate has this coordinate (`along_whole`): it is off by
  less than half a pixel before it is rounded.

The computed coordinates keep the order of the parameters too (`along_mono`).  Since the edges are
whole coordinates, no end of a line is moved beyond them (`clipped_walk_short`).  Farther away the
digits are too coarse, and an end is moved to places far from the edge that it is moved to
(`clipped_walk_astray`).
-/
import VectorPaint.Proofs.Lines
import VectorPaint.Proofs.Walks
import VectorPaint.Proofs.Float.Nearness

namespace VectorPaint.Raster

open Number

/-! ## 1. Coordinates along a line -/

/-- The coordinate that is computed for the point of a line at a parameter. -/
def along (first extent : ℤ) (t : ℚ) : ℤ :=
  ⌊rounded (rounded (first + rounded (t * extent)) + 1 / 2)⌋

/-- How far the coordinates of a line may be away for its points to be computed exactly. -/
def farthest : ℤ := 2 ^ 51

variable {first extent n side : ℤ} {t : ℚ}

/-- **Computed coordinates keep the order of the parameters** on a line that goes forward. -/
theorem along_mono (h : 0 ≤ extent) : Monotone (along first extent) := by
  intro s t hst
  have hextent : (0 : ℚ) ≤ extent := by exact_mod_cast h
  refine Int.floor_mono (rounded_mono (add_le_add_left (rounded_mono (add_le_add_right ?_ _)) _))
  exact rounded_mono (mul_le_mul_of_nonneg_right hst hextent)

/-- They turn it around on a line that goes back. -/
theorem along_anti (h : extent ≤ 0) : Antitone (along first extent) := by
  intro s t hst
  have hextent : (extent : ℚ) ≤ 0 := by exact_mod_cast h
  refine Int.floor_mono (rounded_mono (add_le_add_left (rounded_mono (add_le_add_right ?_ _)) _))
  exact rounded_mono (mul_le_mul_of_nonpos_right hst hextent)

/-- Without rounding on the way the coordinate is the exact one. -/
theorem along_exact {k : ℤ} (hk : |k| ≤ 2 ^ 53) (hn : |first + k| ≤ farthest)
    (h : t * extent = k) : along first extent t = first + k := by
  have hsum : ((first : ℚ) + k) = ((first + k : ℤ) : ℚ) := by push_cast; rfl
  have hn' := abs_le.mp hn
  have hhalf : IsBinary (((first + k : ℤ) : ℚ) + 1 / 2) := by
    refine ⟨2 * (first + k) + 1, -1, ?_, by norm_num, ?_⟩
    · rw [abs_le]
      unfold farthest at hn'
      omega
    · push_cast
      rw [zpow_neg_one]
      ring
  have hwhole : |first + k| ≤ 2 ^ 53 := hn.trans (by decide)
  unfold along
  rw [h, rounded_intCast hk, hsum,
    rounded_intCast hwhole, rounded_of_isBinary hhalf, Int.floor_eq_iff]
  constructor <;> linarith

/-- A line starts with its start. -/
theorem along_zero (h : |first| ≤ farthest) : along first extent 0 = first := by
  have hstart : along first extent 0 = first + 0 :=
    along_exact (by norm_num) (by rwa [add_zero]) (by rw [zero_mul, Int.cast_zero])
  rwa [add_zero] at hstart

/-- A line without an extent stays there. -/
theorem along_level (h : |first| ≤ farthest) (t : ℚ) : along first 0 t = first := by
  have hstay : along first 0 t = first + 0 :=
    along_exact (by norm_num) (by rwa [add_zero]) (by rw [Int.cast_zero, mul_zero])
  rwa [add_zero] at hstay

/-- A line ends with its end. -/
theorem along_one (h : |first + extent| ≤ farthest) (h' : |extent| ≤ 2 ^ 53) :
    along first extent 1 = first + extent := along_exact h' h (one_mul _)

/-- Between zero and one the digits are at least this fine. -/
theorem abs_rounded_sub_le_of_unit (hlow : 0 ≤ t) (hhigh : t ≤ 1) :
    |rounded t - t| ≤ 1 / 2 ^ 54 := by
  rcases eq_or_lt_of_le hhigh with rfl | hlt
  · have hone : IsBinary (1 : ℚ) := by
      have := isBinary_intCast (n := 1) (by norm_num)
      rwa [Int.cast_one] at this
    rw [rounded_of_isBinary hone, sub_self, abs_zero]
    norm_num
  · have hunit : unit t ≤ -53 := by
      refine unit_le_of_abs_lt (by norm_num) ?_
      rw [abs_of_nonneg hlow]
      simpa using hlt
    refine (abs_rounded_sub_le t).trans ?_
    have hpower : (2 : ℚ) ^ (-53 : ℤ) = 1 / 2 ^ 53 := by norm_num
    have := two_zpow_le hunit
    rw [hpower] at this
    linarith only [this]

/-- The extent of a line whose ends are not too far away. -/
theorem abs_extent_le {reach : ℤ} (hfirst : |first| ≤ reach) (hlast : |first + extent| ≤ reach) :
    |extent| ≤ 2 * reach := by
  have h1 := abs_le.mp hfirst
  have h2 := abs_le.mp hlast
  exact abs_le.mpr ⟨by omega, by omega⟩

/-- **Whole points are found exactly.**  The parameter is off by `2 ^ -54` and the extent is at
most `2 ^ 52`, so their product is at most a quarter away from a whole number, and so is what comes
of it. -/
theorem along_whole (hlow : 0 ≤ t) (hhigh : t ≤ 1) (hfirst : |first| ≤ farthest)
    (hlast : |first + extent| ≤ farthest) (hn : |n| < farthest) (h : first + t * extent = n) :
    along first extent (rounded t) = n := by
  have hextent : |(extent : ℚ)| ≤ 2 ^ 52 := by
    have := abs_extent_le hfirst hlast
    exact_mod_cast this
  have hdistance : ((n - first : ℤ) : ℚ) = t * extent := by
    push_cast
    linarith
  have hdistance' : |n - first| ≤ 2 ^ 52 := by
    have : |((n - first : ℤ) : ℚ)| ≤ 2 ^ 52 := by
      rw [hdistance, abs_mul, abs_of_nonneg hlow]
      exact (mul_le_of_le_one_left (abs_nonneg _) hhigh).trans hextent
    exact_mod_cast this
  have hproduct : |rounded t * extent - (n - first : ℤ)| ≤ 1 / 4 := by
    rw [hdistance, ← sub_mul, abs_mul]
    calc |rounded t - t| * |(extent : ℚ)| ≤ 1 / 2 ^ 54 * 2 ^ 52 :=
          mul_le_mul (abs_rounded_sub_le_of_unit hlow hhigh) hextent (abs_nonneg _) (by norm_num)
      _ = 1 / 4 := by norm_num
  have hn' := abs_lt.mp hn
  have hsum : |rounded (first + rounded (rounded t * extent)) - n| ≤ 1 / 4 := by
    refine rounded_near_whole (hn.le.trans (by decide)) ?_
    have := rounded_near_whole hdistance' hproduct
    rw [Int.cast_sub] at this
    rwa [show (first : ℚ) + rounded (rounded t * extent) - n =
      rounded (rounded t * extent) - (n - first) by ring]
  obtain ⟨hbelow, habove⟩ := abs_le.mp hsum
  have hquarters : IsBinary ((n : ℚ) + 3 / 4) := by
    refine ⟨4 * n + 3, -2, ?_, by norm_num, ?_⟩
    · unfold farthest at hn'
      rw [abs_le]
      omega
    · push_cast
      rw [zpow_neg]
      norm_num
      ring
  have hwhole : IsBinary (n : ℚ) := isBinary_intCast (hn.le.trans (by decide))
  unfold along
  rw [Int.floor_eq_iff]
  constructor
  · exact le_rounded hwhole (by linarith)
  · exact lt_of_le_of_lt (rounded_le hquarters (by linarith)) (by linarith)

/-! ## 2. The part inside of the edges -/

/-- An edge, seen from a line: how far the line moves out over it, and how far inside of it the line
starts. -/
structure Edge where
  speed : ℤ
  room : ℤ

/-- The parameter at which a line crosses an edge. -/
def Edge.crossing (e : Edge) : ℚ := e.room / e.speed

/-- The parameter of a point of a line that is inside of all edges. -/
structure IsInside (edges : List Edge) (t : ℚ) : Prop where
  nonneg : 0 ≤ t
  le_one : t ≤ 1
  inside : ∀ e ∈ edges, (e.speed : ℚ) * t ≤ e.room

/-- Where a line has come in over all edges that it comes in over. -/
def entry : List Edge → ℚ
  | [] => 0
  | e :: edges => if e.speed < 0 then max (entry edges) e.crossing else entry edges

/-- Where a line goes out over the first of the edges that it goes out over. -/
def exit : List Edge → ℚ
  | [] => 1
  | e :: edges => if 0 < e.speed then min (exit edges) e.crossing else exit edges

/-- A line that runs along an edge is inside of it. -/
def RunsInside (edges : List Edge) : Prop := ∀ e ∈ edges, e.speed = 0 → 0 ≤ e.room

variable {edges : List Edge} {e : Edge}

theorem entry_cons_of_neg (h : e.speed < 0) :
    entry (e :: edges) = max (entry edges) e.crossing := if_pos h

theorem entry_cons_of_nonneg (h : 0 ≤ e.speed) : entry (e :: edges) = entry edges :=
  if_neg h.not_gt

theorem exit_cons_of_pos (h : 0 < e.speed) : exit (e :: edges) = min (exit edges) e.crossing :=
  if_pos h

theorem exit_cons_of_nonpos (h : e.speed ≤ 0) : exit (e :: edges) = exit edges := if_neg h.not_gt

theorem runsInside_cons :
    RunsInside (e :: edges) ↔ (e.speed = 0 → 0 ≤ e.room) ∧ RunsInside edges :=
  List.forall_mem_cons

theorem entry_nonneg (edges : List Edge) : 0 ≤ entry edges := by
  induction edges with
  | nil => exact le_refl 0
  | cons e edges ih =>
    simp only [entry]
    split
    · exact le_max_of_le_left ih
    · exact ih

theorem exit_le_one (edges : List Edge) : exit edges ≤ 1 := by
  induction edges with
  | nil => exact le_refl 1
  | cons e edges ih =>
    simp only [exit]
    split
    · exact min_le_of_left_le ih
    · exact ih

/-- A line has come in over every edge that it comes in over. -/
theorem crossing_le_entry (he : e ∈ edges) (h : e.speed < 0) :
    e.crossing ≤ entry edges := by
  induction edges with
  | nil => cases he
  | cons e' edges ih =>
    simp only [entry]
    rcases List.mem_cons.mp he with rfl | he
    · rw [if_pos h]
      exact le_max_right _ _
    · split
      · exact le_max_of_le_left (ih he)
      · exact ih he

theorem exit_le_crossing (he : e ∈ edges) (h : 0 < e.speed) :
    exit edges ≤ e.crossing := by
  induction edges with
  | nil => cases he
  | cons e' edges ih =>
    simp only [exit]
    rcases List.mem_cons.mp he with rfl | he
    · rw [if_pos h]
      exact min_le_right _ _
    · split
      · exact min_le_of_left_le (ih he)
      · exact ih he

/-- A point is inside of one edge after it has come in over it, or before it goes out. -/
theorem inside_iff (e : Edge) (t : ℚ) :
    (e.speed : ℚ) * t ≤ e.room ↔
      (e.speed < 0 → e.crossing ≤ t) ∧ (0 < e.speed → t ≤ e.crossing) ∧
        (e.speed = 0 → 0 ≤ e.room) := by
  simp only [Edge.crossing]
  rcases lt_trichotomy e.speed 0 with h | h | h
  · have h' : (e.speed : ℚ) < 0 := by exact_mod_cast h
    simp [h, h.ne, h.not_gt, div_le_iff_of_neg h', mul_comm]
  · simp [h]
  · have h' : (0 : ℚ) < e.speed := by exact_mod_cast h
    simp [h, h.ne', h.not_gt, le_div_iff₀ h', mul_comm]

/-- **What is inside of the edges lies between the entry and the exit.** -/
theorem isInside_iff {t : ℚ} :
    IsInside edges t ↔ entry edges ≤ t ∧ t ≤ exit edges ∧ RunsInside edges := by
  induction edges with
  | nil =>
    refine ⟨fun h => ⟨h.nonneg, h.le_one, ?_⟩, fun h => ⟨h.1, h.2.1, ?_⟩⟩ <;>
    · intro e he
      cases he
  | cons e edges ih =>
    have hcons : IsInside (e :: edges) t ↔ (e.speed : ℚ) * t ≤ e.room ∧ IsInside edges t := by
      constructor
      · intro h
        exact ⟨h.inside e List.mem_cons_self, h.nonneg, h.le_one,
          fun e' he' => h.inside e' (List.mem_cons_of_mem _ he')⟩
      · rintro ⟨he, h⟩
        exact ⟨h.nonneg, h.le_one, List.forall_mem_cons.mpr ⟨he, h.inside⟩⟩
    rw [hcons, ih, inside_iff, runsInside_cons]
    simp only [entry, exit]
    split_ifs with hin hout
    · exact absurd hout hin.not_gt
    · simp only [max_le_iff, hin, hout, true_imp_iff, false_imp_iff, true_and]
      tauto
    · simp only [le_min_iff, *, true_imp_iff, false_imp_iff, true_and]
      tauto
    · simp only [*, false_imp_iff, true_and]
      tauto

/-- A float that is a whole number. -/
structure IsWhole (x : Float) (n : ℤ) : Prop where
  finite : x.isFinite
  eq : value x = n

theorem isWhole_one : IsWhole 1.0 1 := ⟨isFinite_one, value_one.trans Int.cast_one.symm⟩

theorem IsWhole.neg {x : Float} {n : ℤ} (h : IsWhole x n) : IsWhole (-x) (-n) := by
  refine ⟨(isFinite_neg x).trans h.finite, ?_⟩
  rw [value_neg, h.eq, Int.cast_neg]

/-- Sums of moderate size are exact. -/
theorem IsWhole.add {x y : Float} {m n : ℤ} (hx : IsWhole x m) (hy : IsWhole y n)
    (h : |m + n| ≤ 2 ^ 53) : IsWhole (x + y) (m + n) := by
  have hnear := isNearest_add hx.finite hy.finite
  rw [hx.eq, hy.eq, ← Int.cast_add] at hnear
  obtain ⟨hfinite, hvalue⟩ := hnear.within (lt_overflow (by exact_mod_cast h))
  exact ⟨hfinite, hvalue.trans (rounded_intCast h)⟩

theorem IsWhole.sub {x y : Float} {m n : ℤ} (hx : IsWhole x m) (hy : IsWhole y n)
    (h : |m - n| ≤ 2 ^ 53) : IsWhole (x - y) (m - n) := by
  have hnear := isNearest_sub hx.finite hy.finite
  rw [hx.eq, hy.eq, ← Int.cast_sub] at hnear
  obtain ⟨hfinite, hvalue⟩ := hnear.within (lt_overflow (by exact_mod_cast h))
  exact ⟨hfinite, hvalue.trans (rounded_intCast h)⟩

theorem IsWhole.mul {x y : Float} {m n : ℤ} (hx : IsWhole x m) (hy : IsWhole y n)
    (h : |m * n| ≤ 2 ^ 53) : IsWhole (x * y) (m * n) := by
  have hnear := isNearest_mul hx.finite hy.finite
  rw [hx.eq, hy.eq, ← Int.cast_mul] at hnear
  obtain ⟨hfinite, hvalue⟩ := hnear.within (lt_overflow (by exact_mod_cast h))
  exact ⟨hfinite, hvalue.trans (rounded_intCast h)⟩

/-- Zero times any finite float is zero. -/
theorem IsWhole.zero_mul {x y : Float} (hx : IsWhole x 0) (hy : y.isFinite) :
    IsWhole (x * y) 0 := by
  have hnear := isNearest_mul hx.finite hy
  rw [hx.eq, Int.cast_zero, MulZeroClass.zero_mul] at hnear
  obtain ⟨hfinite, hvalue⟩ := hnear.within (lt_overflow (by norm_num))
  exact ⟨hfinite, hvalue.trans (rounded_zero.trans Int.cast_zero.symm)⟩

theorem IsWhole.mul_zero {x y : Float} (hx : x.isFinite) (hy : IsWhole y 0) :
    IsWhole (x * y) 0 := by
  have hnear := isNearest_mul hx hy.finite
  rw [hy.eq, Int.cast_zero, MulZeroClass.mul_zero] at hnear
  obtain ⟨hfinite, hvalue⟩ := hnear.within (lt_overflow (by norm_num))
  exact ⟨hfinite, hvalue.trans (rounded_zero.trans Int.cast_zero.symm)⟩

/-- A quotient of whole numbers is not larger than its numerator. -/
theorem abs_crossing_lt {e : Edge} (h : |e.room| ≤ 2 ^ 53) : |e.crossing| < overflow := by
  refine lt_overflow ?_
  have hroom : |(e.room : ℚ)| ≤ 2 ^ 53 := by exact_mod_cast h
  simp only [Edge.crossing]
  rcases eq_or_ne e.speed 0 with hzero | hne
  · simp [hzero]
  · have hspeed : 1 ≤ |(e.speed : ℚ)| := by exact_mod_cast Int.one_le_abs hne
    rw [abs_div]
    exact (div_le_self (abs_nonneg _) hspeed).trans hroom

/-- What cutting computes: the entry and the exit rounded, in this order. -/
structure Shows (s : Span) (edges : List Edge) : Prop where
  finite_first : s.first.isFinite
  finite_last : s.last.isFinite
  value_first : value s.first = rounded (entry edges)
  value_last : value s.last = rounded (exit edges)
  ordered : rounded (entry edges) ≤ rounded (exit edges)
  runsInside : RunsInside edges

theorem monotone_rounded : Monotone rounded := fun _ _ => rounded_mono

theorem rounded_one : rounded 1 = 1 := by
  rw [← value_one, rounded_value]

theorem shows_whole : Shows ⟨0.0, 1.0⟩ [] where
  finite_first := isFinite_zero
  finite_last := isFinite_one
  value_first := value_zero.trans rounded_zero.symm
  value_last := value_one.trans rounded_one.symm
  ordered := rounded_mono zero_le_one
  runsInside := by
    intro e he
    cases he

section Within

variable {s : Span} {t : Float}

/-- An edge that a line runs along inside changes nothing. -/
theorem Shows.along (h : Shows s edges) (hspeed : e.speed = 0) (hroom : 0 ≤ e.room) :
    Shows s (e :: edges) := by
  refine ⟨h.finite_first, h.finite_last, ?_, ?_, ?_, ?_⟩
  · rw [entry_cons_of_nonneg hspeed.ge, h.value_first]
  · rw [exit_cons_of_nonpos hspeed.le, h.value_last]
  · rw [entry_cons_of_nonneg hspeed.ge, exit_cons_of_nonpos hspeed.le]
    exact h.ordered
  · exact runsInside_cons.mpr ⟨fun _ => hroom, h.runsInside⟩

/-- An edge that a line comes in over may move the first parameter on. -/
theorem Shows.comeIn (h : Shows s edges) (hspeed : e.speed < 0) (ht : t.isFinite)
    (hvalue : value t = rounded e.crossing) (hle : ¬ s.last < t) :
    Shows { s with first := if s.first < t then t else s.first } (e :: edges) := by
  rw [lt_iff h.finite_last ht, not_lt, hvalue, h.value_last] at hle
  refine ⟨?_, h.finite_last, ?_, ?_, ?_, ?_⟩
  · dsimp only
    split
    · exact ht
    · exact h.finite_first
  · rw [entry_cons_of_neg hspeed, monotone_rounded.map_max, ← h.value_first, ← hvalue, max_def_lt,
      apply_ite value]
    simp only [lt_iff h.finite_first ht]
  · rw [exit_cons_of_nonpos hspeed.le, h.value_last]
  · rw [entry_cons_of_neg hspeed, exit_cons_of_nonpos hspeed.le, monotone_rounded.map_max]
    exact max_le h.ordered hle
  · exact runsInside_cons.mpr ⟨fun h => absurd h hspeed.ne, h.runsInside⟩

/-- An edge that a line goes out over may take the last parameter back. -/
theorem Shows.goOut (h : Shows s edges) (hspeed : 0 < e.speed) (ht : t.isFinite)
    (hvalue : value t = rounded e.crossing) (hle : ¬ t < s.first) :
    Shows { s with last := if t < s.last then t else s.last } (e :: edges) := by
  rw [lt_iff ht h.finite_first, not_lt, hvalue, h.value_first] at hle
  refine ⟨h.finite_first, ?_, ?_, ?_, ?_, ?_⟩
  · dsimp only
    split
    · exact ht
    · exact h.finite_last
  · rw [entry_cons_of_nonneg hspeed.le, h.value_first]
  · rw [exit_cons_of_pos hspeed, monotone_rounded.map_min, ← h.value_last, ← hvalue, min_comm,
      min_def_lt, apply_ite value]
    simp only [lt_iff ht h.finite_last]
  · rw [entry_cons_of_nonneg hspeed.le, exit_cons_of_pos hspeed, monotone_rounded.map_min]
    exact le_min h.ordered hle
  · exact runsInside_cons.mpr ⟨fun h => absurd h hspeed.ne', h.runsInside⟩

/-- Nothing is inside of edges that a line comes in over only after it has gone out. -/
theorem not_isInside_of_lt (h : exit edges < entry edges) (t : ℚ) : ¬ IsInside edges t := by
  intro ht
  obtain ⟨hentry, hexit, -⟩ := isInside_iff.mp ht
  linarith

theorem Span.within?_of_zero {speed room : Float} (hspeed : speed.isFinite)
    (h : value speed = 0) : s.within? speed room = if room < 0.0 then none else some s := by
  refine if_pos ?_
  rw [beq_iff hspeed isFinite_zero, value_zero, h]

theorem Span.within?_of_neg {speed room : Float} (hspeed : speed.isFinite) (h : value speed < 0) :
    s.within? speed room =
      if s.last < room / speed then none
      else some { s with first := if s.first < room / speed then room / speed else s.first } := by
  refine (if_neg ?_).trans (if_pos ?_)
  · rw [beq_iff hspeed isFinite_zero, value_zero]
    exact h.ne
  · rwa [lt_iff hspeed isFinite_zero, value_zero]

theorem Span.within?_of_pos {speed room : Float} (hspeed : speed.isFinite) (h : 0 < value speed) :
    s.within? speed room =
      if room / speed < s.first then none
      else some { s with last := if room / speed < s.last then room / speed else s.last } := by
  refine (if_neg ?_).trans (if_neg ?_)
  · rw [beq_iff hspeed isFinite_zero, value_zero]
    exact h.ne'
  · rw [lt_iff hspeed isFinite_zero, value_zero]
    exact h.not_gt

/-- What cutting at edges leaves of a line, where nothing is left only if nothing is inside. -/
def Leaves (left? : Option Span) (edges : List Edge) : Prop :=
  match left? with
  | some s => Shows s edges
  | none => ∀ t, ¬ IsInside edges t

/-- **One more edge.** -/
theorem Shows.within (h : Shows s edges) {speed room : Float} (hs : IsWhole speed e.speed)
    (hr : IsWhole room e.room) (hroom : |e.room| ≤ 2 ^ 53) :
    Leaves (s.within? speed room) (e :: edges) := by
  have hroomneg : room < 0.0 ↔ e.room < 0 := by
    rw [lt_iff hr.finite isFinite_zero, value_zero, hr.eq]
    exact Int.cast_lt_zero
  have hdiv : e.speed ≠ 0 →
      (room / speed).isFinite ∧ value (room / speed) = rounded e.crossing := by
    intro hne
    have hne' : (e.speed : ℚ) ≠ 0 := by exact_mod_cast hne
    have hnear := isNearest_div hr.finite hs.finite (hs.eq.trans_ne hne')
    rw [hr.eq, hs.eq] at hnear
    exact hnear.within (abs_crossing_lt hroom)
  rcases lt_trichotomy e.speed 0 with hcase | hcase | hcase
  · obtain ⟨ht, hvalue⟩ := hdiv hcase.ne
    rw [Span.within?_of_neg hs.finite (hs.eq.trans_lt (by exact_mod_cast hcase))]
    by_cases hlast : s.last < room / speed
    · rw [if_pos hlast]
      rw [lt_iff h.finite_last ht, h.value_last, hvalue] at hlast
      refine not_isInside_of_lt ?_
      rw [entry_cons_of_neg hcase, exit_cons_of_nonpos hcase.le]
      exact lt_max_of_lt_right (monotone_rounded.reflect_lt hlast)
    · rw [if_neg hlast]
      exact h.comeIn hcase ht hvalue hlast
  · rw [Span.within?_of_zero hs.finite (hs.eq.trans (by exact_mod_cast hcase))]
    by_cases hless : room < 0.0
    · rw [if_pos hless]
      intro t ht
      have hroom := ((inside_iff e t).mp (ht.inside e List.mem_cons_self)).2.2 hcase
      exact absurd (hroomneg.mp hless) (not_lt.mpr hroom)
    · rw [if_neg hless]
      exact h.along hcase (not_lt.mp (hroomneg.not.mp hless))
  · obtain ⟨ht, hvalue⟩ := hdiv hcase.ne'
    rw [Span.within?_of_pos hs.finite (by rw [hs.eq]; exact_mod_cast hcase)]
    by_cases hfirst : room / speed < s.first
    · rw [if_pos hfirst]
      rw [lt_iff ht h.finite_first, h.value_first, hvalue] at hfirst
      refine not_isInside_of_lt ?_
      rw [entry_cons_of_nonneg hcase.le, exit_cons_of_pos hcase]
      exact min_lt_of_right_lt (monotone_rounded.reflect_lt hfirst)
    · rw [if_neg hfirst]
      exact h.goOut hcase ht hvalue hfirst

theorem Leaves.within {left? : Option Span} (h : Leaves left? edges) {speed room : Float}
    {m n : ℤ} (hs : IsWhole speed m) (hr : IsWhole room n) (hroom : |n| ≤ 2 ^ 53) :
    Leaves (left?.bind fun s => s.within? speed room) (⟨m, n⟩ :: edges) := by
  cases left? with
  | none =>
    intro t ht
    exact h t ⟨ht.nonneg, ht.le_one, fun e he => ht.inside e (List.mem_cons_of_mem _ he)⟩
  | some s =>
    have h : Shows s edges := h
    exact h.within (e := ⟨m, n⟩) hs hr hroom

end Within

/-! ## 3. Lines that are cut -/

/-- A pixel at most so far away from the first one, on either axis. -/
def IsWithin (reach : ℤ) (p : Pixel) : Prop := |p.1| ≤ reach ∧ |p.2| ≤ reach

/-- The four edges of a canvas grown by one pixel, seen from a line, the last one first. -/
def border (width height : ℤ) (start stop : Pixel) : List Edge :=
  [⟨stop.2 - start.2, height - start.2⟩, ⟨-(stop.2 - start.2), start.2 + 1⟩,
    ⟨stop.1 - start.1, width - start.1⟩, ⟨-(stop.1 - start.1), start.1 + 1⟩]

/-- The pixel that is computed for the point of a line at a parameter. -/
def cutAt (start stop : Pixel) (t : ℚ) : Pixel :=
  (along start.1 (stop.1 - start.1) t, along start.2 (stop.2 - start.2) t)

/-- A point of whole coordinates. -/
def wholePoint (p : Pixel) : Point := (.whole p.1, .whole p.2)

variable {width height : ℤ} {start stop : Pixel}

/-- The coordinate that is computed in floats. -/
theorem roundHalfUp_along {x dx t : Float} (hx : IsWhole x first) (hdx : IsWhole dx extent)
    (ht : t.isFinite) (hlow : 0 ≤ value t) (hhigh : value t ≤ 1) (hfirst : |first| ≤ farthest)
    (hextent : |extent| ≤ 2 * farthest) :
    Coord.roundHalfUp (x + t * dx) = .whole (along first extent (value t)) := by
  have hfirst' : |(first : ℚ)| ≤ 2 ^ 51 := by exact_mod_cast hfirst
  have hextent' : |(extent : ℚ)| ≤ 2 ^ 52 := by exact_mod_cast hextent
  have hproduct : |value t * extent| ≤ (2 ^ 52 : ℤ) := by
    rw [abs_mul, abs_of_nonneg hlow]
    push_cast
    exact (mul_le_of_le_one_left (abs_nonneg _) hhigh).trans hextent'
  have hproduct' := abs_rounded_le hproduct (by norm_num)
  have hsum : |(first : ℚ) + rounded (value t * extent)| ≤ (3 * 2 ^ 51 : ℤ) := by
    refine (abs_add_le _ _).trans ?_
    push_cast at hproduct' ⊢
    linarith
  have hsum' := abs_rounded_le hsum (by norm_num)
  have hmul := isNearest_mul ht hdx.finite
  rw [hdx.eq] at hmul
  obtain ⟨hfinite, hvalue⟩ := hmul.within (lt_overflow (hproduct.trans (by norm_num)))
  have hadd := isNearest_add hx.finite hfinite
  rw [hx.eq, hvalue] at hadd
  obtain ⟨hfinite, hvalue⟩ := hadd.within (lt_overflow (hsum.trans (by norm_num)))
  have hlast : |rounded ((first : ℚ) + rounded (value t * extent)) + 1 / 2| ≤ 2 ^ 53 := by
    refine (abs_add_le _ _).trans ?_
    push_cast at hsum'
    norm_num
    linarith
  have hhalf := isNearest_add hfinite isFinite_half
  rw [hvalue, value_half] at hhalf
  obtain ⟨hfinite, hvalue⟩ := hhalf.within (lt_overflow hlast)
  obtain ⟨v, hv, hscaled⟩ := scaled?_of_isFinite hfinite
  simp only [Coord.roundHalfUp]
  rw [hv]
  dsimp only
  rw [v.floor_eq, hscaled, hvalue]
  rfl

theorem rounded_bounds (edges : List Edge) :
    0 ≤ rounded (entry edges) ∧ rounded (exit edges) ≤ 1 := by
  refine ⟨rounded_nonneg (entry_nonneg edges), ?_⟩
  rw [← rounded_one]
  exact rounded_mono (exit_le_one edges)

/-- The floats of a line's start and extents. -/
structure IsCourse (start stop : Pixel) (x y dx dy : Float) : Prop where
  x : IsWhole x start.1
  y : IsWhole y start.2
  dx : IsWhole dx (stop.1 - start.1)
  dy : IsWhole dy (stop.2 - start.2)

theorem abs_sub_le_of_within {reach m n : ℤ} (hm : |m| ≤ reach) (hn : |n| ≤ reach) :
    |n - m| ≤ 2 * reach := by
  rw [abs_le] at hm hn ⊢
  omega

theorem pointAt_eq {x y dx dy t : Float} (hc : IsCourse start stop x y dx dy) (ht : t.isFinite)
    (hlow : 0 ≤ value t) (hhigh : value t ≤ 1) (hstart : IsWithin farthest start)
    (hstop : IsWithin farthest stop) :
    pointAt x y dx dy t = wholePoint (cutAt start stop (value t)) :=
  Prod.ext
    (roundHalfUp_along hc.x hc.dx ht hlow hhigh hstart.1 (abs_sub_le_of_within hstart.1 hstop.1))
    (roundHalfUp_along hc.y hc.dy ht hlow hhigh hstart.2 (abs_sub_le_of_within hstart.2 hstop.2))

theorem cutAt_zero (hstart : IsWithin farthest start) : cutAt start stop 0 = start :=
  Prod.ext (along_zero hstart.1) (along_zero hstart.2)

theorem cutAt_one (hstart : IsWithin farthest start) (hstop : IsWithin farthest stop) :
    cutAt start stop 1 = stop := by
  have haxis : ∀ {m n : ℤ}, |m| ≤ farthest → |n| ≤ farthest → along m (n - m) 1 = n := by
    intro m n hm hn
    have hsum : m + (n - m) = n := by ring
    have hone := along_one (by rwa [hsum]) ((abs_sub_le_of_within hm hn).trans (by decide))
    rwa [hsum] at hone
  exact Prod.ext (haxis hstart.1 hstop.1) (haxis hstart.2 hstop.2)

/-- **The ends that a line is walked between.**  An end that is not moved is where it would be moved
to. -/
theorem ends_eq {s : Span} {edges : List Edge} (h : Shows s edges) {x y dx dy : Float}
    (hc : IsCourse start stop x y dx dy) (hstart : IsWithin farthest start)
    (hstop : IsWithin farthest stop) :
    ends s (wholePoint start) (wholePoint stop) x y dx dy =
      .ok (cutAt start stop (rounded (entry edges)), cutAt start stop (rounded (exit edges))) := by
  obtain ⟨hlow, hhigh⟩ := rounded_bounds edges
  have hfirst : (if 0.0 < s.first then pointAt x y dx dy s.first else wholePoint start) =
      wholePoint (cutAt start stop (rounded (entry edges))) := by
    rw [← h.value_first]
    split
    · exact pointAt_eq hc h.finite_first (h.value_first ▸ hlow)
        (h.value_first ▸ h.ordered.trans hhigh) hstart hstop
    · rename_i hzero
      rw [lt_iff isFinite_zero h.finite_first, value_zero, not_lt] at hzero
      rw [le_antisymm hzero (h.value_first ▸ hlow), cutAt_zero hstart]
  have hlast : (if s.last < 1.0 then pointAt x y dx dy s.last else wholePoint stop) =
      wholePoint (cutAt start stop (rounded (exit edges))) := by
    rw [← h.value_last]
    split
    · exact pointAt_eq hc h.finite_last (h.value_last ▸ hlow.trans h.ordered)
        (h.value_last ▸ hhigh) hstart hstop
    · rename_i hone
      rw [lt_iff h.finite_last isFinite_one, value_one, not_lt] at hone
      rw [le_antisymm (h.value_last ▸ hhigh) hone, cutAt_one hstart hstop]
  simp only [ends, hfirst, hlast]
  rfl

/-- A line's coordinates on one axis reach a canvas side. -/
def Meets (side first last : ℤ) : Prop := 0 ≤ max first last ∧ min first last < side

theorem misses_iff {side first last : ℤ} :
    misses side (.whole first) (.whole last) = true ↔ ¬ Meets side first last := by
  have hgreatest : (Coord.whole first).greatest (.whole last) = .whole (max first last) := by
    simp only [Coord.greatest, Coord.whole_lt_iff]
    split
    · rw [max_eq_right (by omega)]
    · rw [max_eq_left (by omega)]
  have hleast : (Coord.whole first).least (.whole last) = .whole (min first last) := by
    simp only [Coord.least, Coord.whole_lt_iff]
    split
    · rw [min_eq_right (by omega)]
    · rw [min_eq_left (by omega)]
  have hle : (Coord.whole side).le (.whole (min first last)) = true ↔ side ≤ min first last := by
    simp only [Coord.le, Coord.compare?, Option.any_some]
    exact Std.LawfulBCmp.isLE_iff_le
  simp only [misses, Meets]
  rw [hgreatest, hleast, Bool.or_eq_true, Coord.whole_lt_iff, hle]
  omega

/-- What is walked of a line: nothing where the line runs beside the canvas or no point of it is
inside of the border, and otherwise the way between the two points where it is cut. -/
inductive Walked (width height : ℤ) (start stop : Pixel) : List Pixel → Prop where
  | beside (h : Meets width start.1 stop.1 → ¬ Meets height start.2 stop.2) :
      Walked width height start stop []
  | outside (h : ∀ t, ¬ IsInside (border width height start stop) t) :
      Walked width height start stop []
  | between (hx : Meets width start.1 stop.1) (hy : Meets height start.2 stop.2)
      (hordered : rounded (entry (border width height start stop)) ≤
        rounded (exit (border width height start stop)))
      (hruns : RunsInside (border width height start stop)) :
      Walked width height start stop
        (line (cutAt start stop (rounded (entry (border width height start stop))))
          (cutAt start stop (rounded (exit (border width height start stop)))))

theorem visible?_leaves {w h x y dx dy : Float} (hw : IsWhole w width) (hh : IsWhole h height)
    (hc : IsCourse start stop x y dx dy) (hwidth : |width| ≤ farthest)
    (hheight : |height| ≤ farthest) (hstart : IsWithin farthest start) :
    Leaves (visible? w h x y dx dy) (border width height start stop) := by
  have hfar : (farthest : ℤ) = 2 ^ 51 := rfl
  obtain ⟨hstartx, hstarty⟩ := hstart
  rw [abs_le] at hwidth hheight hstartx hstarty
  have hmoderate : ∀ {n : ℤ}, -(2 * farthest) ≤ n → n ≤ 2 * farthest → |n| ≤ 2 ^ 53 := by
    intro n hlow hhigh
    rw [abs_le]
    omega
  have hleft : |start.1 + 1| ≤ 2 ^ 53 := hmoderate (by omega) (by omega)
  have hright : |width - start.1| ≤ 2 ^ 53 := hmoderate (by omega) (by omega)
  have htop : |start.2 + 1| ≤ 2 ^ 53 := hmoderate (by omega) (by omega)
  have hbottom : |height - start.2| ≤ 2 ^ 53 := hmoderate (by omega) (by omega)
  have hwhole : Leaves (some ⟨0.0, 1.0⟩) [] := shows_whole
  have hall := (((hwhole.within hc.dx.neg (hc.x.add isWhole_one hleft) hleft).within hc.dx
    (hw.sub hc.x hright) hright).within hc.dy.neg (hc.y.add isWhole_one htop) htop).within hc.dy
    (hh.sub hc.y hbottom) hbottom
  simp only [Option.bind_some, Option.bind_assoc] at hall
  exact hall

/-- Whole points that are not too far away are finite. -/
theorem allFinite_wholePoint (hstart : IsWithin farthest start) (hstop : IsWithin farthest stop) :
    Coord.allFinite [(wholePoint start).1, (wholePoint start).2, (wholePoint stop).1,
      (wholePoint stop).2] = .ok true := by
  have hfinite : ∀ {n : ℤ}, |n| ≤ farthest → (Coord.whole n).isFinite = .ok true := by
    intro n hn
    exact (Coord.isFinite_whole (hn.trans (by decide))).isFinite_ok
  simp only [Coord.allFinite_cons, wholePoint, hfinite hstart.1, hfinite hstart.2,
    hfinite hstop.1, hfinite hstop.2]
  rfl

/-- **A line that is not too far away is walked between the points where it is cut.** -/
theorem pixels_walked (halvings : ℕ) (hwidth : |width| ≤ farthest) (hheight : |height| ≤ farthest)
    (hstart : IsWithin farthest start) (hstop : IsWithin farthest stop) :
    ∃ l, pixels halvings width height (wholePoint start) (wholePoint stop) = .ok l ∧
      Walked width height start stop l := by
  have hofWhole : ∀ {n : ℤ}, |n| ≤ farthest → ∃ x, ofWhole n = .ok x ∧ IsWhole x n := by
    intro n hn
    obtain ⟨x, hx, hfinite, hvalue⟩ := Viewport.ofWhole_of_moderate (hn.trans (by decide))
    exact ⟨x, hx, hfinite, hvalue⟩
  obtain ⟨x, hx, hxw⟩ := hofWhole hstart.1
  obtain ⟨y, hy, hyw⟩ := hofWhole hstart.2
  obtain ⟨x', hx', hxw'⟩ := hofWhole hstop.1
  obtain ⟨y', hy', hyw'⟩ := hofWhole hstop.2
  obtain ⟨w, hw, hww⟩ := hofWhole hwidth
  obtain ⟨h, hh, hhw⟩ := hofWhole hheight
  have hextent : ∀ {m n : ℤ}, |m| ≤ farthest → |n| ≤ farthest → |n - m| ≤ 2 ^ 53 := by
    intro m n hm hn
    exact (abs_sub_le_of_within hm hn).trans (by decide)
  have hc : IsCourse start stop x y (x' - x) (y' - y) :=
    ⟨hxw, hyw, hxw'.sub hxw (hextent hstart.1 hstop.1), hyw'.sub hyw (hextent hstart.2 hstop.2)⟩
  have hmisses : (misses width (wholePoint start).1 (wholePoint stop).1 ||
      misses height (wholePoint start).2 (wholePoint stop).2) = true ↔
        (Meets width start.1 stop.1 → ¬ Meets height start.2 stop.2) := by
    rw [Bool.or_eq_true]
    simp only [wholePoint, misses_iff]
    tauto
  have hextents : ((x' - x).isFinite && (y' - y).isFinite) = true :=
    Bool.and_eq_true_iff.mpr ⟨hc.dx.finite, hc.dy.finite⟩
  have hleaves := visible?_leaves hww hhw hc hwidth hheight hstart
  have hfinite := allFinite_wholePoint hstart hstop
  rw [pixels_eq]
  by_cases hmiss : Meets width start.1 stop.1 → ¬ Meets height start.2 stop.2
  · refine ⟨[], bind_ok hfinite ?_, .beside hmiss⟩
    rw [if_neg (by decide), if_pos (hmisses.mpr hmiss)]
    rfl
  · have hmeets := hmisses.not.mpr hmiss
    push Not at hmiss
    cases hvisible : visible? w h x y (x' - x) (y' - y) with
    | none =>
      rw [hvisible] at hleaves
      refine ⟨[], bind_ok hfinite ?_, .outside hleaves⟩
      rw [if_neg (by decide), if_neg hmeets]
      refine bind_ok hx (bind_ok hy (bind_ok hx' (bind_ok hy' ?_)))
      rw [if_pos hextents]
      refine bind_ok hw (bind_ok hh ?_)
      rw [hvisible]
      rfl
    | some s =>
      rw [hvisible] at hleaves
      have hshows : Shows s (border width height start stop) := hleaves
      refine ⟨_, bind_ok hfinite ?_, .between hmiss.1 hmiss.2 hshows.ordered hshows.runsInside⟩
      rw [if_neg (by decide), if_neg hmeets]
      refine bind_ok hx (bind_ok hy (bind_ok hx' (bind_ok hy' ?_)))
      rw [if_pos hextents]
      refine bind_ok hw (bind_ok hh ?_)
      rw [hvisible]
      exact bind_ok (ends_eq hshows hc hstart hstop) rfl

/-! ## 4. Where lines are cut -/

/-- A pixel of the canvas grown by one pixel on each side. -/
def IsAround (width height : ℤ) (p : Pixel) : Prop :=
  (-1 ≤ p.1 ∧ p.1 ≤ width) ∧ -1 ≤ p.2 ∧ p.2 ≤ height

section Axis

variable {s : ℚ}

/-- A whole coordinate between the ends has a parameter from 0 to 1. -/
theorem parameter_bounds (hne : extent ≠ 0)
    (h : first ≤ n ∧ n ≤ first + extent ∨ first + extent ≤ n ∧ n ≤ first) :
    0 ≤ ((n : ℚ) - first) / extent ∧ ((n : ℚ) - first) / extent ≤ 1 := by
  rcases h with ⟨h1, h2⟩ | ⟨h1, h2⟩
  · have h1' : (first : ℚ) ≤ n := by exact_mod_cast h1
    have h2' : (n : ℚ) ≤ first + extent := by exact_mod_cast h2
    have hpos : (0 : ℚ) < extent := by exact_mod_cast (by omega : 0 < extent)
    rw [div_le_one hpos]
    exact ⟨div_nonneg (by linarith) hpos.le, by linarith⟩
  · have h1' : (first : ℚ) + extent ≤ n := by exact_mod_cast h1
    have h2' : (n : ℚ) ≤ first := by exact_mod_cast h2
    have hneg : (extent : ℚ) < 0 := by exact_mod_cast (by omega : extent < 0)
    rw [div_le_one_of_neg hneg]
    exact ⟨div_nonneg_of_nonpos (by linarith) hneg.le, by linarith⟩

/-- **The point at the parameter of a whole coordinate has this coordinate.** -/
theorem along_crossing (hfirst : |first| ≤ farthest) (hlast : |first + extent| ≤ farthest)
    (h : first ≤ n ∧ n ≤ first + extent ∨ first + extent ≤ n ∧ n ≤ first) :
    along first extent (rounded ((n - first) / extent)) = n := by
  rcases eq_or_ne n first with rfl | hne
  · simpa using along_zero hfirst
  have hextent : extent ≠ 0 := by omega
  have hextent' : (extent : ℚ) ≠ 0 := by exact_mod_cast hextent
  rcases eq_or_ne n (first + extent) with rfl | hne'
  · have hone : (((first + extent : ℤ) : ℚ) - first) / extent = 1 := by
      push_cast
      rw [add_sub_cancel_left, div_self hextent']
    rw [hone, rounded_one]
    exact along_one hlast ((abs_extent_le hfirst hlast).trans (by decide))
  obtain ⟨hlow, hhigh⟩ := parameter_bounds hextent h
  refine along_whole hlow hhigh hfirst hlast ?_ ?_
  · rw [abs_le] at hfirst hlast
    rw [abs_lt]
    omega
  · rw [div_mul_cancel₀ _ hextent']
    ring

theorem crossing_before : Edge.crossing ⟨-extent, first + 1⟩ = ((-1 : ℤ) - first) / extent := by
  simp only [Edge.crossing]
  push_cast
  rw [div_neg, ← neg_div]
  congr 1
  ring

theorem crossing_behind : Edge.crossing ⟨extent, side - first⟩ = (side - first) / extent := by
  simp only [Edge.crossing]
  push_cast
  rfl

/-- **Between the entry and the exit a line stays at the canvas side.**  The four crossings that
matter are those at `-1` and at the side, each in both directions. -/
theorem along_around {edges : List Edge} (hfirst : |first| ≤ farthest)
    (hlast : |first + extent| ≤ farthest) (hbefore : ⟨-extent, first + 1⟩ ∈ edges)
    (hbehind : ⟨extent, side - first⟩ ∈ edges)
    (hmeets : Meets side first (first + extent)) (hentry : rounded (entry edges) ≤ s)
    (hexit : s ≤ rounded (exit edges)) :
    -1 ≤ along first extent s ∧ along first extent s ≤ side := by
  obtain ⟨hmax, hmin⟩ := hmeets
  obtain ⟨hlow, hhigh⟩ := rounded_bounds edges
  have hzero : along first extent 0 = first := along_zero hfirst
  have hone : along first extent 1 = first + extent :=
    along_one hlast ((abs_extent_le hfirst hlast).trans (by decide))
  rcases lt_trichotomy extent 0 with hcase | rfl | hcase
  · -- The line comes in over the canvas side and goes out at `-1`.
    have hanti : Antitone (along first extent) := along_anti hcase.le
    have hin := (rounded_mono (crossing_le_entry hbehind hcase)).trans hentry
    have hout := hexit.trans (rounded_mono (exit_le_crossing hbefore (by simpa using hcase)))
    rw [crossing_behind] at hin
    rw [crossing_before] at hout
    constructor
    · rcases le_total (first + extent) (-1) with hover | hshort
      · rw [← along_crossing hfirst hlast (Or.inr ⟨hover, by omega⟩)]
        exact hanti hout
      · have := hanti (hexit.trans hhigh)
        omega
    · rcases le_total side first with hover | hshort
      · rw [← along_crossing hfirst hlast (Or.inr ⟨by omega, hover⟩)]
        exact hanti hin
      · have := hanti (hlow.trans hentry)
        omega
  · have hstay : along first 0 s = first := along_level hfirst s
    omega
  · -- The line comes in at `-1` and goes out over the canvas side.
    have hmono : Monotone (along first extent) := along_mono hcase.le
    have hin := (rounded_mono (crossing_le_entry hbefore (by simpa using hcase))).trans hentry
    have hout := hexit.trans (rounded_mono (exit_le_crossing hbehind hcase))
    rw [crossing_before] at hin
    rw [crossing_behind] at hout
    constructor
    · rcases le_total first (-1) with hover | hshort
      · rw [← along_crossing hfirst hlast (Or.inl ⟨hover, by omega⟩)]
        exact hmono hin
      · have := hmono (hlow.trans hentry)
        omega
    · rcases le_total side (first + extent) with hover | hshort
      · rw [← along_crossing hfirst hlast (Or.inl ⟨by omega, hover⟩)]
        exact hmono hout
      · have := hmono (hexit.trans hhigh)
        omega

end Axis

/-- The same on both axes. -/
theorem cutAt_around {s : ℚ} (hstart : IsWithin farthest start) (hstop : IsWithin farthest stop)
    (hx : Meets width start.1 stop.1) (hy : Meets height start.2 stop.2)
    (hentry : rounded (entry (border width height start stop)) ≤ s)
    (hexit : s ≤ rounded (exit (border width height start stop))) :
    IsAround width height (cutAt start stop s) := by
  have hstopx : start.1 + (stop.1 - start.1) = stop.1 := by ring
  have hstopy : start.2 + (stop.2 - start.2) = stop.2 := by ring
  constructor
  · exact along_around hstart.1 (hstopx.symm ▸ hstop.1) (by simp [border]) (by simp [border])
      (hstopx.symm ▸ hx) hentry hexit
  · exact along_around hstart.2 (hstopy.symm ▸ hstop.2) (by simp [border]) (by simp [border])
      (hstopy.symm ▸ hy) hentry hexit

/-- A walk between two pixels around a canvas is not longer than the canvas. -/
theorem length_line_le {a b : Pixel} (ha : IsAround width height a) (hb : IsAround width height b) :
    ((line a b).length : ℤ) ≤ max width height + 2 := by
  obtain ⟨⟨h1, h2⟩, h3, h4⟩ := ha
  obtain ⟨⟨h5, h6⟩, h7, h8⟩ := hb
  simp only [line_eq, steps, extentX, extentY, List.length_map, List.length_range]
  omega

/-- **Cutting bounds the walk.**  Every line with coordinates of `2 ^ 51` at most is walked over no
pixel at all, or between two pixels of the canvas grown by one pixel on each side.  So the walk ends
after as many pixels as the longer canvas side has and two more, however long the line is. -/
theorem clipped_walk_short (hw : 0 < width) (hw' : width ≤ Viewport.longestSide) (hh : 0 < height)
    (hh' : height ≤ Viewport.longestSide) (hstart : IsWithin farthest start)
    (hstop : IsWithin farthest stop) :
    ∃ l, pixels enoughHalvings width height (wholePoint start) (wholePoint stop) = .ok l ∧
      (l = [] ∨ ∃ a b, IsAround width height a ∧ IsAround width height b ∧
        Walks (course a b) ⟨a, (course a b).across + (course a b).down⟩ l ∧
          (l.length : ℤ) ≤ max width height + 2) := by
  have hwidth : |width| ≤ farthest := (abs_of_pos hw).trans_le (hw'.trans (by decide))
  have hheight : |height| ≤ farthest := (abs_of_pos hh).trans_le (hh'.trans (by decide))
  obtain ⟨l, hl, hwalked⟩ := pixels_walked enoughHalvings hwidth hheight hstart hstop
  refine ⟨l, hl, ?_⟩
  cases hwalked with
  | beside => exact Or.inl rfl
  | outside => exact Or.inl rfl
  | between hx hy hordered hruns =>
    have ha := cutAt_around hstart hstop hx hy le_rfl hordered
    have hb := cutAt_around hstart hstop hx hy hordered le_rfl
    exact Or.inr ⟨_, _, ha, hb, walks_line _ _, length_line_le ha hb⟩

/-- A line of `2 ^ 52` pixels is walked over six pixels at most on a canvas of four columns. -/
theorem clipped_walk_short_longLine :
    IsWithin farthest (-2 ^ 51, 1) ∧ IsWithin farthest (2 ^ 51, 2) ∧
      ∃ l, pixels enoughHalvings 4 4 (wholePoint (-2 ^ 51, 1)) (wholePoint (2 ^ 51, 2)) = .ok l ∧
        (l = [] ∨ ∃ a b, IsAround 4 4 a ∧ IsAround 4 4 b ∧
          Walks (course a b) ⟨a, (course a b).across + (course a b).down⟩ l ∧
            (l.length : ℤ) ≤ max 4 4 + 2) := by
  have hstart : IsWithin farthest (-2 ^ 51, 1) := by constructor <;> decide
  have hstop : IsWithin farthest (2 ^ 51, 2) := by constructor <;> decide
  exact ⟨hstart, hstop, clipped_walk_short (by decide) (by decide) (by decide) (by decide) hstart
    hstop⟩

/-- **Too far away the points are computed too coarsely.**  Both ends of a line that crosses all
four columns of a canvas are moved to the same pixel far to the left, so nothing is painted.  The
walk of a shorter line is longer than four columns allow. -/
theorem clipped_walk_astray :
    pixels enoughHalvings 4 4 (wholePoint (-10 ^ 24, 1)) (wholePoint (10 ^ 25, 1)) =
        .ok [(-134217728, 1)] ∧
      (¬ ∃ a b, IsAround 4 4 a ∧ IsAround 4 4 b ∧
        Walks (course a b) ⟨a, (course a b).across + (course a b).down⟩ [(-134217728, 1)]) ∧
      pixels enoughHalvings 4 4 (wholePoint (-8 * 10 ^ 15, 1)) (wholePoint (21 * 10 ^ 15, 1)) =
        .ok [(-2, 1), (-1, 1), (0, 1), (1, 1), (2, 1), (3, 1), (4, 1), (5, 1)] := by
  refine ⟨by decide +kernel, ?_, by decide +kernel⟩
  rintro ⟨a, b, ⟨⟨hlow, -⟩, -⟩, -, hwalks⟩
  cases hwalks with
  | ends h =>
    revert hlow
    decide
  | goesOn h hrest => cases hrest

end VectorPaint.Raster
