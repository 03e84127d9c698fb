/-
# Which pixels a walk visits

A walk goes on until it stands on its last pixel, and nothing in a step says that it ever gets
there.  The error term does.  After `i` steps the walk has gone the `i`-th share of either extent,
rounded to whole pixels with halves going away from the start (`share`), and the error term weighs
the two shares against each other (`standAt`).  One step leads from one such stand to the next
(`step_standAt`), whichever of the two extents is the longer one.

The longer extent is shared out pixel by pixel.  So the walk ends after as many steps as that
extent has pixels and not before, it visits no pixel twice, and on the other axis it is never
farther than half a pixel away from the straight line (`line_exact`).
-/
import VectorPaint.Canvas.Raster
import Mathlib.Data.List.Nodup
import Mathlib.Data.List.Range
import Mathlib.Data.Rat.Floor
import Mathlib.Tactic.Linarith
import Mathlib.Tactic.Ring
import Mathlib.Tactic.FieldSimp

namespace VectorPaint.Raster

/-! ## 1. Shares -/

/-- The part of an extent that is gone after some of the steps, in whole pixels. -/
def share (steps extent taken : ℕ) : ℕ := (2 * taken * extent + steps) / (2 * steps)

@[simp] theorem share_zero (steps extent : ℕ) : share steps extent 0 = 0 := by
  unfold share
  rcases Nat.eq_zero_or_pos steps with rfl | h
  · exact Nat.div_zero _
  · exact Nat.div_eq_of_lt (by omega)

/-- With as many steps as it has pixels an extent is gone pixel by pixel. -/
theorem share_self {steps taken : ℕ} (h : taken ≤ steps) : share steps steps taken = taken := by
  unfold share
  rcases Nat.eq_zero_or_pos steps with rfl | hpos
  · omega
  · have hsplit : 2 * taken * steps + steps = steps + 2 * steps * taken := by ring
    rw [hsplit, Nat.add_mul_div_left _ _ (by omega), Nat.div_eq_of_lt (by omega), Nat.zero_add]

/-- After all steps the whole extent is gone. -/
theorem share_all {steps extent : ℕ} (h : extent ≤ steps) : share steps extent steps = extent := by
  unfold share
  rcases Nat.eq_zero_or_pos steps with rfl | hpos
  · omega
  · have hsplit : 2 * steps * extent + steps = steps + 2 * steps * extent := by ring
    rw [hsplit, Nat.add_mul_div_left _ _ (by omega), Nat.div_eq_of_lt (by omega), Nat.zero_add]

/-- Between two shares of an extent lies one pixel or none. -/
theorem share_succ_cases {steps extent : ℕ} (h : extent ≤ steps) (taken : ℕ) :
    share steps extent (taken + 1) = share steps extent taken ∨
      share steps extent (taken + 1) = share steps extent taken + 1 := by
  unfold share
  rcases Nat.eq_zero_or_pos steps with rfl | hpos
  · obtain rfl := Nat.le_zero.mp h
    exact Or.inl rfl
  · have hsplit : 2 * (taken + 1) * extent + steps = 2 * taken * extent + steps + 2 * extent := by
      ring
    have hlow : (2 * taken * extent + steps) / (2 * steps) ≤
        (2 * taken * extent + steps + 2 * extent) / (2 * steps) :=
      Nat.div_le_div_right (Nat.le_add_right _ _)
    have hhigh : (2 * taken * extent + steps + 2 * extent) / (2 * steps) ≤
        (2 * taken * extent + steps + 2 * steps) / (2 * steps) :=
      Nat.div_le_div_right (by omega)
    rw [Nat.add_div_right _ (by omega)] at hhigh
    rw [hsplit]
    omega

/-- **When the next pixel of an extent is gone,** told from the shares of both extents. -/
theorem share_succ {steps extent other taken : ℕ} (hsteps : steps = max extent other)
    (h : taken < steps) :
    share steps extent (taken + 1) =
      if 2 * (share steps extent taken + 1) * other ≤
          2 * (share steps other taken + 1) * extent + other
      then share steps extent taken + 1 else share steps extent taken := by
  rcases le_total other extent with hle | hle
  · -- This is the longer extent, which loses a pixel in each step.
    obtain rfl : steps = extent := by omega
    rw [share_self h, share_self h.le]
    have hnext : 2 * taken * other + steps < 2 * steps * (share steps other taken + 1) :=
      Nat.lt_mul_div_succ _ (by omega)
    rw [if_pos]
    have h1 : 2 * (taken + 1) * other = 2 * taken * other + 2 * other := by ring
    have h2 : 2 * (share steps other taken + 1) * steps =
      2 * steps * (share steps other taken + 1) := by ring
    omega
  · obtain rfl : steps = other := by omega
    rw [share_self h.le]
    have hiff : 2 * (share steps extent taken + 1) * steps ≤ 2 * (taken + 1) * extent + steps ↔
        share steps extent taken + 1 ≤ share steps extent (taken + 1) := by
      have hmul : 2 * (share steps extent taken + 1) * steps =
        (share steps extent taken + 1) * (2 * steps) := by ring
      rw [hmul]
      exact (Nat.le_div_iff_mul_le (by omega)).symm
    have hcases := share_succ_cases hle taken
    split
    · rename_i hcond
      have := hiff.mp hcond
      omega
    · rename_i hcond
      have := hiff.not.mp hcond
      omega

/-- **A share is the nearest whole number,** halves going up. -/
theorem share_eq_floor {steps : ℕ} (h : 0 < steps) (extent taken : ℕ) :
    (share steps extent taken : ℤ) = ⌊(taken : ℚ) * extent / steps + 1 / 2⌋ := by
  have hpos : (0 : ℚ) < steps := by exact_mod_cast h
  have hfraction : (taken : ℚ) * extent / steps + 1 / 2 =
      ((2 * taken * extent + steps : ℕ) : ℤ) / ((2 * steps : ℕ) : ℚ) := by
    push_cast
    field_simp
  rw [hfraction, Rat.floor_intCast_div_natCast]
  unfold share
  exact Int.natCast_div _ _

/-- A share is at most half a pixel away from what it is a share of. -/
theorem abs_share_sub_le {steps extent taken : ℕ} (h : 0 < steps) :
    |(share steps extent taken : ℚ) - taken * extent / steps| ≤ 1 / 2 := by
  have hfloor := share_eq_floor h extent taken
  have hlow := Int.floor_le ((taken : ℚ) * extent / steps + 1 / 2)
  have hhigh := Int.lt_floor_add_one ((taken : ℚ) * extent / steps + 1 / 2)
  rw [← hfloor, Int.cast_natCast] at hlow hhigh
  rw [abs_le]
  constructor <;> linarith

/-! ## 2. Steps -/

/-- How many columns lie between two pixels. -/
def extentX (start stop : Pixel) : ℕ := (stop.1 - start.1).natAbs

/-- How many rows lie between two pixels. -/
def extentY (start stop : Pixel) : ℕ := (stop.2 - start.2).natAbs

/-- As many steps as the longer extent has pixels. -/
def steps (start stop : Pixel) : ℕ := max (extentX start stop) (extentY start stop)

variable (start stop : Pixel)

theorem extentX_le : extentX start stop ≤ steps start stop := le_max_left _ _

theorem extentY_le : extentY start stop ≤ steps start stop := le_max_right _ _

/-- The pixel that is reached after so many steps. -/
def pixelAt (taken : ℕ) : Pixel :=
  (start.1 + (course start stop).stepX * share (steps start stop) (extentX start stop) taken,
    start.2 + (course start stop).stepY * share (steps start stop) (extentY start stop) taken)

/-- The stand after so many steps.  The error term weighs the two shares against each other. -/
def standAt (taken : ℕ) : Stand :=
  ⟨pixelAt start stop taken,
    (share (steps start stop) (extentY start stop) taken + 1) * extentX start stop -
      (share (steps start stop) (extentX start stop) taken + 1) * extentY start stop⟩

theorem standAt_zero :
    standAt start stop 0 = ⟨start, (course start stop).across + (course start stop).down⟩ := by
  simp only [standAt, pixelAt, share_zero, course, extentX, extentY]
  simp
  ring

/-- The whole extent, in the direction of the step, leads from one end to the other. -/
theorem sign_mul_natAbs (a b : ℤ) : (if a < b then 1 else -1) * ((b - a).natAbs : ℤ) = b - a := by
  split <;> omega

theorem abs_stepX : |(course start stop).stepX| = 1 := by
  change |if _ then (1 : ℤ) else -1| = 1
  split <;> rfl

theorem abs_stepY : |(course start stop).stepY| = 1 := by
  change |if _ then (1 : ℤ) else -1| = 1
  split <;> rfl

theorem ne_zero_of_abs_eq_one {sign : ℤ} (h : |sign| = 1) : sign ≠ 0 := by
  rintro rfl
  cases h

theorem stepX_mul_extentX :
    (course start stop).stepX * extentX start stop = stop.1 - start.1 := sign_mul_natAbs _ _

theorem stepY_mul_extentY :
    (course start stop).stepY * extentY start stop = stop.2 - start.2 := sign_mul_natAbs _ _

theorem pixelAt_steps : pixelAt start stop (steps start stop) = stop := by
  unfold pixelAt
  rw [share_all (extentX_le start stop), share_all (extentY_le start stop), stepX_mul_extentX,
    stepY_mul_extentY]
  exact Prod.ext (by ring) (by ring)

theorem course_across : (course start stop).across = extentX start stop := rfl

theorem course_down : (course start stop).down = -(extentY start stop : ℤ) := rfl

/-- A coordinate takes a step with the share that it stands for. -/
theorem coordinate_next {c : Prop} [Decidable c] (first sign : ℤ) {gone next : ℕ}
    (h : next = if c then gone + 1 else gone) :
    (if c then first + sign * gone + sign else first + sign * gone) = first + sign * next := by
  subst h
  split <;> push_cast <;> ring

/-- So does the error term, with both shares. -/
theorem error_next {c d : Prop} [Decidable c] [Decidable d] (across down : ℤ)
    {goneX nextX goneY nextY : ℕ} (hx : nextX = if c then goneX + 1 else goneX)
    (hy : nextY = if d then goneY + 1 else goneY) :
    (goneY + 1) * across - (goneX + 1) * down + (if c then -down else 0) +
      (if d then across else 0) = (nextY + 1) * across - (nextX + 1) * down := by
  subst hx hy
  split <;> split <;> push_cast <;> ring

/-- **One step leads from one stand to the next.**  Both tests of a step are `share_succ`, once
for each axis. -/
theorem step_standAt {taken : ℕ} (h : taken < steps start stop) :
    step (course start stop) (standAt start stop taken) = standAt start stop (taken + 1) := by
  have hsteps : steps start stop = max (extentX start stop) (extentY start stop) := rfl
  have hx := share_succ hsteps h
  have hy := share_succ (hsteps.trans (max_comm _ _)) h
  have hsideways : (course start stop).down ≤ 2 * (standAt start stop taken).error ↔
      2 * (share (steps start stop) (extentX start stop) taken + 1) * extentY start stop ≤
        2 * (share (steps start stop) (extentY start stop) taken + 1) * extentX start stop +
          extentY start stop := by
    rw [course_down]
    simp only [standAt]
    zify
    constructor <;> intro h <;> linarith
  have hupright : 2 * (standAt start stop taken).error ≤ (course start stop).across ↔
      2 * (share (steps start stop) (extentY start stop) taken + 1) * extentX start stop ≤
        2 * (share (steps start stop) (extentX start stop) taken + 1) * extentY start stop +
          extentX start stop := by
    rw [course_across]
    simp only [standAt]
    zify
    constructor <;> intro h <;> linarith
  simp only [← hsideways] at hx
  simp only [← hupright] at hy
  exact congrArg₂ Stand.mk (Prod.ext (coordinate_next _ _ hx) (coordinate_next _ _ hy))
    (error_next _ _ hx hy)

/-! ## 3. The whole walk -/

/-- A walk that ends, with the pixels that it visits: it goes on, pixel by pixel, until it stands
on its stop. -/
inductive Walks (w : Course) : Stand → List Pixel → Prop where
  | ends {s : Stand} (h : s.pixel = w.stop) : Walks w s [s.pixel]
  | goesOn {s : Stand} {pixels : List Pixel} (h : s.pixel ≠ w.stop)
      (hrest : Walks w (step w s) pixels) : Walks w s (s.pixel :: pixels)

/-- A walk takes one way only. -/
theorem Walks.unique {w : Course} {s : Stand} {pixels others : List Pixel} (h : Walks w s pixels)
    (h' : Walks w s others) : pixels = others := by
  induction h generalizing others with
  | ends hs =>
    cases h' with
    | ends => rfl
    | goesOn hne => exact absurd hs hne
  | goesOn hne _ ih =>
    cases h' with
    | ends hs => exact absurd hs hne
    | goesOn _ hrest => rw [ih hrest]

/-- On its way along the longer extent a walk never comes back to a pixel. -/
theorem pixelAt_inj {i j : ℕ} (hi : i ≤ steps start stop) (hj : j ≤ steps start stop)
    (h : pixelAt start stop i = pixelAt start stop j) : i = j := by
  obtain ⟨hx, hy⟩ := Prod.ext_iff.mp h
  simp only [pixelAt, add_right_inj] at hx hy
  have hx' := mul_left_cancel₀ (ne_zero_of_abs_eq_one (abs_stepX start stop)) hx
  have hy' := mul_left_cancel₀ (ne_zero_of_abs_eq_one (abs_stepY start stop)) hy
  rcases max_choice (extentX start stop) (extentY start stop) with hmax | hmax
  · have hsteps : steps start stop = extentX start stop := hmax
    rw [← hsteps, share_self hi, share_self hj] at hx'
    exact_mod_cast hx'
  · have hsteps : steps start stop = extentY start stop := hmax
    rw [← hsteps, share_self hi, share_self hj] at hy'
    exact_mod_cast hy'

/-- **A walk goes through the stands one by one and ends with the last one.** -/
theorem walks_standAt {rest taken : ℕ} (h : taken + rest = steps start stop) :
    Walks (course start stop) (standAt start stop taken)
      ((List.range' taken (rest + 1)).map (pixelAt start stop)) := by
  induction rest generalizing taken with
  | zero =>
    obtain rfl : taken = steps start stop := h
    exact .ends (pixelAt_steps start stop)
  | succ rest ih =>
    refine .goesOn ?_ ?_
    · intro hstop
      have := pixelAt_inj start stop (by omega) (le_refl _)
        (hstop.trans (pixelAt_steps start stop).symm)
      omega
    · rw [step_standAt start stop (by omega)]
      exact ih (by omega)

/-- What is written down of a walk is the walk, if it is given enough steps. -/
theorem walk_eq {w : Course} {s : Stand} {pixels : List Pixel} (h : Walks w s pixels) {n : ℕ}
    (hn : pixels.length ≤ n + 1) : walk w n s = pixels := by
  induction h generalizing n with
  | ends hs =>
    cases n with
    | zero => rfl
    | succ n => exact if_pos hs
  | goesOn hne hrest ih =>
    cases n with
    | zero =>
      cases hrest <;> simp at hn
    | succ n =>
      rw [walk, if_neg hne, ih (by simpa using hn)]

/-- The pixels of a line, one for each step and one more. -/
theorem line_eq :
    line start stop = (List.range (steps start stop + 1)).map (pixelAt start stop) := by
  have hwalks := walks_standAt start stop (Nat.zero_add (steps start stop))
  rw [standAt_zero, ← List.range_eq_range'] at hwalks
  exact walk_eq hwalks (by simp [steps, extentX, extentY])

/-- What is written down of a line is the walk from its start. -/
theorem walks_line : Walks (course start stop)
    ⟨start, (course start stop).across + (course start stop).down⟩ (line start stop) := by
  have hwalks := walks_standAt start stop (Nat.zero_add (steps start stop))
  rwa [standAt_zero, ← List.range_eq_range', ← line_eq] at hwalks

/-- A line from a pixel to itself is that pixel. -/
@[simp] theorem line_self (p : Pixel) : line p p = [p] := by
  simp [line, walk]

theorem mem_line {p : Pixel} :
    p ∈ line start stop ↔ ∃ taken ≤ steps start stop, pixelAt start stop taken = p := by
  rw [line_eq, List.mem_map]
  simp only [List.mem_range, Nat.lt_succ_iff]

/-- Two pixels that touch, if only at a corner. -/
def AreNeighbors (p q : Pixel) : Prop := p ≠ q ∧ |q.1 - p.1| ≤ 1 ∧ |q.2 - p.2| ≤ 1

theorem areNeighbors_pixelAt {taken : ℕ} (h : taken < steps start stop) :
    AreNeighbors (pixelAt start stop taken) (pixelAt start stop (taken + 1)) := by
  have hnear : ∀ (first : ℤ) {sign : ℤ} {gone next : ℕ}, |sign| = 1 →
      next = gone ∨ next = gone + 1 →
        |first + sign * next - (first + sign * gone)| ≤ 1 := by
    intro first sign gone next hsign hnext
    rcases hnext with rfl | rfl
    · simp
    · have hstep : first + sign * ((gone + 1 : ℕ) : ℤ) - (first + sign * gone) = sign := by
        push_cast
        ring
      rw [hstep, hsign]
  refine ⟨?_, ?_, ?_⟩
  · intro heq
    have := pixelAt_inj start stop h.le h heq
    omega
  · exact hnear _ (abs_stepX start stop) (share_succ_cases (extentX_le start stop) taken)
  · exact hnear _ (abs_stepY start stop) (share_succ_cases (extentY_le start stop) taken)

/-! ## 4. The straight line -/

/-- The point of the straight line between two pixels at a parameter from 0 to 1. -/
def straight (t : ℚ) : ℚ × ℚ :=
  (start.1 + t * (stop.1 - start.1), start.2 + t * (stop.2 - start.2))

/-- A coordinate that has gone its share is near the straight line. -/
theorem abs_coordinate_sub_le {steps extent taken : ℕ} (htaken : taken ≤ steps) {sign : ℤ}
    (hsign : |sign| = 1) (first : ℤ) {last : ℤ} (h : sign * extent = last - first) :
    |((first + sign * share steps extent taken : ℤ) : ℚ) -
      (first + (taken : ℚ) / steps * (last - first))| ≤ 1 / 2 := by
  have hcast : (sign : ℚ) * extent = last - first := by exact_mod_cast h
  rcases Nat.eq_zero_or_pos steps with rfl | hpos
  · obtain rfl : taken = 0 := by omega
    simp
  · have hsplit : ((first + sign * share steps extent taken : ℤ) : ℚ) -
        (first + (taken : ℚ) / steps * (last - first)) =
          sign * (share steps extent taken - taken * extent / steps) := by
      rw [← hcast]
      push_cast
      ring
    have hone : |(sign : ℚ)| = 1 := by exact_mod_cast hsign
    rw [hsplit, abs_mul, hone, one_mul]
    exact abs_share_sub_le hpos

/-- **A walk stays at the straight line,** at most half a pixel away on either axis. -/
theorem pixelAt_near {taken : ℕ} (h : taken ≤ steps start stop) :
    |((pixelAt start stop taken).1 : ℚ) - (straight start stop (taken / steps start stop)).1| ≤
        1 / 2 ∧
      |((pixelAt start stop taken).2 : ℚ) - (straight start stop (taken / steps start stop)).2| ≤
        1 / 2 :=
  ⟨abs_coordinate_sub_le h (abs_stepX start stop) _ (stepX_mul_extentX start stop),
    abs_coordinate_sub_le h (abs_stepY start stop) _ (stepY_mul_extentY start stop)⟩

/-- Where a coordinate goes pixel by pixel it tells the parameter, and so the other coordinate of
the straight line. -/
theorem other_coordinate {steps taken : ℕ} (h : taken ≤ steps) {first last sign : ℤ}
    (hsign : |sign| = 1) (hextent : sign * steps = last - first) (p q : ℚ) :
    p + (((first + sign * share steps steps taken : ℤ) : ℚ) - first) * q / (last - first) =
      p + taken / steps * q := by
  rw [share_self h]
  rcases Nat.eq_zero_or_pos steps with rfl | hpos
  · obtain rfl : taken = 0 := by omega
    simp
  · have hcast : (sign : ℚ) * steps = last - first := by exact_mod_cast hextent
    have hne : (sign : ℚ) ≠ 0 := by exact_mod_cast ne_zero_of_abs_eq_one hsign
    rw [← hcast]
    push_cast
    field_simp
    ring

section Axes

variable {start stop}

/-- Where the horizontal extent is the longer one, the columns are gone through one by one. -/
theorem pixelAt_of_le (h : extentY start stop ≤ extentX start stop) {i : ℕ}
    (hi : i ≤ steps start stop) :
    pixelAt start stop i = (start.1 + (course start stop).stepX * i,
      start.2 + (course start stop).stepY *
        ((2 * i * extentY start stop + extentX start stop) / (2 * extentX start stop))) := by
  have hsteps : steps start stop = extentX start stop := max_eq_left h
  simp only [pixelAt]
  rw [hsteps] at hi ⊢
  rw [share_self hi]
  rfl

/-- Where the vertical extent is the longer one, the rows are. -/
theorem pixelAt_of_lt (h : extentX start stop < extentY start stop) {i : ℕ}
    (hi : i ≤ steps start stop) :
    pixelAt start stop i = (start.1 + (course start stop).stepX *
        ((2 * i * extentX start stop + extentY start stop) / (2 * extentY start stop)),
      start.2 + (course start stop).stepY * i) := by
  have hsteps : steps start stop = extentY start stop := max_eq_right h.le
  simp only [pixelAt]
  rw [hsteps] at hi ⊢
  rw [share_self hi]
  rfl

theorem beside_of_le (h : extentY start stop ≤ extentX start stop) {p : Pixel}
    (hp : p ∈ line start stop) :
    |(p.2 : ℚ) - (start.2 + (p.1 - start.1) * (stop.2 - start.2) / (stop.1 - start.1))| ≤
      1 / 2 := by
  obtain ⟨i, hi, rfl⟩ := (mem_line start stop).mp hp
  have hsteps : steps start stop = extentX start stop := max_eq_left h
  have hrow := other_coordinate hi (abs_stepX start stop)
    (hsteps ▸ stepX_mul_extentX start stop) start.2 (stop.2 - start.2)
  have hnear := (pixelAt_near start stop hi).2
  simp only [pixelAt] at hnear ⊢
  rw [hsteps] at hrow hnear ⊢
  rwa [hrow]

theorem beside_of_lt (h : extentX start stop < extentY start stop) {p : Pixel}
    (hp : p ∈ line start stop) :
    |(p.1 : ℚ) - (start.1 + (p.2 - start.2) * (stop.1 - start.1) / (stop.2 - start.2))| ≤
      1 / 2 := by
  obtain ⟨i, hi, rfl⟩ := (mem_line start stop).mp hp
  have hsteps : steps start stop = extentY start stop := max_eq_right h.le
  have hcolumn := other_coordinate hi (abs_stepY start stop)
    (hsteps ▸ stepY_mul_extentY start stop) start.1 (stop.1 - start.1)
  have hnear := (pixelAt_near start stop hi).1
  simp only [pixelAt] at hnear ⊢
  rw [hsteps] at hcolumn hnear ⊢
  rwa [hcolumn]

end Axes

theorem nodup_line : (line start stop).Nodup := by
  rw [line_eq]
  refine List.Nodup.map_on ?_ List.nodup_range
  intro i hi j hj h
  rw [List.mem_range, Nat.lt_succ_iff] at hi hj
  exact pixelAt_inj start stop hi hj h

theorem head?_line : (line start stop).head? = some start := by
  rw [line_eq, List.range_succ_eq_map, List.map_cons, List.head?_cons]
  exact congrArg some (congrArg Stand.pixel (standAt_zero start stop))

theorem getLast?_line : (line start stop).getLast? = some stop := by
  rw [line_eq, List.range_succ, List.map_append, List.map_cons, List.map_nil,
    List.getLast?_append, pixelAt_steps]
  rfl

theorem isChain_line : (line start stop).IsChain AreNeighbors := by
  rw [line_eq, List.isChain_map, List.isChain_range]
  intro i hi
  exact areNeighbors_pixelAt start stop hi

/-- **What a walk between two pixels visits.**  Whatever the two pixels are, the walk ends, in one
way only.  It visits one pixel more than the longer extent has, goes one pixel of that extent in
each step, and stands on the shorter axis at the nearest pixel of the straight line, halves going
away from the start.  So it visits no pixel twice, starts and ends with the two pixels, goes from
neighbor to neighbor, and is nowhere more than half a pixel beside the straight line. -/
theorem line_exact :
    (∀ pixels, Walks (course start stop)
        ⟨start, (course start stop).across + (course start stop).down⟩ pixels ↔
          pixels = line start stop) ∧
      line start stop =
        (List.range (max (extentX start stop) (extentY start stop) + 1)).map (fun i : ℕ =>
          if extentY start stop ≤ extentX start stop then
            (start.1 + (course start stop).stepX * i,
              start.2 + (course start stop).stepY *
                ((2 * i * extentY start stop + extentX start stop) / (2 * extentX start stop)))
          else
            (start.1 + (course start stop).stepX *
                ((2 * i * extentX start stop + extentY start stop) / (2 * extentY start stop)),
              start.2 + (course start stop).stepY * i)) ∧
      (line start stop).Nodup ∧ (line start stop).head? = some start ∧
      (line start stop).getLast? = some stop ∧ (line start stop).IsChain AreNeighbors ∧
      ∀ p ∈ line start stop,
        if extentY start stop ≤ extentX start stop then
          |(p.2 : ℚ) -
            (start.2 + (p.1 - start.1) * (stop.2 - start.2) / (stop.1 - start.1))| ≤ 1 / 2
        else
          |(p.1 : ℚ) -
            (start.1 + (p.2 - start.2) * (stop.1 - start.1) / (stop.2 - start.2))| ≤ 1 / 2 := by
  have hwalks := walks_line start stop
  refine ⟨fun pixels => ⟨fun h => h.unique hwalks, fun h => h ▸ hwalks⟩, ?_, nodup_line start stop,
    head?_line start stop, getLast?_line start stop, isChain_line start stop, fun p hp => ?_⟩
  · refine (line_eq start stop).trans (List.map_congr_left fun i hi => ?_)
    rw [List.mem_range, Nat.lt_succ_iff] at hi
    split
    · rename_i hle
      exact pixelAt_of_le hle hi
    · rename_i hlt
      exact pixelAt_of_lt (not_le.mp hlt) hi
  · split
    · rename_i hle
      exact beside_of_le hle hp
    · rename_i hlt
      exact beside_of_lt (not_le.mp hlt) hp

/-- A steep line up to the left goes through eleven rows and through five columns meanwhile, and its
sixth pixel stands on the straight line. -/
theorem line_exact_steepLine :
    line (7, 8) (3, -2) =
        [(7, 8), (7, 7), (6, 6), (6, 5), (5, 4), (5, 3), (5, 2), (4, 1), (4, 0), (3, -1),
          (3, -2)] ∧
      (line (7, 8) (3, -2)).IsChain AreNeighbors ∧ (5, 3) ∈ line (7, 8) (3, -2) ∧
      |((5 : ℤ) : ℚ) - (7 + ((3 : ℤ) - 8) * ((3 : ℤ) - (7 : ℤ)) / ((-2 : ℤ) - (8 : ℤ)))| ≤ 1 / 2 := by
  obtain ⟨-, hline, -, -, -, hchain, hbeside⟩ := line_exact (7, 8) (3, -2)
  have hmember : (5, 3) ∈ line (7, 8) (3, -2) := by decide
  exact ⟨hline.trans (by decide), hchain, hmember, hbeside (5, 3) hmember⟩

end VectorPaint.Raster
