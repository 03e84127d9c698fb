/-
# Walks beside walks

Two lines are compared here.  A line between two pixels that another line goes through exactly is
walked over the same pixels as the other one on its way between them (`StandsAt.mem_line`): the
shares of the extents start over there.  A line between two pixels that are only near another line
stays as near to it as they are, and so does its walk, up to half a pixel (`near_of_mem_line`).
-/
import VectorPaint.Proofs.Walks
import Mathlib.Tactic.LinearCombination

namespace VectorPaint.Raster

/-! ## 1. Parts of walks -/

/-- Where a whole part of an extent is gone exactly, the shares start over. -/
theorem share_add {steps extent taken gone : ℕ} (hsteps : 0 < steps)
    (h : taken * extent = steps * gone) (more : ℕ) :
    share steps extent (taken + more) = gone + share steps extent more := by
  unfold share
  have hsplit : 2 * (taken + more) * extent + steps =
      2 * more * extent + steps + 2 * steps * gone := by
    linear_combination 2 * h
  rw [hsplit, Nat.add_mul_div_left _ _ (by omega), Nat.add_comm]

/-- Shares depend on the ratio of extent and steps only. -/
theorem share_congr {steps extent steps' extent' : ℕ} (h : 0 < steps) (h' : 0 < steps')
    (hratio : extent' * steps = extent * steps') (taken : ℕ) :
    share steps' extent' taken = share steps extent taken := by
  have hpos : (0 : ℚ) < steps := by exact_mod_cast h
  have hpos' : (0 : ℚ) < steps' := by exact_mod_cast h'
  have hratio' : (extent' : ℚ) * steps = extent * steps' := by exact_mod_cast hratio
  have hequal : (taken : ℚ) * extent' / steps' = taken * extent / steps := by
    rw [div_eq_div_iff hpos'.ne' hpos.ne', mul_assoc, hratio', mul_assoc]
  have := share_eq_floor h' extent' taken
  rw [hequal, ← share_eq_floor h] at this
  exact_mod_cast this

@[simp] theorem share_nothing (steps taken : ℕ) : share steps 0 taken = 0 := by
  unfold share
  rcases Nat.eq_zero_or_pos steps with rfl | h
  · exact Nat.div_zero _
  · exact Nat.div_eq_of_lt (by omega)

variable {first last a b : ℤ} {n k l : ℕ}

/-- A whole coordinate on the straight line is the one that the walk comes to, and a whole part of
the extent is gone there. -/
theorem coordinate_exact (hextent : (last - first).natAbs ≤ n)
    (h : (a : ℚ) = first + (k : ℚ) / n * (last - first)) :
    a = first + (if first < last then 1 else -1) * (share n (last - first).natAbs k : ℤ) ∧
      k * (last - first).natAbs = n * share n (last - first).natAbs k := by
  rcases Nat.eq_zero_or_pos n with rfl | hn
  · rw [Nat.cast_zero, div_zero, zero_mul, add_zero] at h
    have hsame : a = first := by exact_mod_cast h
    rw [Nat.le_zero.mp hextent, share_nothing, hsame]
    simp
  have hn' : (n : ℚ) ≠ 0 := by exact_mod_cast hn.ne'
  have hpos : (0 : ℤ) < n := by exact_mod_cast hn
  have hwhole : (n : ℤ) * (a - first) = k * (last - first) := by
    have hrational : (n : ℚ) * (a - first) = k * (last - first) := by
      rw [h]
      field_simp
      ring
    exact_mod_cast hrational
  have hgone : k * (last - first).natAbs = n * (a - first).natAbs := by
    have := congrArg Int.natAbs hwhole
    rw [Int.natAbs_mul, Int.natAbs_mul, Int.natAbs_natCast, Int.natAbs_natCast] at this
    exact this.symm
  have hshare := share_add hn hgone 0
  rw [share_zero, Nat.add_zero, Nat.add_zero] at hshare
  rw [hshare]
  refine ⟨?_, hgone⟩
  split
  · rename_i hlt
    have hnonneg : 0 ≤ (n : ℤ) * (a - first) := by
      rw [hwhole]
      exact mul_nonneg (Int.natCast_nonneg k) (by omega)
    have := nonneg_of_mul_nonneg_right hnonneg hpos
    omega
  · rename_i hle
    have hnonpos : (n : ℤ) * (a - first) ≤ 0 := by
      rw [hwhole]
      exact mul_nonpos_of_nonneg_of_nonpos (Int.natCast_nonneg k) (by omega)
    have := nonpos_of_mul_nonpos_right hnonpos hpos
    omega

section Part

variable (hextent : (last - first).natAbs ≤ n) (hkl : k ≤ l) (hl : l ≤ n)
  (ha : (a : ℚ) = first + (k : ℚ) / n * (last - first))
  (hb : (b : ℚ) = first + (l : ℚ) / n * (last - first))

include hextent hkl ha hb

/-- What lies between two whole coordinates of the straight line is gone between them. -/
theorem distance_exact :
    (b - a).natAbs + share n (last - first).natAbs k = share n (last - first).natAbs l := by
  obtain ⟨hgoneA, hpartA⟩ := coordinate_exact hextent ha
  obtain ⟨hgoneB, hpartB⟩ := coordinate_exact hextent hb
  have hle : share n (last - first).natAbs k ≤ share n (last - first).natAbs l := by
    rcases Nat.eq_zero_or_pos n with rfl | hn
    · rw [Nat.le_zero.mp hextent, share_nothing, share_nothing]
    · refine Nat.le_of_mul_le_mul_left ?_ hn
      rw [← hpartA, ← hpartB]
      exact Nat.mul_le_mul_right _ hkl
  split at hgoneA <;> split at hgoneB <;> omega

theorem distance_ratio :
    (b - a).natAbs * n = (last - first).natAbs * (l - k) := by
  obtain ⟨-, hpartA⟩ := coordinate_exact hextent ha
  obtain ⟨-, hpartB⟩ := coordinate_exact hextent hb
  have hdistance := distance_exact hextent hkl ha hb
  rw [← hdistance, Nat.mul_add, ← hpartA] at hpartB
  rw [Nat.mul_sub, mul_comm _ l, mul_comm _ k, hpartB, mul_comm]
  omega

include hl

/-- **A walk between two whole points of the straight line goes the same way,** seen on one axis. -/
theorem coordinate_add {more : ℕ} (hmore : more ≤ l - k) :
    a + (if a < b then 1 else -1) * (share (l - k) (b - a).natAbs more : ℤ) =
      first + (if first < last then 1 else -1) *
        (share n (last - first).natAbs (k + more) : ℤ) := by
  obtain ⟨hgoneA, hpartA⟩ := coordinate_exact hextent ha
  obtain ⟨hgoneB, -⟩ := coordinate_exact hextent hb
  rcases Nat.eq_or_lt_of_le hkl with rfl | hlt
  · obtain rfl : more = 0 := by omega
    rw [share_zero, add_zero, ← hgoneA]
    simp
  have hn : 0 < n := by omega
  have hratio := distance_ratio hextent hkl ha hb
  rw [share_congr hn (by omega) hratio, share_add hn hpartA]
  -- The two directions are the same, unless there is no way to go.
  have hsign : (if a < b then (1 : ℤ) else -1) * share n (last - first).natAbs more =
      (if first < last then 1 else -1) * share n (last - first).natAbs more := by
    rcases Nat.eq_zero_or_pos (last - first).natAbs with hzero | hpos
    · simp [hzero]
    · have hway : 0 < (b - a).natAbs * n := by
        rw [hratio]
        exact Nat.mul_pos hpos (by omega)
      have hdirection : a < b ↔ first < last := by
        have hdistance := distance_exact hextent hkl ha hb
        have := Nat.pos_of_mul_pos_right hway
        split at hgoneA <;> split at hgoneB <;> omega
      simp only [hdirection]
  rw [hsign]
  push_cast
  linear_combination hgoneA

end Part

variable {start stop p q : Pixel}

/-- A pixel that a line goes through exactly, after some of its steps. -/
structure StandsAt (start stop : Pixel) (taken : ℕ) (p : Pixel) : Prop where
  le : taken ≤ steps start stop
  column : (p.1 : ℚ) = (straight start stop (taken / steps start stop)).1
  row : (p.2 : ℚ) = (straight start stop (taken / steps start stop)).2

theorem StandsAt.steps_eq (hp : StandsAt start stop k p) (hq : StandsAt start stop l q)
    (hkl : k ≤ l) : steps p q = l - k := by
  rcases Nat.eq_zero_or_pos (steps start stop) with hzero | hpos
  · have hx := distance_exact (extentX_le start stop) hkl hp.column hq.column
    have hy := distance_exact (extentY_le start stop) hkl hp.row hq.row
    have hl := hq.le
    rw [hzero] at hx hy hl
    simp only [share, Nat.mul_zero, Nat.div_zero, Nat.add_zero] at hx hy
    simp only [steps, extentX, extentY]
    omega
  · have hx := distance_ratio (extentX_le start stop) hkl hp.column hq.column
    have hy := distance_ratio (extentY_le start stop) hkl hp.row hq.row
    refine Nat.eq_of_mul_eq_mul_right hpos ?_
    calc steps p q * steps start stop
        = max (extentX start stop * (l - k)) (extentY start stop * (l - k)) := by
          rw [steps, ← Nat.mul_max_mul_right]
          exact congrArg₂ max hx hy
      _ = steps start stop * (l - k) := Nat.mul_max_mul_right _ _ _
      _ = (l - k) * steps start stop := mul_comm _ _

/-- **A walk between two pixels that a line goes through is a part of the line's walk.** -/
theorem StandsAt.pixelAt_add (hp : StandsAt start stop k p) (hq : StandsAt start stop l q)
    (hkl : k ≤ l) {more : ℕ} (hmore : more ≤ l - k) :
    pixelAt p q more = pixelAt start stop (k + more) := by
  simp only [pixelAt]
  rw [hp.steps_eq hq hkl]
  exact Prod.ext
    (coordinate_add (extentX_le start stop) hkl hq.le hp.column hq.column hmore)
    (coordinate_add (extentY_le start stop) hkl hq.le hp.row hq.row hmore)

theorem StandsAt.mem_line (hp : StandsAt start stop k p) (hq : StandsAt start stop l q)
    (hkl : k ≤ l) {r : Pixel} :
    r ∈ line p q ↔ ∃ taken, k ≤ taken ∧ taken ≤ l ∧ pixelAt start stop taken = r := by
  rw [Raster.mem_line, hp.steps_eq hq hkl]
  constructor
  · rintro ⟨more, hmore, rfl⟩
    exact ⟨k + more, by omega, by omega, (hp.pixelAt_add hq hkl hmore).symm⟩
  · rintro ⟨taken, hlow, hhigh, rfl⟩
    refine ⟨taken - k, by omega, ?_⟩
    rw [hp.pixelAt_add hq hkl (by omega), Nat.add_sub_cancel' hlow]

/-- A whole point of the straight line is one that the walk goes through, and its parameter is the
part of the steps that are taken there. -/
theorem exists_standsAt {t : ℚ} (hlow : 0 ≤ t) (hhigh : t ≤ 1)
    (hcolumn : (p.1 : ℚ) = (straight start stop t).1)
    (hrow : (p.2 : ℚ) = (straight start stop t).2) :
    ∃ taken, StandsAt start stop taken p ∧ (taken : ℚ) = t * steps start stop := by
  have haxis : ∀ {first last a : ℤ}, (a : ℚ) = first + t * (last - first) →
      (((a - first).natAbs : ℕ) : ℚ) = t * ((last - first).natAbs : ℕ) := by
    intro first last a ha
    have hdistance : ((a - first : ℤ) : ℚ) = t * ((last - first : ℤ) : ℚ) := by
      push_cast
      linarith
    rw [Nat.cast_natAbs, Nat.cast_natAbs, Int.cast_abs, Int.cast_abs, hdistance, abs_mul,
      abs_of_nonneg hlow]
  obtain ⟨taken, htaken⟩ : ∃ taken : ℕ, (taken : ℚ) = t * steps start stop := by
    rcases max_choice (extentX start stop) (extentY start stop) with hmax | hmax
    · exact ⟨_, (haxis hcolumn).trans (by rw [steps, hmax]; rfl)⟩
    · exact ⟨_, (haxis hrow).trans (by rw [steps, hmax]; rfl)⟩
  have hle : taken ≤ steps start stop := by
    have : (taken : ℚ) ≤ steps start stop := by
      rw [htaken]
      exact mul_le_of_le_one_left (Nat.cast_nonneg _) hhigh
    exact_mod_cast this
  have hsame : straight start stop (taken / steps start stop) = straight start stop t := by
    rcases Nat.eq_zero_or_pos (steps start stop) with hzero | hpos
    · have hx : (stop.1 : ℚ) = start.1 := by
        have := hzero ▸ extentX_le start stop
        simp only [extentX] at this
        exact_mod_cast (by omega : stop.1 = start.1)
      have hy : (stop.2 : ℚ) = start.2 := by
        have := hzero ▸ extentY_le start stop
        simp only [extentY] at this
        exact_mod_cast (by omega : stop.2 = start.2)
      simp [straight, hx, hy]
    · have hne : (steps start stop : ℚ) ≠ 0 := by exact_mod_cast hpos.ne'
      rw [htaken, mul_div_cancel_right₀ _ hne]
  exact ⟨taken, ⟨hle, by rw [hsame, hcolumn], by rw [hsame, hrow]⟩, htaken⟩

/-! ## 2. Lines near lines -/

/-- The point of a pixel. -/
def center (p : Pixel) : ℚ × ℚ := (p.1, p.2)

/-- A pixel at most so far away from a point on either axis. -/
def IsNear (d : ℚ) (p : Pixel) (v : ℚ × ℚ) : Prop := |(p.1 : ℚ) - v.1| ≤ d ∧ |(p.2 : ℚ) - v.2| ≤ d

/-- Between two numbers that are near two others there are numbers near what is between these. -/
theorem abs_mix_sub_le {d u v w v' w' : ℚ} (hlow : 0 ≤ u) (hhigh : u ≤ 1) (hv : |v - v'| ≤ d)
    (hw : |w - w'| ≤ d) : |v + u * (w - v) - (v' + u * (w' - v'))| ≤ d := by
  have hsplit : v + u * (w - v) - (v' + u * (w' - v')) = (1 - u) * (v - v') + u * (w - w') := by
    ring
  rw [hsplit]
  calc |(1 - u) * (v - v') + u * (w - w')|
      ≤ |(1 - u) * (v - v')| + |u * (w - w')| := abs_add_le _ _
    _ = (1 - u) * |v - v'| + u * |w - w'| := by
      rw [abs_mul, abs_mul, abs_of_nonneg hlow, abs_of_nonneg (by linarith : 0 ≤ 1 - u)]
    _ ≤ (1 - u) * d + u * d :=
      add_le_add (mul_le_mul_of_nonneg_left hv (by linarith)) (mul_le_mul_of_nonneg_left hw hlow)
    _ = d := by ring

section Moved

variable {s t d u : ℚ} {a b : Pixel} (ha : IsNear d a (straight start stop s))
  (hb : IsNear d b (straight start stop t))

include ha hb

/-- **A line between two pixels near another line stays near it.** -/
theorem straight_near (hlow : 0 ≤ u) (hhigh : u ≤ 1) :
    |(straight a b u).1 - (straight start stop (s + u * (t - s))).1| ≤ d ∧
      |(straight a b u).2 - (straight start stop (s + u * (t - s))).2| ≤ d := by
  have hmix : ∀ first last : ℚ, first + (s + u * (t - s)) * (last - first) =
      (first + s * (last - first)) +
        u * ((first + t * (last - first)) - (first + s * (last - first))) := by
    intro first last
    ring
  simp only [straight]
  rw [hmix, hmix]
  exact ⟨abs_mix_sub_le hlow hhigh ha.1 hb.1, abs_mix_sub_le hlow hhigh ha.2 hb.2⟩

/-- So does its walk. -/
theorem near_of_mem_line (hp : p ∈ line a b) : ∃ u, 0 ≤ u ∧ u ≤ 1 ∧
    IsNear (1 / 2 + d) p (straight start stop (s + u * (t - s))) := by
  obtain ⟨i, hi, rfl⟩ := (mem_line a b).mp hp
  have hi' : (i : ℚ) ≤ steps a b := by exact_mod_cast hi
  have hlow : (0 : ℚ) ≤ i / steps a b := div_nonneg (Nat.cast_nonneg _) (Nat.cast_nonneg _)
  have hhigh : (i : ℚ) / steps a b ≤ 1 := div_le_one_of_le₀ hi' (Nat.cast_nonneg _)
  obtain ⟨hx, hy⟩ := pixelAt_near a b hi
  obtain ⟨hx', hy'⟩ := straight_near ha hb hlow hhigh
  exact ⟨_, hlow, hhigh, (abs_sub_le _ _ _).trans (add_le_add hx hx'),
    (abs_sub_le _ _ _).trans (add_le_add hy hy')⟩

/-- And what is near the part of the other line that lies between is near this one. -/
theorem near_of_between {r e : ℚ} (hs : s ≤ r) (ht : r ≤ t)
    (hp : IsNear e p (straight start stop r)) : ∃ u, 0 ≤ u ∧ u ≤ 1 ∧
      IsNear (e + d) p (straight a b u) := by
  obtain ⟨u, hlow, hhigh, hu⟩ : ∃ u : ℚ, 0 ≤ u ∧ u ≤ 1 ∧ s + u * (t - s) = r := by
    rcases eq_or_lt_of_le (hs.trans ht) with rfl | hlt
    · exact ⟨0, le_rfl, zero_le_one, by linarith⟩
    · have hpos : 0 < t - s := by linarith
      refine ⟨(r - s) / (t - s), div_nonneg (by linarith) hpos.le, ?_, ?_⟩
      · rw [div_le_one hpos]
        linarith
      · rw [div_mul_cancel₀ _ hpos.ne']
        ring
  obtain ⟨hx, hy⟩ := straight_near ha hb hlow hhigh
  rw [hu, abs_sub_comm] at hx hy
  exact ⟨u, hlow, hhigh, (abs_sub_le _ _ _).trans (add_le_add hp.1 hx),
    (abs_sub_le _ _ _).trans (add_le_add hp.2 hy)⟩

end Moved

end VectorPaint.Raster
