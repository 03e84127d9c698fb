/-
# Lines are always drawn

Drawing a line takes floats apart at many places: its ends become floats, its extents are
subtracted, the four edges of the canvas are divided by them, and the points where the line is cut
become whole numbers again.  None of this fails, however long the line is.

Two facts carry the argument.  Whatever the divisions answer, the part of a line that is left by an
edge lies between the parameters 0 and 1 (`Span.IsInside`).  And a line that does not miss the
canvas either starts near the canvas or runs toward it, so that no point of it is farther away than
its ends (`isFinite_along`).
-/
import VectorPaint.Canvas.Shape
import VectorPaint.Proofs.Coordinates

namespace VectorPaint.Raster

open Number

/-! ## 1. Parts of a line -/

/-- A part of a line between its ends. -/
structure Span.IsInside (s : Span) : Prop where
  finite_first : s.first.isFinite
  finite_last : s.last.isFinite
  first_nonneg : 0 ≤ value s.first
  first_le : value s.first ≤ 1
  last_nonneg : 0 ≤ value s.last
  last_le : value s.last ≤ 1

/-- The whole line. -/
theorem Span.isInside_whole : Span.IsInside ⟨0.0, 1.0⟩ where
  finite_first := isFinite_zero
  finite_last := isFinite_one
  first_nonneg := by rw [value_zero]
  first_le := by rw [value_zero]; norm_num
  last_nonneg := by rw [value_one]; norm_num
  last_le := by rw [value_one]

/-- **An edge leaves a part of a line inside of it,** whatever the speed and the room are.  A
parameter that narrows the part lies between two that are finite. -/
theorem Span.IsInside.within {s s' : Span} (h : s.IsInside) {speed room : Float}
    (hs : s.within? speed room = some s') : s'.IsInside := by
  unfold Span.within? at hs
  split at hs
  · split at hs
    · cases hs
    · cases hs
      exact h
  · dsimp only at hs
    generalize room / speed = t at hs
    split at hs
    · split at hs
      · cases hs
      · rename_i hlast
        cases hs
        split
        · rename_i hfirst
          obtain ⟨hfinite, hlow, hhigh⟩ :=
            isFinite_of_lt_of_not_lt h.finite_first h.finite_last hfirst hlast
          exact ⟨hfinite, h.finite_last, h.first_nonneg.trans hlow.le, hhigh.trans h.last_le,
            h.last_nonneg, h.last_le⟩
        · exact h
    · split at hs
      · cases hs
      · rename_i hfirst
        cases hs
        split
        · rename_i hlast
          obtain ⟨hfinite, hlow, hhigh⟩ :=
            isFinite_of_not_lt_of_lt h.finite_first h.finite_last hfirst hlast
          exact ⟨h.finite_first, hfinite, h.first_nonneg, h.first_le,
            h.first_nonneg.trans hlow, hhigh.le.trans h.last_le⟩
        · exact h

theorem isInside_visible? {width height x y dx dy : Float} {s : Span}
    (h : visible? width height x y dx dy = some s) : s.IsInside := by
  simp only [visible?] at h
  obtain ⟨s₁, h₁, h⟩ := Option.bind_eq_some_iff.mp h
  obtain ⟨s₂, h₂, h⟩ := Option.bind_eq_some_iff.mp h
  obtain ⟨s₃, h₃, h⟩ := Option.bind_eq_some_iff.mp h
  exact (((Span.isInside_whole.within h₁).within h₂).within h₃).within h

/-! ## 2. Points of a line -/

/-- No canvas has a side longer than this.  Its pixels are counted in machine words. -/
def greatestSide : ℤ := 2 ^ 63

/-- An end from which an extent leads to no place out of reach: it is near the canvas, or the
extent leads back over zero. -/
def Leads (x dx : ℚ) : Prop := |x| ≤ greatestSide ∨ x * dx ≤ 0

/-- The sides of a device are not that long. -/
theorem abs_le_greatestSide {side : ℤ} (hpos : 0 < side) (hle : side ≤ Viewport.longestSide) :
    |side| ≤ greatestSide := by
  rw [abs_of_pos hpos]
  exact hle.trans (by decide)

/-- A part of an extent, rounded, lies between zero and the extent. -/
theorem rounded_part {t dx : ℚ} (ht : 0 ≤ t) (ht' : t ≤ 1) (hdx : rounded dx = dx) :
    0 ≤ dx ∧ 0 ≤ rounded (t * dx) ∧ rounded (t * dx) ≤ dx ∨
      dx ≤ 0 ∧ dx ≤ rounded (t * dx) ∧ rounded (t * dx) ≤ 0 := by
  rcases le_total 0 dx with h | h
  · refine Or.inl ⟨h, rounded_nonneg (mul_nonneg ht h), ?_⟩
    calc
      rounded (t * dx) ≤ rounded dx := rounded_mono (mul_le_of_le_one_left h ht')
      _ = dx := hdx
  · refine Or.inr ⟨h, ?_, ?_⟩
    · calc
        dx = rounded dx := hdx.symm
        _ ≤ rounded (t * dx) := rounded_mono (by nlinarith)
    · have := rounded_mono (mul_nonpos_of_nonneg_of_nonpos ht h)
      rwa [rounded_zero] at this

/-- A number below the last digit of the greatest floats and one of a float's size do not leave the
range together. -/
theorem abs_add_lt_overflow_of_lt {x p : ℚ} (hx : |x| < 2 ^ (970 : ℤ)) (hp : |p| ≤ greatest) :
    |x + p| < overflow :=
  calc
    |x + p| ≤ |x| + |p| := abs_add_le x p
    _ < 2 ^ (970 : ℤ) + greatest := add_lt_add_of_lt_of_le hx hp
    _ = overflow := by rw [overflow_eq_greatest, add_comm]

theorem lt_of_le_greatestSide {q : ℚ} (h : |q| ≤ greatestSide) : |q| < 2 ^ (970 : ℤ) :=
  lt_of_le_of_lt h (lt_of_lt_of_le (by norm_num [greatestSide])
    (two_zpow_le (d := 64) (e := 970) (by norm_num)))

theorem lt_of_le_moderate {q : ℚ} (h : |q| ≤ 2 ^ 53) : |q| < 2 ^ (970 : ℤ) :=
  lt_of_le_greatestSide (h.trans (by norm_num [greatestSide]))

/-- Neither do a number of moderate size and one of a float's size. -/
theorem abs_add_lt_overflow {x p : ℚ} (hx : |x| ≤ 2 ^ 53) (hp : |p| ≤ greatest) :
    |x + p| < overflow :=
  abs_add_lt_overflow_of_lt (lt_of_le_moderate hx) hp

/-- **The points of a line are finite,** if its extent is and either its start is of moderate size
or the extent leads back over zero. -/
theorem isFinite_part {x dx t : Float} (hx : x.isFinite) (hdx : dx.isFinite) (ht : t.isFinite)
    (hlow : 0 ≤ value t) (hhigh : value t ≤ 1)
    (hreach : |value x| < 2 ^ (970 : ℤ) ∨ value x * value dx ≤ 0) : (x + t * dx).isFinite := by
  have hpart := rounded_part hlow hhigh (rounded_value dx)
  have hproduct : |value t * value dx| < overflow := by
    rw [abs_mul, abs_of_nonneg hlow]
    exact lt_of_le_of_lt (mul_le_of_le_one_left (abs_nonneg _) hhigh) (abs_value_lt dx)
  obtain ⟨hfinite, hvalue⟩ := (isNearest_mul ht hdx).within hproduct
  refine (isNearest_add hx hfinite).isFinite_iff.mpr ?_
  rw [hvalue]
  generalize rounded (value t * value dx) = p at hpart
  rcases hreach with hnear | hback
  · refine abs_add_lt_overflow_of_lt hnear (le_trans ?_ (abs_value_le dx))
    rcases hpart with ⟨h, h1, h2⟩ | ⟨h, h1, h2⟩
    · rwa [abs_of_nonneg h1, abs_of_nonneg h]
    · rw [abs_of_nonpos h2, abs_of_nonpos h]
      exact neg_le_neg h1
  · -- The two numbers do not have the same sign, so the sum is no farther out than one of them.
    have hxrange := abs_lt.mp (abs_value_lt x)
    have hdxrange := abs_lt.mp (abs_value_lt dx)
    rw [abs_lt]
    rcases hpart with ⟨h, h1, h2⟩ | ⟨h, h1, h2⟩
    · rcases eq_or_lt_of_le h with hzero | hpos
      · constructor <;> linarith
      · have hxneg : value x ≤ 0 := nonpos_of_mul_nonpos_left hback hpos
        constructor <;> linarith
    · rcases eq_or_lt_of_le h with hzero | hneg
      · constructor <;> linarith
      · have hxpos : 0 ≤ value x := nonneg_of_mul_nonpos_left hback hneg
        constructor <;> linarith

/-- The points of a line are finite, if its extent is and leads nowhere out of reach. -/
theorem isFinite_along {x dx t : Float} (hx : x.isFinite) (hdx : dx.isFinite) (ht : t.isFinite)
    (hlow : 0 ≤ value t) (hhigh : value t ≤ 1) (hleads : Leads (value x) (value dx)) :
    (x + t * dx).isFinite :=
  isFinite_part hx hdx ht hlow hhigh (hleads.imp_left lt_of_le_greatestSide)

/-! ## 3. Lines that do not miss the canvas -/

variable {a b : Coord} {side : ℤ}

/-- A side of a canvas is within the range of the floats. -/
theorem side_lt_overflow (hside : |side| ≤ greatestSide) : |(side : ℚ)| < overflow := by
  have hlast : (2 : ℚ) ^ (970 : ℤ) ≤ overflow := (two_zpow_lt_overflow (by norm_num)).le
  exact (lt_of_le_greatestSide (by exact_mod_cast hside)).trans_le hlast

theorem not_misses (ha : a.IsFinite) (hb : b.IsFinite) (hside : |side| ≤ greatestSide)
    (h : misses side a b = false) : 0 ≤ max a.value b.value ∧ min a.value b.value < side := by
  obtain ⟨hgreatest, hmax⟩ := Coord.greatest_of_isFinite ha hb
  obtain ⟨hleast, hmin⟩ := Coord.least_of_isFinite ha hb
  have hzero : (Coord.whole 0).IsFinite := Coord.isFinite_whole (by norm_num)
  obtain ⟨hlt, hle⟩ := Bool.or_eq_false_iff.mp h
  rw [← Bool.not_eq_true, Coord.lt_iff_of_isFinite hgreatest hzero, hmax, not_lt] at hlt
  have hfinite : (Coord.whole side).IsFinite := side_lt_overflow hside
  rw [← Bool.not_eq_true, Coord.le_iff_of_isFinite hfinite hleast, hmin, not_le] at hle
  refine ⟨le_trans ?_ hlt, hle⟩
  exact (Int.cast_zero (R := ℚ)).ge

/-- **A line that does not miss the canvas leads nowhere out of reach,** seen from its start. -/
theorem leads_of_not_misses (ha : a.IsFinite) (hb : b.IsFinite) (hside : |side| ≤ greatestSide)
    (h : misses side a b = false) :
    Leads (rounded a.value) (rounded (rounded b.value - rounded a.value)) := by
  have hbinary : IsBinary greatestSide := by
    have hpower : (greatestSide : ℚ) = 2 ^ (63 : ℤ) := by norm_num [greatestSide]
    exact hpower ▸ isBinary_zpow (by norm_num)
  have hside' : (side : ℚ) ≤ greatestSide := by exact_mod_cast (abs_le.mp hside).2
  obtain ⟨hlow, hhigh⟩ := not_misses ha hb hside h
  rcases le_total a.value b.value with hab | hba
  · -- The line runs forward, from below the canvas's last side.
    rw [max_eq_right hab] at hlow
    rw [min_eq_left hab] at hhigh
    have hforward := rounded_nonneg (sub_nonneg.mpr (rounded_mono hab))
    rcases le_total 0 (rounded a.value) with hpos | hneg
    · refine Or.inl ?_
      rw [abs_of_nonneg hpos]
      exact rounded_le hbinary (hhigh.le.trans hside')
    · exact Or.inr (mul_nonpos_of_nonpos_of_nonneg hneg hforward)
  · -- The line runs back, from behind the canvas's first side.
    rw [max_eq_left hba] at hlow
    have hback : rounded (rounded b.value - rounded a.value) ≤ 0 := by
      have := rounded_mono (sub_nonpos.mpr (rounded_mono hba))
      rwa [rounded_zero] at this
    exact Or.inr (mul_nonpos_of_nonneg_of_nonpos (rounded_nonneg hlow) hback)

/-! ## 4. Drawing -/

/-- A point that can become floats. -/
def Convertible (p : Point) : Prop := p.1.IsConvertible ∧ p.2.IsConvertible

/-- A line's way in one direction: a finite start and extent that lead nowhere out of reach. -/
structure IsWay (x dx : Float) : Prop where
  finite_start : x.isFinite
  finite_extent : dx.isFinite
  leads : Leads (value x) (value dx)

/-- The points of a way have whole coordinates. -/
theorem IsWay.truncate_ok {x dx t : Float} (h : IsWay x dx) (ht : t.isFinite) (hlow : 0 ≤ value t)
    (hhigh : value t ≤ 1) : ∃ n, (Coord.roundHalfUp (x + t * dx)).truncate = .ok n := by
  obtain ⟨n, hn⟩ := Coord.roundHalfUp_of_isFinite
    (isFinite_along h.finite_start h.finite_extent ht hlow hhigh h.leads)
  rw [hn]
  exact ⟨n, rfl⟩

/-- The ends of a line are whole pixels after cutting. -/
theorem ends_ok {s : Span} {start stop : Point} {x y dx dy : Float} (hs : s.IsInside)
    (hstart : start.1.IsFinite ∧ start.2.IsFinite) (hstop : stop.1.IsFinite ∧ stop.2.IsFinite)
    (hx : IsWay x dx) (hy : IsWay y dy) : ∃ r, ends s start stop x y dx dy = .ok r := by
  have hend : ∀ (p : Point) (t : Float) (cut : Prop) [Decidable cut],
      p.1.IsFinite ∧ p.2.IsFinite → t.isFinite → 0 ≤ value t → value t ≤ 1 →
      ∃ m n, (if cut then pointAt x y dx dy t else p).1.truncate = .ok m ∧
        (if cut then pointAt x y dx dy t else p).2.truncate = .ok n := by
    intro p t cut _ hp ht hlow hhigh
    split
    · obtain ⟨m, hm⟩ := hx.truncate_ok ht hlow hhigh
      obtain ⟨n, hn⟩ := hy.truncate_ok ht hlow hhigh
      exact ⟨m, n, hm, hn⟩
    · obtain ⟨m, hm⟩ := hp.1.truncate_ok
      obtain ⟨n, hn⟩ := hp.2.truncate_ok
      exact ⟨m, n, hm, hn⟩
  obtain ⟨x0, y0, hx0, hy0⟩ := hend start s.first (0.0 < s.first) hstart hs.finite_first
    hs.first_nonneg hs.first_le
  obtain ⟨x1, y1, hx1, hy1⟩ := hend stop s.last (s.last < 1.0) hstop hs.finite_last
    hs.last_nonneg hs.last_le
  exact ⟨((x0, y0), (x1, y1)), bind_ok hx0 (bind_ok hy0 (bind_ok hx1 (bind_ok hy1 rfl)))⟩

theorem isWay_of_not_misses (ha : a.IsFinite) (hb : b.IsFinite) (hside : |side| ≤ greatestSide)
    (h : misses side a b = false) {x x' : Float} (hx : a.toFloat = .ok x)
    (hx' : b.toFloat = .ok x') (hdx : (x' - x).isFinite) : IsWay x (x' - x) := by
  obtain ⟨_, hax, hxfinite, hxvalue⟩ := ha.toFloat_ok
  obtain ⟨_, hbx, hxfinite', hxvalue'⟩ := hb.toFloat_ok
  rw [hx] at hax
  rw [hx'] at hbx
  cases hax
  cases hbx
  have hleads := leads_of_not_misses ha hb hside h
  rw [← hxvalue, ← hxvalue'] at hleads
  refine ⟨hxfinite, hdx, ?_⟩
  have hnear := isNearest_sub hxfinite' hxfinite
  rwa [(hnear.within (hnear.isFinite_iff.mp hdx)).2]

/-- What the pixels of a line are, for any number of halvings at once. -/
theorem pixels_eq (halvings : Nat) (width height : Int) (start stop : Point) :
    pixels halvings width height start stop = (do
    if !(← Coord.allFinite [start.1, start.2, stop.1, stop.2]) then return []
    else if misses width start.1 stop.1 || misses height start.2 stop.2 then return []
    else
      let x ← start.1.toFloat
      let y ← start.2.toFloat
      let dx := (← stop.1.toFloat) - x
      let dy := (← stop.2.toFloat) - y
      if dx.isFinite && dy.isFinite then
        match visible? (← Number.ofWhole width) (← Number.ofWhole height) x y dx dy with
        | none => return []
        | some s =>
          let (a, b) ← ends s start stop x y dx dy
          return line a b
      else
        match halvings with
        | 0 => return []
        | halvings + 1 =>
          let middle : Point :=
            (.real ((← start.1.half) + (← stop.1.half)), .real ((← start.2.half) + (← stop.2.half)))
          return (← pixels halvings width height start middle) ++
            (← pixels halvings width height middle stop)) := by
  cases halvings
  · rfl
  · rfl

/-- A line is walked over some pixels if its halves are. -/
theorem pixels_ok_of_halves (halvings : Nat) {width height : ℤ} (hw : |width| ≤ greatestSide)
    (hh : |height| ≤ greatestSide) {start stop : Point} (hstart : Convertible start)
    (hstop : Convertible stop)
    (hhalf : ∀ m, halvings = m + 1 → ∀ p q : Point, Convertible p → Convertible q →
      ∃ l, pixels m width height p q = .ok l) :
    ∃ l, pixels halvings width height start stop = .ok l := by
  have hconvertible : ∀ a ∈ [start.1, start.2, stop.1, stop.2], a.IsConvertible := by
    simp only [List.mem_cons, List.not_mem_nil, or_false]
    rintro a (rfl | rfl | rfl | rfl)
    exacts [hstart.1, hstart.2, hstop.1, hstop.2]
  rw [pixels_eq]
  rcases Coord.allFinite_ok hconvertible with ⟨hfinite, -⟩ | ⟨hfinite, hall⟩
  · exact exists_bind_ok hfinite ⟨[], rfl⟩
  refine exists_bind_ok hfinite ?_
  have hx0 := hall start.1 (by simp)
  have hy0 := hall start.2 (by simp)
  have hx1 := hall stop.1 (by simp)
  have hy1 := hall stop.2 (by simp)
  rw [if_neg (by decide)]
  split
  · exact ⟨[], rfl⟩
  rename_i hmiss
  obtain ⟨hmissX, hmissY⟩ := Bool.or_eq_false_iff.mp (Bool.not_eq_true _ ▸ hmiss)
  obtain ⟨x, hx, -⟩ := hx0.toFloat_ok
  obtain ⟨y, hy, -⟩ := hy0.toFloat_ok
  obtain ⟨x', hx', -⟩ := hx1.toFloat_ok
  obtain ⟨y', hy', -⟩ := hy1.toFloat_ok
  refine exists_bind_ok hx (exists_bind_ok hy (exists_bind_ok hx' (exists_bind_ok hy' ?_)))
  dsimp only
  split
  · rename_i hextents
    obtain ⟨hdx, hdy⟩ := Bool.and_eq_true_iff.mp hextents
    have hwayX := isWay_of_not_misses hx0 hx1 hw hmissX hx hx' hdx
    have hwayY := isWay_of_not_misses hy0 hy1 hh hmissY hy hy' hdy
    obtain ⟨w, hwf, -⟩ := ofWhole_of_lt (side_lt_overflow hw)
    obtain ⟨h, hhf, -⟩ := ofWhole_of_lt (side_lt_overflow hh)
    refine exists_bind_ok hwf (exists_bind_ok hhf ?_)
    split
    · exact ⟨[], rfl⟩
    · rename_i s hs
      obtain ⟨r, hr⟩ := ends_ok (isInside_visible? hs) ⟨hx0, hy0⟩ ⟨hx1, hy1⟩ hwayX hwayY
      exact exists_bind_ok hr ⟨_, rfl⟩
  · split
    · exact ⟨[], rfl⟩
    · rename_i m
      obtain ⟨a, ha⟩ := hstart.1.half_ok
      obtain ⟨b, hb⟩ := hstop.1.half_ok
      obtain ⟨c, hc⟩ := hstart.2.half_ok
      obtain ⟨d, hd⟩ := hstop.2.half_ok
      refine exists_bind_ok ha (exists_bind_ok hb (exists_bind_ok hc (exists_bind_ok hd ?_)))
      have hmiddle : Convertible (.real (a + b), .real (c + d)) := ⟨trivial, trivial⟩
      obtain ⟨l, hl⟩ := hhalf m rfl start _ hstart hmiddle
      obtain ⟨l', hl'⟩ := hhalf m rfl _ stop hmiddle hstop
      exact exists_bind_ok hl (exists_bind_ok hl' ⟨_, rfl⟩)

/-- **Every line is walked over some pixels,** if its ends can become floats.  The induction is
on the halvings: the middle of a line is a point of floats. -/
theorem pixels_ok (halvings : Nat) {width height : ℤ} (hw : |width| ≤ greatestSide)
    (hh : |height| ≤ greatestSide) {start stop : Point} (hstart : Convertible start)
    (hstop : Convertible stop) : ∃ l, pixels halvings width height start stop = .ok l := by
  induction halvings generalizing start stop with
  | zero =>
    refine pixels_ok_of_halves 0 hw hh hstart hstop ?_
    intro m hm
    cases hm
  | succ n ih =>
    refine pixels_ok_of_halves (n + 1) hw hh hstart hstop ?_
    intro m hm p q hp hq
    cases hm
    exact ih hp hq

end VectorPaint.Raster
