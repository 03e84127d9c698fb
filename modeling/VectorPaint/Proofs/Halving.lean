/-
# Lines are halved once

A line with an extent beyond the range of the floats is drawn as its two halves, each of them in
the same way.  Nothing in the halves says that they are any shorter by computation: their common
end is a sum of two floats that were halved, near the ends of the range all of this is rounded, and
both extents of a half are tested again, also the one that was finite before.  The drawing that is
run halves once and leaves out what would need more (`pixels`).

Nothing needs more.  Here the drawing is first written down without any limit: one call of it as a
plan (`plan`), and the calls inside of it as a relation that counts the levels of halving
(`Draws`).  Rounding moves the middle of two floats by one last digit of the greatest floats at the
most, and by more than half of one only where both of them are on its side of zero
(`abs_rounded_middle_sub_lt`).  So both extents of both halves are finite, a half is never halved,
and the limited drawing is the unlimited one (`halved_once`).
-/
import VectorPaint.Proofs.Lines
import VectorPaint.Proofs.Walks
import VectorPaint.Proofs.Float.Nearness

namespace VectorPaint

open Number

/-! ## 1. Finite coordinates -/

/-- A finite coordinate can become a float. -/
theorem Coord.IsFinite.isConvertible {a : Coord} (h : a.IsFinite) : a.IsConvertible := by
  cases a with
  | whole n => exact h
  | real x => trivial

/-- A coordinate that is found to be finite is. -/
theorem Coord.isFinite_of_ok {a : Coord} (h : a.isFinite = .ok true) : a.IsFinite := by
  cases a with
  | whole n =>
    refine not_le.mp ?_
    intro hlarge
    cases (isFinite_of_le hlarge).symm.trans h
  | real x => exact Except.ok.inj h

theorem Coord.isFinite_of_allFinite {l : List Coord} (h : allFinite l = .ok true) :
    ∀ a ∈ l, a.IsFinite := by
  induction l with
  | nil => exact fun a ha => absurd ha List.not_mem_nil
  | cons a l ih =>
    rw [allFinite_cons] at h
    obtain ⟨finite, hfinite, h⟩ := of_bind_ok h
    cases finite with
    | false => cases h
    | true =>
      intro b hb
      rcases List.mem_cons.mp hb with rfl | hb
      · exact isFinite_of_ok hfinite
      · exact ih h b hb

end VectorPaint

namespace VectorPaint.Raster

open Number

/-! ## 2. One call -/

/-- What a line is drawn by: nothing at all, a walk from one pixel to another, or its two halves. -/
inductive Plan where
  | nothing
  | walk (start stop : Pixel)
  | halve (middle : Point)
  deriving DecidableEq

/-- What is done for a line before anything is done for its halves. -/
def plan (width height : Int) (start stop : Point) : Except Fault Plan := do
  if !(← Coord.allFinite [start.1, start.2, stop.1, stop.2]) then return .nothing
  else if misses width start.1 stop.1 || misses height start.2 stop.2 then return .nothing
  else
    let x ← start.1.toFloat
    let y ← start.2.toFloat
    let dx := (← stop.1.toFloat) - x
    let dy := (← stop.2.toFloat) - y
    if dx.isFinite && dy.isFinite then
      match visible? (← Number.ofWhole width) (← Number.ofWhole height) x y dx dy with
      | none => return .nothing
      | some s =>
        let (a, b) ← ends s start stop x y dx dy
        return .walk a b
    else
      return .halve
        (.real ((← start.1.half) + (← stop.1.half)), .real ((← start.2.half) + (← stop.2.half)))

/-- The pixels of a plan, with those of a half as they are given. -/
def Plan.pixels (half : Point → Except Fault (List Pixel)) : Plan → Except Fault (List Pixel)
  | .nothing => .ok []
  | .walk a b => .ok (line a b)
  | .halve middle => half middle

variable {width height : ℤ} {start stop middle : Point}

/-- **A line is drawn by its plan,** and its halves with one halving less. -/
theorem pixels_eq_plan (halvings : ℕ) (width height : ℤ) (start stop : Point) :
    pixels (halvings + 1) width height start stop =
      plan width height start stop >>= Plan.pixels fun middle => do
        return (← pixels halvings width height start middle) ++
          (← pixels halvings width height middle stop) := by
  rw [pixels_eq]
  unfold plan
  cases Coord.allFinite [start.1, start.2, stop.1, stop.2] with
  | error fault => rfl
  | ok finite =>
  cases finite with
  | false => rfl
  | true =>
  simp only [bind, Except.bind, Bool.not_true, Bool.false_eq_true, if_false]
  split
  · rfl
  cases start.1.toFloat with
  | error fault => rfl
  | ok x =>
  cases start.2.toFloat with
  | error fault => rfl
  | ok y =>
  cases stop.1.toFloat with
  | error fault => rfl
  | ok x' =>
  cases stop.2.toFloat with
  | error fault => rfl
  | ok y' =>
  dsimp only
  split
  · cases Number.ofWhole width with
    | error fault => rfl
    | ok w =>
    cases Number.ofWhole height with
    | error fault => rfl
    | ok h =>
    dsimp only
    cases visible? w h x y (x' - x) (y' - y) with
    | none => rfl
    | some s =>
      dsimp only
      cases ends s start stop x y (x' - x) (y' - y) <;> rfl
  · cases start.1.half with
    | error fault => rfl
    | ok a =>
    cases stop.1.half with
    | error fault => rfl
    | ok b =>
    cases start.2.half with
    | error fault => rfl
    | ok c => cases stop.2.half <;> rfl

/-! ## 3. All calls -/

/-- The drawing of a line, with what comes of it, in so many levels of halving one inside the other.
Nothing limits how many there are.  The second half is followed also where the first one meets a
fault, which can only add to the levels. -/
inductive Draws (width height : ℤ) :
    ℕ → Point → Point → Except Fault (List Pixel) → Prop where
  | fault {start stop : Point} {fault : Fault} (h : plan width height start stop = .error fault) :
    Draws width height 0 start stop (.error fault)
  | nothing {start stop : Point} (h : plan width height start stop = .ok .nothing) :
    Draws width height 0 start stop (.ok [])
  | walk {start stop : Point} {a b : Pixel} {pixels : List Pixel}
    (h : plan width height start stop = .ok (.walk a b))
    (hwalk : Walks (course a b) ⟨a, (course a b).across + (course a b).down⟩ pixels) :
    Draws width height 0 start stop (.ok pixels)
  | halve {start stop middle : Point} {m n : ℕ} {first second : Except Fault (List Pixel)}
    (h : plan width height start stop = .ok (.halve middle))
    (hfirst : Draws width height m start middle first)
    (hsecond : Draws width height n middle stop second) :
    Draws width height (max m n + 1) start stop (do return (← first) ++ (← second))

/-- **A line is drawn in one way only.** -/
theorem Draws.unique {m n : ℕ} {r r' : Except Fault (List Pixel)}
    (h : Draws width height m start stop r) (h' : Draws width height n start stop r') :
    m = n ∧ r = r' := by
  induction h generalizing n r' with
  | fault h =>
    cases h' with
    | fault h' =>
      cases h.symm.trans h'
      exact ⟨rfl, rfl⟩
    | nothing h' | walk h' | halve h' => cases h.symm.trans h'
  | nothing h =>
    cases h' with
    | nothing => exact ⟨rfl, rfl⟩
    | fault h' | walk h' | halve h' => cases h.symm.trans h'
  | walk h hwalk =>
    cases h' with
    | walk h' hwalk' =>
      cases h.symm.trans h'
      exact ⟨rfl, by rw [hwalk.unique hwalk']⟩
    | fault h' | nothing h' | halve h' => cases h.symm.trans h'
  | halve h _ _ ihfirst ihsecond =>
    cases h' with
    | halve h' hfirst' hsecond' =>
      cases h.symm.trans h'
      obtain ⟨rfl, rfl⟩ := ihfirst hfirst'
      obtain ⟨rfl, rfl⟩ := ihsecond hsecond'
      exact ⟨rfl, rfl⟩
    | fault h' | nothing h' | walk h' => cases h.symm.trans h'

/-! ## 4. Extents -/

/-- Two coordinates whose distance from one to the other is a finite float. -/
def HasExtent (a b : Coord) : Prop :=
  ∃ x y : Float, a.toFloat = .ok x ∧ b.toFloat = .ok y ∧ (y - x).isFinite

/-- A line with finite extents. -/
def HasExtents (start stop : Point) : Prop :=
  HasExtent start.1 stop.1 ∧ HasExtent start.2 stop.2

/-- **A line that is halved** has finite ends and an extent that is not, and its middle is a sum of
the halves of the ends. -/
theorem of_plan_halve (h : plan width height start stop = .ok (.halve middle)) :
    (∀ a ∈ [start.1, start.2, stop.1, stop.2], a.IsFinite) ∧ ¬ HasExtents start stop ∧
      ∃ a b c d : Float, (start.1.half = .ok a ∧ stop.1.half = .ok b) ∧
        (start.2.half = .ok c ∧ stop.2.half = .ok d) ∧
        middle = (.real (a + b), .real (c + d)) := by
  unfold plan at h
  obtain ⟨finite, hfinite, h⟩ := of_bind_ok h
  cases finite with
  | false => cases h
  | true =>
    refine ⟨Coord.isFinite_of_allFinite hfinite, ?_⟩
    rw [if_neg (by decide)] at h
    split at h
    · cases h
    obtain ⟨x, hx, h⟩ := of_bind_ok h
    obtain ⟨y, hy, h⟩ := of_bind_ok h
    obtain ⟨x', hx', h⟩ := of_bind_ok h
    obtain ⟨y', hy', h⟩ := of_bind_ok h
    dsimp only at h
    split at h
    case isTrue =>
      obtain ⟨w, -, h⟩ := of_bind_ok h
      obtain ⟨z, -, h⟩ := of_bind_ok h
      split at h
      · cases h
      · obtain ⟨r, -, h⟩ := of_bind_ok h
        cases h
    case isFalse hinfinite =>
      constructor
      · rintro ⟨⟨u, u', hu, hu', hdx⟩, ⟨v, v', hv, hv', hdy⟩⟩
        cases hx.symm.trans hu
        cases hx'.symm.trans hu'
        cases hy.symm.trans hv
        cases hy'.symm.trans hv'
        exact hinfinite (Bool.and_eq_true_iff.mpr ⟨hdx, hdy⟩)
      · obtain ⟨a, ha, h⟩ := of_bind_ok h
        obtain ⟨b, hb, h⟩ := of_bind_ok h
        obtain ⟨c, hc, h⟩ := of_bind_ok h
        obtain ⟨d, hd, h⟩ := of_bind_ok h
        cases h
        exact ⟨a, b, c, d, ⟨ha, hb⟩, ⟨hc, hd⟩, rfl⟩

/-- **A line with finite extents is not halved.** -/
theorem HasExtents.plan_ne_halve (h : HasExtents start stop) :
    plan width height start stop ≠ .ok (.halve middle) :=
  fun hplan => (of_plan_halve hplan).2.1 h

/-- Its drawing does not depend on the halvings. -/
theorem HasExtents.pixels_congr (h : HasExtents start stop) (m n : ℕ) :
    pixels m width height start stop = pixels n width height start stop := by
  obtain ⟨⟨x, x', hx, hx', hdx⟩, ⟨y, y', hy, hy', hdy⟩⟩ := h
  have hextents := Bool.and_eq_true_iff.mpr ⟨hdx, hdy⟩
  rw [pixels_eq m, pixels_eq n, hx, hy, hx', hy']
  dsimp only [bind, Except.bind]
  rw [if_pos hextents, if_pos hextents]

/-! ## 5. The middle of a line -/

variable {p q s : ℚ}

/-- A number that is not small is halved without any loss of digits. -/
theorem rounded_half (h : 1 ≤ |q|) : rounded (q / 2) = rounded q / 2 := by
  have hdouble : ∀ e : ℤ, (2 : ℚ) ^ e = 2 * 2 ^ (e - 1) := by
    intro e
    rw [← zpow_one_add₀ two_ne_zero, add_sub_cancel]
  have hfine : -52 ≤ unit q := le_unit (by simpa using h)
  have hunit : unit (q / 2) = unit q - 1 := by
    have hlow := unit_le_abs (q := q) (by omega)
    have hhigh := abs_lt_unit q
    rw [hdouble] at hlow hhigh
    refine unit_eq (Or.inr ⟨by omega, ?_⟩) ?_ <;> rw [abs_div, abs_two, sub_add_eq_add_sub]
    · linarith
    · linarith
  simp only [rounded]
  rw [hunit, hdouble (unit q), div_div]
  ring

/-- A rounded half is half of the rounded number, up to what small numbers lose. -/
theorem abs_rounded_half_sub_le (q : ℚ) : |rounded (q / 2) - rounded q / 2| ≤ 2 := by
  rcases le_total 1 |q| with h | h
  · rw [rounded_half h, sub_self, abs_zero]
    exact zero_le_two
  · have hwhole : |rounded q| ≤ (1 : ℤ) := abs_rounded_le (by exact_mod_cast h) (by norm_num)
    have hhalf : |rounded (q / 2)| ≤ (1 : ℤ) := by
      refine abs_rounded_le ?_ (by norm_num)
      rw [abs_div, abs_two]
      push_cast
      linarith
    rw [abs_le] at hwhole hhalf ⊢
    push_cast at hwhole hhalf
    constructor <;> linarith

/-- **The middle of two floats is within reach of either of them.**  It is rounded by half of a last
digit of the greatest floats, and where it is rounded by more it is so far out that both of them are
near it. -/
theorem abs_rounded_middle_sub_lt (hp : |p| ≤ greatest) (hq : |q| ≤ greatest)
    (hs : |s - (p + q) / 2| ≤ 4) : |rounded s - p| < overflow := by
  have hlast : (2 : ℚ) ^ (971 : ℤ) = 2 * 2 ^ (970 : ℤ) := by
    have h := two_zpow_split 970 1
    norm_num only at h
    exact h
  have hsplit : (2 : ℚ) ^ (970 + 53 : ℤ) = 2 ^ 53 * 2 ^ (970 : ℤ) := two_zpow_split 970 53
  have hsplit' : (2 : ℚ) ^ (971 + 53 : ℤ) = 2 ^ 53 * 2 ^ (971 : ℤ) := two_zpow_split 971 53
  have hlarge : (2 : ℚ) ^ (10 : ℤ) ≤ 2 ^ (970 : ℤ) := two_zpow_le (by norm_num)
  have hgreatest := greatest_cast
  have herror := abs_rounded_sub_le s
  have hnear : |s| < 2 ^ (970 + 53 : ℤ) → (2 : ℚ) ^ unit s ≤ 2 ^ (970 : ℤ) := fun h =>
    two_zpow_le (unit_le_of_abs_lt (by norm_num) h)
  have hfar : |s| < 2 ^ (971 + 53 : ℤ) → (2 : ℚ) ^ unit s ≤ 2 ^ (971 : ℤ) := fun h =>
    two_zpow_le (unit_le_of_abs_lt (by norm_num) h)
  rw [hsplit] at hnear
  rw [hsplit', hlast] at hfar
  rw [hlast] at hgreatest
  rw [overflow_eq_greatest, hgreatest]
  rw [hgreatest] at hp hq
  clear hlast hsplit hsplit' hgreatest
  generalize (2 : ℚ) ^ (970 : ℤ) = c at *
  generalize (2 : ℚ) ^ unit s = digit at *
  norm_num only [abs_le, abs_lt] at hp hq hs herror hlarge ⊢
  rcases lt_or_ge |s| (2 ^ 53 * c) with h | h
  · have hdigit := hnear h
    constructor <;> linarith
  · have hdigit := hfar (by
      rw [abs_lt]
      constructor <;> linarith)
    rcases le_abs.mp h with h | h <;> constructor <;> linarith

variable {a b : Coord} {x y : Float}

theorem isFinite_two : (2.0 : Float).isFinite := by decide

@[simp] theorem value_two : value 2.0 = 2 := by
  have h : scaled? 2.0 = some ⟨2 ^ 52, -51⟩ := by decide
  rw [value_of_scaled h]
  norm_num

/-- Half of a finite coordinate is finite, and about half of the coordinate as a float. -/
theorem half_spec (ha : a.IsFinite) (hx : a.half = .ok x) :
    x.isFinite ∧ |value x - rounded a.value / 2| ≤ 2 := by
  have hrange : |a.value / 2| < overflow := by
    have hvalue : |a.value| < overflow := by
      cases a with
      | whole n => exact ha
      | real z => exact abs_value_lt z
    rw [abs_div, abs_two]
    linarith [abs_nonneg a.value]
  have hnear : x.isFinite ∧ value x = rounded (a.value / 2) := by
    cases a with
    | whole n =>
      obtain ⟨z, hz, hspec⟩ := halfOfWhole_of_lt hrange
      cases hz.symm.trans hx
      exact hspec
    | real z =>
      cases hx
      have hdiv := isNearest_div ha isFinite_two (by norm_num)
      rw [value_two] at hdiv
      exact hdiv.within hrange
  rw [hnear.2]
  exact ⟨hnear.1, abs_rounded_half_sub_le _⟩

/-- **From both ends to the middle of an extent the extents are finite.** -/
theorem hasExtent_middle (ha : a.IsFinite) (hb : b.IsFinite) (hx : a.half = .ok x)
    (hy : b.half = .ok y) : HasExtent a (.real (x + y)) ∧ HasExtent (.real (x + y)) b := by
  obtain ⟨hxfinite, hxvalue⟩ := half_spec ha hx
  obtain ⟨hyfinite, hyvalue⟩ := half_spec hb hy
  obtain ⟨u, hu, hufinite, huvalue⟩ := ha.toFloat_ok
  obtain ⟨v, hv, hvfinite, hvvalue⟩ := hb.toFloat_ok
  have hurange := abs_value_le u
  have hvrange := abs_value_le v
  rw [← huvalue] at hxvalue
  rw [← hvvalue] at hyvalue
  have hnear : |value x + value y - (value u + value v) / 2| ≤ 4 := by
    rw [abs_le] at hxvalue hyvalue ⊢
    constructor <;> linarith
  have hsum : |value x + value y| < overflow := by
    have hlarge : (4 : ℚ) < 2 ^ (970 : ℤ) :=
      lt_of_lt_of_le (by norm_num) (two_zpow_le (show (3 : ℤ) ≤ 970 by norm_num))
    rw [overflow_eq_greatest]
    generalize (2 : ℚ) ^ (970 : ℤ) = c at hlarge ⊢
    rw [abs_le] at hurange hvrange hnear
    rw [abs_lt]
    constructor <;> linarith
  obtain ⟨hmiddle, hvalue⟩ := (isNearest_add hxfinite hyfinite).within hsum
  refine ⟨⟨u, x + y, hu, rfl, ?_⟩, ⟨x + y, v, rfl, hv, ?_⟩⟩
  · refine (isNearest_sub hmiddle hufinite).isFinite_iff.mpr ?_
    rw [hvalue]
    exact abs_rounded_middle_sub_lt hurange hvrange hnear
  · refine (isNearest_sub hvfinite hmiddle).isFinite_iff.mpr ?_
    rw [hvalue, abs_sub_comm]
    exact abs_rounded_middle_sub_lt hvrange hurange (by rwa [add_comm (value v)])

/-- **The halves of a line have finite extents.** -/
theorem hasExtents_of_plan_halve (h : plan width height start stop = .ok (.halve middle)) :
    HasExtents start middle ∧ HasExtents middle stop := by
  obtain ⟨hfinite, -, a, b, c, d, ⟨ha, hb⟩, ⟨hc, hd⟩, rfl⟩ := of_plan_halve h
  have hcolumns := hasExtent_middle (hfinite start.1 (by simp)) (hfinite stop.1 (by simp)) ha hb
  have hrows := hasExtent_middle (hfinite start.2 (by simp)) (hfinite stop.2 (by simp)) hc hd
  exact ⟨⟨hcolumns.1, hrows.1⟩, ⟨hcolumns.2, hrows.2⟩⟩

/-! ## 6. Drawing without a limit -/

/-- A line that is not halved is drawn by its plan. -/
theorem draws_of_not_halved (h : ∀ middle, plan width height start stop ≠ .ok (.halve middle))
    (halvings : ℕ) :
    Draws width height 0 start stop (pixels (halvings + 1) width height start stop) := by
  rw [pixels_eq_plan]
  cases hplan : plan width height start stop with
  | error fault => exact .fault hplan
  | ok p =>
    cases p with
    | nothing => exact .nothing hplan
    | walk a b => exact .walk hplan (walks_line a b)
    | halve middle => exact absurd hplan (h middle)

/-- So is a line with finite extents, for any number of halvings. -/
theorem HasExtents.draws (h : HasExtents start stop) (halvings : ℕ) :
    Draws width height 0 start stop (pixels halvings width height start stop) := by
  rw [h.pixels_congr halvings (0 + 1)]
  exact draws_of_not_halved (fun _ => h.plan_ne_halve) 0

/-- **Every line is drawn with one level of halving at the most,** and what is drawn is what the
limited drawing draws. -/
theorem draws_pixels (width height : ℤ) (start stop : Point) :
    ∃ depth ≤ 1, Draws width height depth start stop
      (pixels enoughHalvings width height start stop) := by
  by_cases h : ∃ middle, plan width height start stop = .ok (.halve middle)
  · obtain ⟨middle, hplan⟩ := h
    obtain ⟨hfirst, hsecond⟩ := hasExtents_of_plan_halve hplan
    have hpixels := pixels_eq_plan 0 width height start stop
    rw [hplan] at hpixels
    exact ⟨1, le_rfl, hpixels ▸ .halve hplan (hfirst.draws 0) (hsecond.draws 0)⟩
  · exact ⟨0, zero_le_one, draws_of_not_halved (not_exists.mp h) 0⟩

/-- **A line is halved once at the most.**  If an extent of it is not finite, both extents of both
halves are, and neither half is halved.  So its drawing comes to an end with one level of halving at
the most and draws what the limited drawing draws, which is no fault on any canvas whose pixels can
be counted in machine words. -/
theorem halved_once (c : Canvas) (hstart : start.1.IsFinite ∧ start.2.IsFinite)
    (hstop : stop.1.IsFinite ∧ stop.2.IsFinite) :
    (∀ middle, plan c.width c.height start stop = .ok (.halve middle) →
      (HasExtents start middle ∧ HasExtents middle stop) ∧
        ∀ other, plan c.width c.height start middle ≠ .ok (.halve other) ∧
          plan c.width c.height middle stop ≠ .ok (.halve other)) ∧
    (∃ depth ≤ 1, ∀ n r, Draws c.width c.height n start stop r ↔
      n = depth ∧ r = pixels enoughHalvings c.width c.height start stop) ∧
    (c.width ≤ greatestSide → c.height ≤ greatestSide →
      ∃ drawn, pixels enoughHalvings c.width c.height start stop = .ok drawn) := by
  refine ⟨fun middle hplan => ?_, ?_, fun hwidth hheight => ?_⟩
  · obtain ⟨hfirst, hsecond⟩ := hasExtents_of_plan_halve hplan
    exact ⟨⟨hfirst, hsecond⟩, fun _ => ⟨hfirst.plan_ne_halve, hsecond.plan_ne_halve⟩⟩
  · obtain ⟨depth, hdepth, hdraws⟩ := draws_pixels c.width c.height start stop
    refine ⟨depth, hdepth, fun n r => ⟨fun h => h.unique hdraws, ?_⟩⟩
    rintro ⟨rfl, rfl⟩
    exact hdraws
  · have hside : ∀ n : ℕ, (n : ℤ) ≤ greatestSide → |(n : ℤ)| ≤ greatestSide := by
      intro n hn
      rwa [abs_of_nonneg (by omega)]
    exact pixels_ok enoughHalvings (hside _ hwidth) (hside _ hheight)
      ⟨Coord.IsFinite.isConvertible hstart.1, Coord.IsFinite.isConvertible hstart.2⟩
      ⟨Coord.IsFinite.isConvertible hstop.1, Coord.IsFinite.isConvertible hstop.2⟩

/-- Whole numbers up to the greatest float are finite. -/
theorem isFinite_of_le_greatest {n : ℤ} (h : |n| ≤ greatest) : (Coord.whole n).IsFinite := by
  have hcast : |(n : ℚ)| ≤ greatest := by exact_mod_cast h
  refine lt_of_le_of_lt hcast ?_
  rw [overflow_eq_greatest]
  exact lt_add_of_pos_right _ (two_zpow_pos 970)

/-- A point far off on one side of the canvas. -/
def longStart : Point := (.whole (-10 ^ 308), .real (-1e308))

/-- A point still farther off on the opposite side. -/
def longStop : Point := (.real 1.7e308, .whole (17 * 10 ^ 307))

/-- The point where the line between them is halved. -/
def longMiddle : Point :=
  (.real (-1e308 / 2.0 + 1.7e308 / 2.0), .real (-1e308 / 2.0 + 1.7e308 / 2.0))

/-- The line between them is halved once, and leaves one pixel. -/
theorem halved_once_longStart :
    ((longStart.1.IsFinite ∧ longStart.2.IsFinite) ∧ longStop.1.IsFinite ∧ longStop.2.IsFinite) ∧
      plan 4 4 longStart longStop = .ok (.halve longMiddle) ∧
      (HasExtents longStart longMiddle ∧ HasExtents longMiddle longStop) ∧
      ∃ depth ≤ 1, Draws 4 4 depth longStart longStop (.ok [(0, 0)]) := by
  have hstart : longStart.1.IsFinite ∧ longStart.2.IsFinite :=
    ⟨isFinite_of_le_greatest (by decide +kernel),
      show (-1e308 : Float).isFinite = true by decide +kernel⟩
  have hstop : longStop.1.IsFinite ∧ longStop.2.IsFinite :=
    ⟨show (1.7e308 : Float).isFinite = true by decide +kernel,
      isFinite_of_le_greatest (by decide +kernel)⟩
  have hplan : plan 4 4 longStart longStop = .ok (.halve longMiddle) := by decide +kernel
  have hpixels : pixels enoughHalvings 4 4 longStart longStop = .ok [(0, 0)] := by decide +kernel
  obtain ⟨hhalves, ⟨depth, hdepth, hdraws⟩, -⟩ := halved_once (Canvas.blank 4 4) hstart hstop
  exact ⟨⟨hstart, hstop⟩, hplan, (hhalves longMiddle hplan).1, depth, hdepth,
    (hdraws depth _).mpr ⟨rfl, hpixels.symm⟩⟩

end VectorPaint.Raster
