/-
# The pen draws without gaps

A path is drawn with one pen.  Each line starts where the line before it has ended, unless the pen
was put elsewhere by a move in between.  Straight lines go from the pen to where the pen will be.
Curves are less simple: the pen goes to the end point as it is, and the lines go through points
that are computed in floats and rounded.  So the last of these points has to be the end point.

It is, for every number of steps.  The last parameter is a quotient of two equal numbers, which is
one and not rounded.  There the weight of the end point is one and the other weights are zero, so
whatever the control points are, the sum is the end point (`cubicAt_one`, `quadraticAt_one`).  It
survives that a half is added to round it, as long as it is at most `2 ^ 52`: beyond that a float
has no place for a half.

From this every command is a chain of lines from the pen to where the pen will be
(`Command.follows_of_draw`), and every run hangs together (`pen_continuous`).
-/
import VectorPaint.Proofs.Cutting
import VectorPaint.Proofs.Turns

namespace VectorPaint

open Number
open Raster (IsWhole isWhole_one rounded_one)

/-! ## 1. Coordinates that rounding leaves alone -/

/-- Up to this size a half can be added to a whole number and be taken away again.  At the bound
itself the half is lost, to the even side. -/
theorem Number.floor_rounded_add_half {n : ℤ} (hn : |n| ≤ 2 ^ 52) :
    ⌊rounded ((n : ℚ) + 1 / 2)⌋ = n := by
  obtain ⟨hlow, hhigh⟩ := abs_le.mp hn
  rcases eq_or_lt_of_le hhigh with rfl | hlt
  · -- The last digit is a whole one here, so this is a tie.
    have hunit : unit (((2 ^ 52 : ℤ) : ℚ) + 1 / 2) = 0 :=
      unit_eq (Or.inr ⟨by norm_num, by norm_num [abs_of_pos]⟩) (by norm_num [abs_of_pos])
    have heven : halfEven (((2 ^ 52 : ℤ) : ℚ) + 1 / 2) = 2 ^ 52 := by
      rw [pow_succ' 2 51]
      exact halfEven_tie _
    rw [rounded, hunit, zpow_zero, div_one, mul_one, heven, Int.floor_intCast]
  · have hhalf : IsBinary ((n : ℚ) + 1 / 2) := by
      refine ⟨2 * n + 1, -1, abs_le.mpr ⟨by omega, by omega⟩, by norm_num, ?_⟩
      push_cast
      rw [zpow_neg_one]
      ring
    rw [rounded_of_isBinary hhalf, Int.floor_eq_iff]
    constructor <;> linarith

namespace Coord

/-- A coordinate that is a whole number. -/
def IsWhole : Coord → Prop
  | .whole _ => True
  | .real _ => False

/-- A whole coordinate up to which there is room for a half in a float. -/
def IsModerate : Coord → Prop
  | .whole n => |n| ≤ 2 ^ 52
  | .real _ => False

instance : DecidablePred IsModerate
  | .whole n => inferInstanceAs (Decidable (|n| ≤ 2 ^ 52))
  | .real _ => inferInstanceAs (Decidable False)

variable {a : Coord} {x : Float} {n : ℤ}

theorem IsModerate.isWhole (h : a.IsModerate) : a.IsWhole := by
  cases a with
  | whole n => trivial
  | real x => exact h

theorem IsWhole.mul : ∀ {a b c : Coord}, a.IsWhole → b.IsWhole → a.mul b = .ok c → c.IsWhole
  | .whole _, .whole _, _, _, _, rfl => trivial

theorem IsWhole.sub : ∀ {a b c : Coord}, a.IsWhole → b.IsWhole → a.sub b = .ok c → c.IsWhole
  | .whole _, .whole _, _, _, _, rfl => trivial

/-- A whole number that becomes a float becomes a finite one. -/
theorem IsWhole.isFinite_toFloat (ha : a.IsWhole) (h : a.toFloat = .ok x) : x.isFinite := by
  cases a with
  | real y => exact ha.elim
  | whole n =>
    obtain ⟨y, hy, hfinite, -⟩ := ofWhole_of_lt (isConvertible_iff.mpr ⟨x, h⟩)
    cases hy.symm.trans h
    exact hfinite

/-- **A whole number of moderate size is left alone by rounding.** -/
theorem roundHalfUp_of_isWhole (hx : Raster.IsWhole x n) (hn : |n| ≤ 2 ^ 52) :
    roundHalfUp x = .whole n := by
  have hcast : |(n : ℚ)| ≤ 2 ^ 52 := by exact_mod_cast hn
  have hsum : |(n : ℚ) + 1 / 2| ≤ 2 ^ 53 := by
    refine (abs_add_le _ _).trans ?_
    norm_num
    linarith
  have hhalf := isNearest_add hx.finite isFinite_half
  rw [hx.eq, value_half] at hhalf
  obtain ⟨hfinite, hvalue⟩ := hhalf.within (lt_overflow hsum)
  obtain ⟨v, hv, hscaled⟩ := scaled?_of_isFinite hfinite
  simp only [roundHalfUp]
  rw [hv]
  dsimp only
  rw [v.floor_eq, hscaled, hvalue, floor_rounded_add_half hn]

/-- A float is rounded to a coordinate of moderate size if it is the same whole number as the
coordinate's own float. -/
theorem IsModerate.roundHalfUp_eq (ha : a.IsModerate) (h : a.toFloat = .ok x) {y : Float}
    (hy : ∀ n : ℤ, |n| ≤ 2 ^ 53 → Raster.IsWhole x n → Raster.IsWhole y n) :
    roundHalfUp y = a := by
  cases a with
  | real z => exact ha.elim
  | whole n =>
    have hn : |n| ≤ 2 ^ 53 := le_trans (b := 2 ^ 52) ha (by norm_num)
    obtain ⟨z, hz, hfinite, hvalue⟩ := Viewport.ofWhole_of_moderate hn
    cases hz.symm.trans h
    exact roundHalfUp_of_isWhole (hy n hn ⟨hfinite, hvalue⟩) ha

end Coord

/-! ## 2. Where curves end -/

namespace Curve

variable {x0 x1 x2 x3 u : Float} {n : ℤ} {steps : ℤ} {p0 p1 p2 p3 : Point} {points : List Point}

/-- A point with whole coordinates. -/
def Whole (p : Point) : Prop := p.1.IsWhole ∧ p.2.IsWhole

/-- A point with whole coordinates of moderate size. -/
def Moderate (p : Point) : Prop := p.1.IsModerate ∧ p.2.IsModerate

theorem Moderate.whole {p : Point} (h : Moderate p) : Whole p := ⟨h.1.isWhole, h.2.isWhole⟩

theorem Whole.floats {p : Point} (h : Whole p) {x y : Float} (hp : floats p = .ok (x, y)) :
    x.isFinite ∧ y.isFinite := by
  obtain ⟨_, hx, hp⟩ := of_bind_ok hp
  obtain ⟨_, hy, hp⟩ := of_bind_ok hp
  cases hp
  exact ⟨h.1.isFinite_toFloat hx, h.2.isFinite_toFloat hy⟩

/-- The last parameter is one, whatever the number of steps. -/
theorem isWhole_parameter_self {steps : ℕ} (h : 0 < steps) :
    IsWhole (parameter steps steps) 1 := by
  have hnear := isNearest_quotient h h
  rw [div_self (by exact_mod_cast h.ne')] at hnear
  obtain ⟨hfinite, hvalue⟩ := hnear.within (lt_overflow (by norm_num))
  exact ⟨hfinite, hvalue.trans (rounded_one.trans Int.cast_one.symm)⟩

theorem power_zero {x : Float} (h : IsWhole x 0) (n : ℕ) : IsWhole (power x n) 0 := by
  have hzero : (x == 0.0) = true := by
    rw [beq_iff h.finite isFinite_zero, h.eq, value_zero, Int.cast_zero]
  rw [power, if_pos hzero]
  exact ⟨isFinite_zero, value_zero.trans Int.cast_zero.symm⟩

/-- **At one a quadratic curve is at its end point.** -/
theorem quadraticAt_one (h0 : x0.isFinite) (h1 : x1.isFinite) (h2 : IsWhole x2 n)
    (hn : |n| ≤ 2 ^ 53) (hu : IsWhole u 1) : IsWhole (quadraticAt x0 x1 x2 u) n := by
  have hleft : IsWhole (1.0 - u) 0 := isWhole_one.sub hu (by norm_num)
  have hstart : IsWhole ((1.0 - u) * (1.0 - u) * x0) 0 := (hleft.zero_mul hleft.finite).zero_mul h0
  have hcontrol : IsWhole (2.0 * (1.0 - u) * u * x1) 0 :=
    ((IsWhole.mul_zero (by decide +kernel) hleft).zero_mul hu.finite).zero_mul h1
  have hstop : IsWhole (u * u * x2) n := by
    have hproduct := (hu.mul hu (by norm_num)).mul h2 (by simpa using hn)
    rwa [one_mul, one_mul] at hproduct
  have hsum := (hstart.add hcontrol (by norm_num)).add hstop (by simpa using hn)
  rwa [add_zero, zero_add] at hsum

/-- **At one a cubic curve is at its end point.** -/
theorem cubicAt_one (h0 : x0.isFinite) (h1 : x1.isFinite) (h2 : x2.isFinite) (h3 : IsWhole x3 n)
    (hn : |n| ≤ 2 ^ 53) (hu : IsWhole u 1) : IsWhole (cubicAt x0 x1 x2 x3 u) n := by
  have hthree : (3.0 : Float).isFinite := by decide +kernel
  have hleft : IsWhole (1.0 - u) 0 := isWhole_one.sub hu (by norm_num)
  have hstart : IsWhole (power (1.0 - u) 3 * x0) 0 := (power_zero hleft 3).zero_mul h0
  have hfirst : IsWhole (3.0 * power (1.0 - u) 2 * u * x1) 0 :=
    ((IsWhole.mul_zero hthree (power_zero hleft 2)).zero_mul hu.finite).zero_mul h1
  have hsecond : IsWhole (3.0 * (1.0 - u) * u * u * x2) 0 :=
    (((IsWhole.mul_zero hthree hleft).zero_mul hu.finite).zero_mul hu.finite).zero_mul h2
  have hstop : IsWhole (u * u * u * x3) n := by
    have hproduct := ((hu.mul hu (by norm_num)).mul hu (by norm_num)).mul h3 (by simpa using hn)
    rwa [one_mul, one_mul, one_mul] at hproduct
  have hsum := ((hstart.add hfirst (by norm_num)).add hsecond (by norm_num)).add hstop
    (by simpa using hn)
  rwa [add_zero, add_zero, zero_add] at hsum

/-! ## 3. The points of a curve -/

theorem length_sample (steps : ℕ) (x y : Float → Float) :
    (sample steps x y).length = steps + 1 := by
  rw [sample, List.length_map, List.length_range]

theorem getLast?_sample (steps : ℕ) (x y : Float → Float) :
    (sample steps x y).getLast? =
      some (Coord.roundHalfUp (x (parameter steps steps)),
        Coord.roundHalfUp (y (parameter steps steps))) := by
  rw [sample, List.range_succ, List.map_append, List.map_singleton, List.getLast?_concat]

/-- **A quadratic curve has one point for every step and one more,** and the last one is its end
point. -/
theorem quadratic_points (hsteps : 0 < steps) (h : quadratic p0 p1 p2 steps = .ok points) :
    points.length = steps.toNat + 1 ∧
      (Whole p0 → Whole p1 → Moderate p2 → points.getLast? = some p2) := by
  simp only [quadratic] at h
  rw [if_neg hsteps.not_ge] at h
  obtain ⟨⟨x0, y0⟩, h0, h⟩ := of_bind_ok h
  obtain ⟨⟨x1, y1⟩, h1, h⟩ := of_bind_ok h
  obtain ⟨⟨x2, y2⟩, h2, h⟩ := of_bind_ok h
  cases h
  refine ⟨length_sample _ _ _, fun hp0 hp1 hp2 => ?_⟩
  have hone : IsWhole (parameter steps.toNat steps.toNat) 1 :=
    isWhole_parameter_self (by omega)
  obtain ⟨hx0, hy0⟩ := hp0.floats h0
  obtain ⟨hx1, hy1⟩ := hp1.floats h1
  obtain ⟨_, hx2, h2⟩ := of_bind_ok h2
  obtain ⟨_, hy2, h2⟩ := of_bind_ok h2
  cases h2
  rw [getLast?_sample,
    hp2.1.roundHalfUp_eq hx2 fun n hn hx2 => quadraticAt_one hx0 hx1 hx2 hn hone,
    hp2.2.roundHalfUp_eq hy2 fun n hn hy2 => quadraticAt_one hy0 hy1 hy2 hn hone]

/-- **So has a cubic curve.** -/
theorem cubic_points (hsteps : 0 < steps) (h : cubic p0 p1 p2 p3 steps = .ok points) :
    points.length = steps.toNat + 1 ∧
      (Whole p0 → Whole p1 → Whole p2 → Moderate p3 → points.getLast? = some p3) := by
  simp only [cubic] at h
  rw [if_neg hsteps.not_ge] at h
  obtain ⟨⟨x0, y0⟩, h0, h⟩ := of_bind_ok h
  obtain ⟨⟨x1, y1⟩, h1, h⟩ := of_bind_ok h
  obtain ⟨⟨x2, y2⟩, h2, h⟩ := of_bind_ok h
  obtain ⟨⟨x3, y3⟩, h3, h⟩ := of_bind_ok h
  cases h
  refine ⟨length_sample _ _ _, fun hp0 hp1 hp2 hp3 => ?_⟩
  have hone : IsWhole (parameter steps.toNat steps.toNat) 1 :=
    isWhole_parameter_self (by omega)
  obtain ⟨hx0, hy0⟩ := hp0.floats h0
  obtain ⟨hx1, hy1⟩ := hp1.floats h1
  obtain ⟨hx2, hy2⟩ := hp2.floats h2
  obtain ⟨_, hx3, h3⟩ := of_bind_ok h3
  obtain ⟨_, hy3, h3⟩ := of_bind_ok h3
  cases h3
  rw [getLast?_sample,
    hp3.1.roundHalfUp_eq hx3 fun n hn hx3 => cubicAt_one hx0 hx1 hx2 hx3 hn hone,
    hp3.2.roundHalfUp_eq hy3 fun n hn hy3 => cubicAt_one hy0 hy1 hy2 hy3 hn hone]

theorem length_arc {radius : Coord} (hsteps : 0 < steps)
    (h : arc p0 p1 radius steps = .ok points) : points.length = steps.toNat := by
  obtain ⟨cx, -, h⟩ := of_bind_ok h
  obtain ⟨cy, -, h⟩ := of_bind_ok h
  obtain ⟨first, -, h⟩ := of_bind_ok h
  obtain ⟨last, -, h⟩ := of_bind_ok h
  dsimp only at h
  rw [if_neg hsteps.not_ge] at h
  obtain ⟨r, -, h⟩ := of_bind_ok h
  cases h
  rw [List.length_map, List.length_range]

/-! ## 4. Chains of lines -/

theorem length_chain (start : Point) (points : List Point) :
    (chain start points).length = points.length := by
  induction points generalizing start with
  | nil => rfl
  | cons p rest ih => rw [chain, List.length_cons, List.length_cons, ih]

theorem getLast?_chain (p : Point) (points : List Point) :
    (chain p points).getLast?.map Segment.stop = points.getLast? := by
  induction points generalizing p with
  | nil => rfl
  | cons q rest ih =>
    rw [chain, List.getLast?_cons, List.getLast?_cons, Option.map_some, ← ih q]
    cases (chain q rest).getLast? <;> rfl

end Curve

namespace Path

open Curve (Segment Whole Moderate chain)

variable {v : Viewport} {steps : ℤ} {pen next : Pen} {relative : Bool} {arg : Nat → Float}
  {command : Command} {segments : List Segment} {p : Point}

/-! ## 5. Commands -/

/-- How many lines a command draws. -/
def Command.strokes (steps : ℤ) : Command → ℕ
  | .move => 0
  | .line | .horizontal | .vertical | .close => 1
  | .cubic | .smooth | .quadratic => steps.toNat + 1
  | .arc => steps.toNat

theorem length_of_drawCubic {p1 p2 stop : Point} (hsteps : 0 < steps)
    (h : drawCubic steps pen p1 p2 stop = .ok (segments, next)) :
    segments.length = steps.toNat + 1 := by
  obtain ⟨points, hpoints, h⟩ := of_bind_ok h
  cases h
  rw [Curve.length_chain, (Curve.cubic_points hsteps hpoints).1]

/-- **A command draws as many lines as it should,** whatever its numbers are. -/
theorem Command.length_of_draw (hsteps : 0 < steps)
    (h : command.draw v steps pen relative arg = .ok (segments, next)) :
    segments.length = command.strokes steps := by
  cases command with
  | move | line =>
    obtain ⟨_, -, h⟩ := of_bind_ok h
    cases h
    rfl
  | horizontal | vertical =>
    obtain ⟨_, -, h⟩ := of_bind_ok h
    obtain ⟨_, -, h⟩ := of_bind_ok h
    cases h
    rfl
  | close =>
    cases h
    rfl
  | cubic | smooth =>
    obtain ⟨_, -, h⟩ := of_bind_ok h
    obtain ⟨_, -, h⟩ := of_bind_ok h
    obtain ⟨_, -, h⟩ := of_bind_ok h
    exact length_of_drawCubic hsteps h
  | quadratic =>
    obtain ⟨_, -, h⟩ := of_bind_ok h
    obtain ⟨_, -, h⟩ := of_bind_ok h
    obtain ⟨points, hpoints, h⟩ := of_bind_ok h
    cases h
    rw [Curve.length_chain, (Curve.quadratic_points hsteps hpoints).1, strokes]
  | arc =>
    obtain ⟨_, -, h⟩ := of_bind_ok h
    obtain ⟨_, -, h⟩ := of_bind_ok h
    obtain ⟨points, hpoints, h⟩ := of_bind_ok h
    cases h
    rw [Curve.length_chain, Curve.length_arc hsteps hpoints, strokes]

/-- The coordinates on the device that a command makes of its numbers. -/
def Command.scaled (v : Viewport) (pen : Pen) (relative : Bool) (arg : Nat → Float) :
    Command → Except Fault (List Coord)
  | .move | .line => do
    let p ← target v pen relative (arg 0) (arg 1)
    return [p.1, p.2]
  | .horizontal => do
    return [← v.scaleX (← offset relative (arg 0) pen.x)]
  | .vertical => do
    return [← v.scaleY (← offset relative (arg 0) pen.y)]
  | .close => .ok []
  | .cubic => do
    let p1 ← point v (arg 0) (arg 1)
    let p2 ← point v (arg 2) (arg 3)
    let stop ← point v (arg 4) (arg 5)
    return [p1.1, p1.2, p2.1, p2.2, stop.1, stop.2]
  | .smooth | .quadratic => do
    let p ← point v (arg 0) (arg 1)
    let stop ← point v (arg 2) (arg 3)
    return [p.1, p.2, stop.1, stop.2]
  | .arc => do
    let stop ← point v (arg 5) (arg 6)
    return [stop.1, stop.2]

/-- A pen that holds whole points. -/
structure Pen.IsWhole (pen : Pen) : Prop where
  position : Whole pen.position
  start : Whole pen.start
  control : Whole pen.control

theorem Pen.isWhole_initial : Pen.initial.IsWhole :=
  ⟨⟨trivial, trivial⟩, ⟨trivial, trivial⟩, ⟨trivial, trivial⟩⟩

theorem Pen.IsWhole.moveTo (h : pen.IsWhole) (hp : Whole p) : (pen.moveTo p).IsWhole :=
  ⟨hp, h.start, h.control⟩

theorem Pen.IsWhole.reflected (h : pen.IsWhole) (hp : pen.reflected = .ok p) : Whole p := by
  have htwo : (Coord.whole 2).IsWhole := trivial
  unfold Pen.reflected at hp
  split at hp
  · obtain ⟨_, hx, hp⟩ := of_bind_ok hp
    obtain ⟨_, hx', hp⟩ := of_bind_ok hp
    obtain ⟨_, hy, hp⟩ := of_bind_ok hp
    obtain ⟨_, hy', hp⟩ := of_bind_ok hp
    cases hp
    exact ⟨(htwo.mul h.position.1 hx).sub h.control.1 hx',
      (htwo.mul h.position.2 hy).sub h.control.2 hy'⟩
  · cases hp
    exact h.position

/-- A command draws a chain of lines from the pen.  Unless it is a move it leaves the pen at the
chain's end. -/
structure Command.Follows (command : Command) (pen : Pen) (segments : List Segment) (next : Pen) :
    Prop where
  isWhole : next.IsWhole
  exists_chain : ∃ points, segments = chain pen.position points ∧
    (command ≠ .move → points.getLast? = some next.position)

theorem Command.follows_drawCubic {p1 p2 stop : Point} (hsteps : 0 < steps) (hpen : pen.IsWhole)
    (hp1 : Whole p1) (hp2 : Whole p2) (hstop : Moderate stop)
    (h : drawCubic steps pen p1 p2 stop = .ok (segments, next)) :
    command.Follows pen segments next := by
  obtain ⟨points, hpoints, h⟩ := of_bind_ok h
  cases h
  exact ⟨⟨hstop.whole, hpen.start, hp2⟩, points, rfl,
    fun _ => (Curve.cubic_points hsteps hpoints).2 hpen.position hp1 hp2 hstop⟩

theorem Command.follows_lineTo (hpen : pen.IsWhole) (hp : Whole p) :
    command.Follows pen [pen.lineTo p] (pen.moveTo p) :=
  ⟨hpen.moveTo hp, [p], rfl, fun _ => rfl⟩

/-- **A command draws on from the pen to where the pen will be,** if it is no arc and its
coordinates are whole numbers of moderate size. -/
theorem Command.follows_of_draw (harc : command ≠ .arc) (hsteps : 0 < steps) (hpen : pen.IsWhole)
    (h : command.draw v steps pen relative arg = .ok (segments, next)) :
    ∃ coords, command.scaled v pen relative arg = .ok coords ∧
      ((∀ a ∈ coords, a.IsModerate) → command.Follows pen segments next) := by
  cases command with
  | move =>
    obtain ⟨p, hp, h⟩ := of_bind_ok h
    cases h
    refine ⟨[p.1, p.2], bind_ok hp rfl, fun hmoderate => ?_⟩
    simp only [List.forall_mem_cons] at hmoderate
    obtain ⟨hx, hy, -⟩ := hmoderate
    have hwhole : Whole p := ⟨hx.isWhole, hy.isWhole⟩
    exact ⟨⟨hwhole, hwhole, hpen.control⟩, [], rfl, fun hmove => absurd rfl hmove⟩
  | line =>
    obtain ⟨p, hp, h⟩ := of_bind_ok h
    cases h
    refine ⟨[p.1, p.2], bind_ok hp rfl, fun hmoderate => ?_⟩
    simp only [List.forall_mem_cons] at hmoderate
    obtain ⟨hx, hy, -⟩ := hmoderate
    exact follows_lineTo hpen ⟨hx.isWhole, hy.isWhole⟩
  | horizontal =>
    obtain ⟨a, ha, h⟩ := of_bind_ok h
    obtain ⟨x, hx, h⟩ := of_bind_ok h
    cases h
    refine ⟨[x], bind_ok ha (bind_ok hx rfl), fun hmoderate => ?_⟩
    exact follows_lineTo hpen ⟨(List.forall_mem_singleton.mp hmoderate).isWhole, hpen.position.2⟩
  | vertical =>
    obtain ⟨a, ha, h⟩ := of_bind_ok h
    obtain ⟨y, hy, h⟩ := of_bind_ok h
    cases h
    refine ⟨[y], bind_ok ha (bind_ok hy rfl), fun hmoderate => ?_⟩
    exact follows_lineTo hpen ⟨hpen.position.1, (List.forall_mem_singleton.mp hmoderate).isWhole⟩
  | close =>
    cases h
    exact ⟨[], rfl, fun _ => follows_lineTo hpen hpen.start⟩
  | cubic =>
    obtain ⟨p1, hp1, h⟩ := of_bind_ok h
    obtain ⟨p2, hp2, h⟩ := of_bind_ok h
    obtain ⟨stop, hstop, h⟩ := of_bind_ok h
    refine ⟨[p1.1, p1.2, p2.1, p2.2, stop.1, stop.2],
      bind_ok hp1 (bind_ok hp2 (bind_ok hstop rfl)), fun hmoderate => ?_⟩
    simp only [List.forall_mem_cons] at hmoderate
    obtain ⟨hx1, hy1, hx2, hy2, hx, hy, -⟩ := hmoderate
    exact follows_drawCubic hsteps hpen ⟨hx1.isWhole, hy1.isWhole⟩ ⟨hx2.isWhole, hy2.isWhole⟩
      ⟨hx, hy⟩ h
  | smooth =>
    obtain ⟨p1, hp1, h⟩ := of_bind_ok h
    obtain ⟨p2, hp2, h⟩ := of_bind_ok h
    obtain ⟨stop, hstop, h⟩ := of_bind_ok h
    refine ⟨[p2.1, p2.2, stop.1, stop.2], bind_ok hp2 (bind_ok hstop rfl), fun hmoderate => ?_⟩
    simp only [List.forall_mem_cons] at hmoderate
    obtain ⟨hx2, hy2, hx, hy, -⟩ := hmoderate
    exact follows_drawCubic hsteps hpen (hpen.reflected hp1) ⟨hx2.isWhole, hy2.isWhole⟩
      ⟨hx, hy⟩ h
  | quadratic =>
    obtain ⟨p1, hp1, h⟩ := of_bind_ok h
    obtain ⟨stop, hstop, h⟩ := of_bind_ok h
    obtain ⟨points, hpoints, h⟩ := of_bind_ok h
    cases h
    refine ⟨[p1.1, p1.2, stop.1, stop.2], bind_ok hp1 (bind_ok hstop rfl), fun hmoderate => ?_⟩
    simp only [List.forall_mem_cons] at hmoderate
    obtain ⟨hx1, hy1, hx, hy, -⟩ := hmoderate
    exact ⟨hpen.moveTo ⟨hx.isWhole, hy.isWhole⟩, points, rfl,
      fun _ => (Curve.quadratic_points hsteps hpoints).2 hpen.position ⟨hx1.isWhole, hy1.isWhole⟩
        ⟨hx, hy⟩⟩
  | arc => exact absurd rfl harc

/-! ## 6. Turns -/

/-- Where the next line starts after an event, if it started at a point before. -/
def Event.foot (p : Point) : Event → Point
  | .drawn s => s.stop
  | .done .move _ _ pen => pen.position
  | _ => p

/-- Where the next line starts after events: at the end of the last line, or where the pen went
with a move behind it, and at the origin before all that. -/
def foot (events : List Event) : Point := events.foldl Event.foot Pen.initial.position

/-- The lines among events hang together, the first one from a point. -/
def Joined (p : Point) (events : List Event) : Prop :=
  ∀ before s after, events = before ++ .drawn s :: after → s.start = before.foldl Event.foot p

variable {xs ys : List Event} {e : Event}

theorem joined_nil (p : Point) : Joined p [] := by
  intro before s after h
  cases before <;> cases h

theorem Joined.append (hxs : Joined p xs) (hys : Joined (xs.foldl Event.foot p) ys) :
    Joined p (xs ++ ys) := by
  intro before s after h
  rcases List.append_eq_append_iff.mp h with ⟨zs, rfl, hzs⟩ | ⟨zs, hzs, hdrawn⟩
  · rw [List.foldl_append]
    exact hys zs s after hzs
  · cases zs with
    | nil =>
      rw [List.append_nil] at hzs
      subst hzs
      exact hys [] s after hdrawn.symm
    | cons z zs =>
      obtain ⟨rfl, -⟩ := List.cons_eq_cons.mp hdrawn
      exact hxs before s zs hzs

theorem joined_singleton (h : ∀ s, e = .drawn s → s.start = p) : Joined p [e] := by
  intro before s after he
  cases before with
  | nil => exact h s (List.cons_eq_cons.mp he).1
  | cons x before =>
    have hnil := (List.cons_eq_cons.mp he).2
    cases before <;> cases hnil

/-- A chain hangs together from its start to its end. -/
theorem joined_chain (p : Point) (points : List Point) :
    Joined p ((chain p points).map .drawn) ∧
      ((chain p points).map .drawn).foldl Event.foot p = points.getLast?.getD p := by
  induction points generalizing p with
  | nil => exact ⟨joined_nil p, rfl⟩
  | cons q rest ih =>
    obtain ⟨hjoined, hfoot⟩ := ih q
    refine ⟨?_, ?_⟩
    · -- The first line starts at `p`, and the chain behind it at the end of that line.
      have hfirst : Joined p [.drawn ⟨p, q⟩] := by
        refine joined_singleton ?_
        rintro s ⟨⟩
        rfl
      exact hfirst.append hjoined
    · rw [chain, List.map_cons, List.foldl_cons, List.getLast?_cons, Option.getD_some]
      exact hfoot

theorem Event.foot_done (h : command ≠ .move) (taken : ℕ) :
    Event.foot p (.done command relative taken pen) = p := by
  cases command with
  | move => exact absurd rfl h
  | _ => rfl

/-- The coordinates on the device that a turn makes of its numbers.  A turn that comes next has
all of them, since its command draws (`Command.follows_of_draw`). -/
def Turn.scaled (v : Viewport) (t : Turn) : List Coord :=
  match t.command? with
  | none => []
  | some command =>
    (command.scaled v t.before (isRelative t.token) (argument t.rest)).toOption.getD []

/-- A turn is no arc, and its coordinates are whole numbers of moderate size. -/
def Turn.IsModerate (v : Viewport) (t : Turn) : Prop :=
  t.command? ≠ some .arc ∧ ∀ a ∈ t.scaled v, a.IsModerate

instance (v : Viewport) (t : Turn) : Decidable (t.IsModerate v) :=
  inferInstanceAs (Decidable (_ ∧ _))

/-- A turn goes on from where the pen is to where the pen will be. -/
structure Turn.GoesOn (t : Turn) : Prop where
  isWhole : t.after.IsWhole
  joined : Joined t.before.position t.events
  foot : t.events.foldl Event.foot t.before.position = t.after.position
  stop : ∀ command, t.command? = some command → command ≠ .move →
    t.segments.getLast?.map Segment.stop = some t.after.position

/-- **A turn of moderate size goes on.** -/
theorem Turn.Comes.goesOn {t : Turn} {taken : ℕ} {tokens rest : List Text}
    (h : t.Comes v steps taken pen tokens rest) (hsteps : 0 < steps) (hpen : pen.IsWhole)
    (hmoderate : t.IsModerate v) : t.before = pen ∧ t.GoesOn := by
  cases h with
  | unsupported hname =>
    refine ⟨rfl, ⟨hpen.position, hpen.start, hpen.control⟩, ?_, ?_, ?_⟩
    · simp only [Turn.events, Turn.command?, hname]
      exact joined_singleton (by rintro s ⟨⟩)
    · simp only [Turn.events, Turn.command?, hname]
      rfl
    · intro command hcommand
      cases hname.symm.trans hcommand
  | @command token _ command segments next hname hdraw =>
    obtain ⟨harc, hcoords⟩ := hmoderate
    simp only [Turn.command?, hname] at harc
    obtain ⟨coords, hscaled, hfollows⟩ :=
      Command.follows_of_draw (mt (congrArg some) harc) hsteps hpen hdraw
    simp only [Turn.scaled, Turn.command?, hname, hscaled] at hcoords
    -- The lines are a chain, and behind it only a move puts the pen elsewhere.
    obtain ⟨hwhole, points, rfl, hlast⟩ := hfollows hcoords
    obtain ⟨hjoined, hfoot⟩ := joined_chain pen.position points
    refine ⟨rfl, ⟨hwhole.position, hwhole.start, hwhole.control⟩, ?_, ?_, ?_⟩
    · simp only [Turn.events, Turn.command?, hname]
      exact hjoined.append (joined_singleton (by rintro s ⟨⟩))
    · simp only [Turn.events, Turn.command?, hname]
      rw [List.foldl_append, hfoot, List.foldl_cons, List.foldl_nil]
      by_cases hmove : command = .move
      · subst hmove
        rfl
      · rw [Event.foot_done hmove, hlast hmove]
        rfl
    · intro command' hcommand hmove
      cases hname.symm.trans hcommand
      rw [Curve.getLast?_chain]
      exact hlast hmove

theorem Turn.Comes.length_segments {t : Turn} {taken : ℕ} {tokens rest : List Text}
    (h : t.Comes v steps taken pen tokens rest) (hsteps : 0 < steps)
    (hcommand : t.command? = some command) : t.segments.length = command.strokes steps := by
  cases h with
  | unsupported hname => cases hname.symm.trans hcommand
  | command hname hdraw =>
    cases hname.symm.trans hcommand
    exact Command.length_of_draw hsteps hdraw

/-! ## 7. Runs -/

namespace Pause

variable {m m' : Pause}

/-- What the turns have left hangs together, and the pen is where the next line starts. -/
structure HangsTogether (m : Pause) : Prop where
  isWhole : m.pen.IsWhole
  foot : foot m.events = m.pen.position
  joined : Joined Pen.initial.position m.events
  stop : ∀ t ∈ m.turns, ∀ command, t.command? = some command → command ≠ .move →
    t.segments.getLast?.map Segment.stop = some t.after.position

theorem hangsTogether_start (tokens : List Text) : (start tokens).HangsTogether where
  isWhole := Pen.isWhole_initial
  foot := rfl
  joined := joined_nil _
  stop _ ht := absurd ht List.not_mem_nil

/-- **A turn of moderate size leaves no gap.** -/
theorem hangsTogether_step (hsteps : 0 < steps) (h : Step v steps m m')
    (hm : m.HangsTogether) (hmoderate : ∀ t ∈ m'.turns, t.IsModerate v) : m'.HangsTogether := by
  rcases h with @⟨t, rest, hcomes⟩
  obtain ⟨hbefore, ht⟩ := hcomes.goesOn hsteps hm.isWhole (hmoderate t List.mem_cons_self)
  have hevents : events ⟨t :: m.turns, t.taken, t.after, rest⟩ = m.events ++ t.events := by
    simp [events]
  have hjoined := ht.joined
  have hfoot := ht.foot
  rw [hbefore, ← hm.foot] at hjoined hfoot
  refine ⟨ht.isWhole, ?_, ?_, ?_⟩
  · rw [hevents, Path.foot, List.foldl_append]
    exact hfoot
  · rw [hevents]
    exact hm.joined.append hjoined
  · intro u hu
    rcases List.mem_cons.mp hu with rfl | hu
    · exact ht.stop
    · exact hm.stop u hu

/-- **Nor does a whole run.** -/
theorem hangsTogether_of_reaches (hsteps : 0 < steps) (h : m.Reaches v steps m')
    (hm : m.HangsTogether) (hmoderate : ∀ t ∈ m'.turns, t.IsModerate v) : m'.HangsTogether := by
  induction h with
  | refl => exact hm
  | tail _ hstep ih =>
    refine hangsTogether_step hsteps hstep (ih ?_) hmoderate
    obtain ⟨-⟩ := hstep
    exact fun t ht => hmoderate t (List.mem_cons_of_mem _ ht)

end Pause

/-- **The pen draws without gaps.**  What a run leaves is what its turns have left when it comes to
its end or to a fault.  At every moment of a run without arcs whose coordinates on the device are
whole numbers of at most `2 ^ 52`, the pen is where the next line starts, and every line has started
at the end of the line before it, or where the pen was behind a move in between.  Every command but
a move has ended its last line where the pen is behind it, and has drawn one line, or one more than
the steps if it is a curve. -/
theorem pen_continuous (v : Viewport) {steps : ℤ} (hsteps : 0 < steps) (data : Text) :
    (∃ m, (Pause.start (tokens data)).Reaches v steps m ∧ (run v steps data).entries = m.events ∧
      ∀ p, (run v steps data).outcome = .ok p → m.rest = [] ∧ m.pen = p.pen) ∧
    ∀ m, (Pause.start (tokens data)).Reaches v steps m → (∀ t ∈ m.turns, t.IsModerate v) →
      m.pen.position = foot m.events ∧
      (∀ before s after, m.events = before ++ .drawn s :: after → s.start = foot before) ∧
      ∀ t ∈ m.turns, ∀ command, t.command? = some command →
        t.segments.length = command.strokes steps ∧
        (command ≠ .move → t.segments.getLast?.map Segment.stop = some t.after.position) := by
  refine ⟨Pause.exists_events v steps data, fun m hm hmoderate => ?_⟩
  have hangs := Pause.hangsTogether_of_reaches hsteps hm (Pause.hangsTogether_start _) hmoderate
  refine ⟨hangs.foot.symm, hangs.joined, fun t ht command hcommand =>
    ⟨?_, hangs.stop t ht command hcommand⟩⟩
  obtain ⟨before, rest, -, hcomes⟩ := Pause.exists_comes_of_mem hm ht
  exact hcomes.length_segments hsteps hcommand

/-- A move, a line, two curves with the second one smooth, a command that is not supported, a move
relative to the pen, a quadratic curve and a close. -/
def mixedPath : Text := "M 1 2 L 30 4 C 9 9 8 7 40 50 s 1 1 61 62 t 9 m 5 5 q 0 9 7 7 Z".toList

theorem pen_continuous_mixedPath :
    let v : Viewport := ⟨160, 120, 160.0, 120.0⟩
    let m := (Pause.start (tokens mixedPath)).advance v 2 8
    (∀ t ∈ m.turns, t.IsModerate v) ∧ m.rest = [] ∧
      (m.turns.map fun t => t.segments.length) = [1, 3, 0, 0, 3, 3, 1, 0] ∧
      m.pen.position = foot m.events ∧
      ∀ before s after, m.events = before ++ .drawn s :: after → s.start = foot before := by
  intro v m
  have hturns : (∀ t ∈ m.turns, t.IsModerate v) ∧ m.rest = [] ∧
      (m.turns.map fun t => t.segments.length) = [1, 3, 0, 0, 3, 3, 1, 0] := by
    decide +kernel
  have hsteps : (0 : ℤ) < 2 := by norm_num
  obtain ⟨hpen, hjoined, -⟩ :=
    (pen_continuous v hsteps mixedPath).2 m (Pause.reaches_advance 8 _) hturns.1
  exact ⟨hturns.1, hturns.2.1, hturns.2.2, hpen, hjoined⟩

end Path

end VectorPaint
