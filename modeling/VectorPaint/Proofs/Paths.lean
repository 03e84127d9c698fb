/-
# Paths that run away

The pen of a path moves from one point of the device to the next, and all that it remembers is
rounded to the device (`Pen.IsSettled`).  So the commands can do their arithmetic, with one
exception.  A smooth curve behind a cubic one takes its first control point from the other side of
the pen, which is not rounded: twice the pen's place less the last control point.  That point can
lie beyond the range of the floats (`Pen.Overshoots`), and no curve can be drawn to it.

A path is drawn to its end unless it comes to such a point: `interpret_succeeds_iff`.
-/
import VectorPaint.Proofs.Shapes

namespace VectorPaint

open Number

/-! ## 1. Curves -/

namespace Curve

/-- A point of settled coordinates. -/
def Settled (p : Point) : Prop := p.1.IsSettled ∧ p.2.IsSettled

theorem Settled.convertible {p : Point} (h : Settled p) : Raster.Convertible p :=
  ⟨h.1.isConvertible, h.2.isConvertible⟩

theorem floats_ok_iff {p : Point} : (∃ r, floats p = .ok r) ↔ Raster.Convertible p := by
  constructor
  · rintro ⟨r, hr⟩
    obtain ⟨x, hx, hr⟩ := of_bind_ok hr
    obtain ⟨y, hy, -⟩ := of_bind_ok hr
    exact ⟨Coord.isConvertible_iff.mpr ⟨x, hx⟩, Coord.isConvertible_iff.mpr ⟨y, hy⟩⟩
  · rintro ⟨hx, hy⟩
    obtain ⟨x, hx⟩ := hx.toFloat_ok
    obtain ⟨y, hy⟩ := hy.toFloat_ok
    exact ⟨(x, y), bind_ok hx (bind_ok hy rfl)⟩

theorem settled_sample {steps : Nat} {x y : Float → Float} : ∀ p ∈ sample steps x y, Settled p := by
  intro p hp
  obtain ⟨taken, -, rfl⟩ := List.mem_map.mp hp
  exact ⟨Coord.roundHalfUp_settled _, Coord.roundHalfUp_settled _⟩

variable {p0 p1 p2 p3 : Point} {steps : ℤ} {points : List Point}

theorem settled_of_quadratic (h : quadratic p0 p1 p2 steps = .ok points) :
    ∀ p ∈ points, Settled p := by
  simp only [quadratic] at h
  split at h
  · cases h
    intro p hp
    exact absurd hp List.not_mem_nil
  · obtain ⟨_, -, h⟩ := of_bind_ok h
    obtain ⟨_, -, h⟩ := of_bind_ok h
    obtain ⟨_, -, h⟩ := of_bind_ok h
    cases h
    exact settled_sample

theorem settled_of_cubic (h : cubic p0 p1 p2 p3 steps = .ok points) :
    ∀ p ∈ points, Settled p := by
  simp only [cubic] at h
  split at h
  · cases h
    intro p hp
    exact absurd hp List.not_mem_nil
  · obtain ⟨_, -, h⟩ := of_bind_ok h
    obtain ⟨_, -, h⟩ := of_bind_ok h
    obtain ⟨_, -, h⟩ := of_bind_ok h
    obtain ⟨_, -, h⟩ := of_bind_ok h
    cases h
    exact settled_sample

theorem settled_of_arc {radius : Coord} (h : arc p0 p1 radius steps = .ok points) :
    ∀ p ∈ points, Settled p := by
  obtain ⟨cx, -, h⟩ := of_bind_ok h
  obtain ⟨cy, -, h⟩ := of_bind_ok h
  obtain ⟨first, -, h⟩ := of_bind_ok h
  obtain ⟨last, -, h⟩ := of_bind_ok h
  dsimp only at h
  split at h
  · cases h
    intro p hp
    exact absurd hp List.not_mem_nil
  · obtain ⟨r, -, h⟩ := of_bind_ok h
    cases h
    intro p hp
    obtain ⟨taken, -, rfl⟩ := List.mem_map.mp hp
    exact ⟨Coord.roundHalfUp_settled _, Coord.roundHalfUp_settled _⟩

theorem quadratic_ok (hp0 : Settled p0) (hp1 : Settled p1) (hp2 : Settled p2) :
    ∃ points, quadratic p0 p1 p2 steps = .ok points := by
  simp only [quadratic]
  split
  · exact ⟨[], rfl⟩
  · obtain ⟨_, h0⟩ := floats_ok_iff.mpr hp0.convertible
    obtain ⟨_, h1⟩ := floats_ok_iff.mpr hp1.convertible
    obtain ⟨_, h2⟩ := floats_ok_iff.mpr hp2.convertible
    exact exists_bind_ok h0 (exists_bind_ok h1 (exists_bind_ok h2 ⟨_, rfl⟩))

/-- **A cubic curve has points as soon as its first control point can become floats,** its other
points being settled. -/
theorem cubic_ok_iff (hsteps : 0 < steps) (hp0 : Settled p0) (hp2 : Settled p2)
    (hp3 : Settled p3) :
    (∃ points, cubic p0 p1 p2 p3 steps = .ok points) ↔ Raster.Convertible p1 := by
  have hrun : ¬ steps ≤ 0 := by omega
  obtain ⟨_, h0⟩ := floats_ok_iff.mpr hp0.convertible
  obtain ⟨_, h2⟩ := floats_ok_iff.mpr hp2.convertible
  obtain ⟨_, h3⟩ := floats_ok_iff.mpr hp3.convertible
  rw [← floats_ok_iff]
  simp only [cubic]
  rw [if_neg hrun]
  constructor
  · rintro ⟨points, h⟩
    obtain ⟨_, -, h⟩ := of_bind_ok h
    obtain ⟨r, hr, -⟩ := of_bind_ok h
    exact ⟨r, hr⟩
  · rintro ⟨_, h1⟩
    exact exists_bind_ok h0 (exists_bind_ok h1 (exists_bind_ok h2 (exists_bind_ok h3 ⟨_, rfl⟩)))

/-- The middle of two settled coordinates is within the range. -/
theorem middle_ok {a b : Coord} (ha : a.IsSettled) (hb : b.IsSettled) :
    ∃ x, middle a b = .ok x := by
  have hreal : ∀ x : Float, ∃ y, (Coord.real x).half = .ok y := fun x => ⟨_, rfl⟩
  cases a with
  | whole m =>
    cases b with
    | whole n =>
      have hm : |(m : ℚ)| < overflow := ha
      have hn : |(n : ℚ)| < overflow := hb
      have hhalf : |((m + n : ℤ) : ℚ) / 2| < overflow := by
        rw [Int.cast_add, abs_div, abs_two]
        have := abs_add_le (m : ℚ) n
        linarith
      obtain ⟨x, hx, -⟩ := halfOfWhole_of_lt hhalf
      exact ⟨x, bind_ok rfl hx⟩
    | real y =>
      obtain ⟨x, hx⟩ := ha.isConvertible.toFloat_ok
      exact exists_bind_ok (bind_ok hx rfl) (hreal _)
  | real x =>
    obtain ⟨y, hy⟩ := hb.isConvertible.toFloat_ok
    exact exists_bind_ok (Coord.real_add hy) (hreal _)

theorem arc_ok {radius : Coord} (hp0 : Settled p0) (hp1 : Settled p1)
    (hradius : radius.IsSettled) : ∃ points, arc p0 p1 radius steps = .ok points := by
  have hdirection : ∀ {p : Point} (cx cy : Float), Settled p → ∃ d, direction p cx cy = .ok d := by
    intro p cx cy hp
    obtain ⟨y, hy⟩ := hp.2.isConvertible.toFloat_ok
    obtain ⟨x, hx⟩ := hp.1.isConvertible.toFloat_ok
    exact exists_bind_ok hy (exists_bind_ok hx ⟨_, rfl⟩)
  obtain ⟨cx, hcx⟩ := middle_ok hp0.1 hp1.1
  obtain ⟨cy, hcy⟩ := middle_ok hp0.2 hp1.2
  obtain ⟨first, hfirst⟩ := hdirection cx cy hp0
  obtain ⟨last, hlast⟩ := hdirection cx cy hp1
  refine exists_bind_ok hcx (exists_bind_ok hcy (exists_bind_ok hfirst (exists_bind_ok hlast ?_)))
  dsimp only
  split
  · exact ⟨[], rfl⟩
  · obtain ⟨r, hr⟩ := hradius.isConvertible.toFloat_ok
    exact exists_bind_ok hr ⟨_, rfl⟩

end Curve

namespace Path

open Curve (Settled Segment)

/-! ## 2. The pen -/

/-- A pen whose coordinates are all rounded to the device. -/
structure Pen.IsSettled (pen : Pen) : Prop where
  position : Settled pen.position
  start : Settled (pen.startX, pen.startY)
  control : Settled (pen.controlX, pen.controlY)

theorem Pen.isSettled_initial : Pen.initial.IsSettled := by
  have hzero : (Coord.whole 0).IsSettled := Coord.isFinite_whole (by norm_num)
  exact ⟨⟨hzero, hzero⟩, ⟨hzero, hzero⟩, ⟨hzero, hzero⟩⟩

/-- The name of the last command is no coordinate. -/
theorem Pen.IsSettled.previous {pen : Pen} (h : pen.IsSettled) (name : Text) :
    { pen with previous := name }.IsSettled := ⟨h.position, h.start, h.control⟩

/-- Twice a coordinate less another one is beyond the range of the floats, or the double is where
the other one is no whole number. -/
def Overshoots : Coord → Coord → Prop
  | .whole n, .whole m => overflow ≤ |((2 * n - m : ℤ) : ℚ)|
  | .whole n, .real _ => overflow ≤ |((2 * n : ℤ) : ℚ)|
  | .real _, _ => False

/-- The first control point of a smooth curve is beyond the range of the floats. -/
def Pen.Overshoots (pen : Pen) : Prop :=
  (pen.previous = ['C'] ∨ pen.previous = ['S']) ∧
    (Path.Overshoots pen.x pen.controlX ∨ Path.Overshoots pen.y pen.controlY)

/-- A coordinate seen from the other side of the pen can become a float unless it overshoots. -/
theorem reflect_ok_iff {a control : Coord} (ha : a.IsSettled) (hcontrol : control.IsSettled) :
    (∃ b, ((Coord.whole 2).mul a >>= fun double => double.sub control) = .ok b ∧
      b.IsConvertible) ↔ ¬ Path.Overshoots a control := by
  cases a with
  | whole n =>
    cases control with
    | whole m =>
      constructor
      · rintro ⟨b, hb, hconvertible⟩
        cases hb
        exact not_le.mpr hconvertible
      · intro h
        exact ⟨_, rfl, not_le.mp h⟩
    | real z =>
      constructor
      · rintro ⟨b, hb, -⟩
        obtain ⟨_, hdouble, hb⟩ := of_bind_ok hb
        cases hdouble
        obtain ⟨x, hx, -⟩ := of_bind_ok hb
        have hconvertible : (Coord.whole (2 * n)).IsConvertible :=
          Coord.isConvertible_iff.mpr ⟨x, hx⟩
        exact not_le.mpr hconvertible
      · intro h
        have hconvertible : (Coord.whole (2 * n)).IsConvertible := not_le.mp h
        obtain ⟨x, hx⟩ := hconvertible.toFloat_ok
        exact ⟨.real (x - z), bind_ok rfl (bind_ok hx rfl), trivial⟩
  | real x =>
    refine iff_of_true ?_ not_false
    have htwo : (Coord.whole 2).IsConvertible := Coord.isFinite_whole (by norm_num)
    obtain ⟨two, htwo⟩ := htwo.toFloat_ok
    obtain ⟨z, hz⟩ := hcontrol.isConvertible.toFloat_ok
    exact ⟨_, bind_ok (bind_ok htwo rfl) (Coord.real_sub hz), trivial⟩

theorem Pen.reflected_ok_iff {pen : Pen} (h : pen.IsSettled) :
    (∃ p, pen.reflected = .ok p ∧ Raster.Convertible p) ↔ ¬ pen.Overshoots := by
  have hx : pen.x.IsSettled := h.position.1
  have hy : pen.y.IsSettled := h.position.2
  have hcontrolX : pen.controlX.IsSettled := h.control.1
  have hcontrolY : pen.controlY.IsSettled := h.control.2
  simp only [reflected, Pen.Overshoots]
  by_cases hprevious : pen.previous = ['C'] ∨ pen.previous = ['S']
  · rw [if_pos hprevious, and_iff_right hprevious, not_or,
      ← reflect_ok_iff hx hcontrolX, ← reflect_ok_iff hy hcontrolY]
    constructor
    · rintro ⟨p, hp, hx, hy⟩
      obtain ⟨double, hdouble, hp⟩ := of_bind_ok hp
      obtain ⟨x, hsub, hp⟩ := of_bind_ok hp
      obtain ⟨double', hdouble', hp⟩ := of_bind_ok hp
      obtain ⟨y, hsub', hp⟩ := of_bind_ok hp
      cases hp
      exact ⟨⟨x, bind_ok hdouble hsub, hx⟩, y, bind_ok hdouble' hsub', hy⟩
    · rintro ⟨⟨x, hx, hxc⟩, y, hy, hyc⟩
      obtain ⟨double, hdouble, hsub⟩ := of_bind_ok hx
      obtain ⟨double', hdouble', hsub'⟩ := of_bind_ok hy
      exact ⟨(x, y), bind_ok hdouble (bind_ok hsub (bind_ok hdouble' (bind_ok hsub' rfl))),
        hxc, hyc⟩
  · rw [if_neg hprevious]
    exact iff_of_true ⟨pen.position, rfl, h.position.convertible⟩ fun hover => hprevious hover.1

/-! ## 3. Commands -/

/-- A straight line between points that can become floats. -/
def IsDrawable (s : Segment) : Prop :=
  Raster.Convertible s.start ∧ Raster.Convertible s.stop

theorem isDrawable_chain {start : Point} {points : List Point} (hstart : Settled start)
    (hpoints : ∀ p ∈ points, Settled p) : ∀ s ∈ Curve.chain start points, IsDrawable s := by
  induction points generalizing start with
  | nil =>
    intro s hs
    exact absurd hs List.not_mem_nil
  | cons p rest ih =>
    have hp := hpoints p List.mem_cons_self
    intro s hs
    rcases List.mem_cons.mp hs with rfl | hs
    · exact ⟨hstart.convertible, hp.convertible⟩
    · exact ih hp (fun q hq => hpoints q (List.mem_cons_of_mem _ hq)) s hs

variable {v : Viewport} {steps : ℤ} {pen pen' : Pen} {relative : Bool} {arg : Nat → Float}
  {command : Command} {segments : List Segment}

theorem settled_of_drawCubic {p1 p2 stop : Point} (hpen : pen.IsSettled) (hp2 : Settled p2)
    (hstop : Settled stop) (h : drawCubic steps pen p1 p2 stop = .ok (segments, pen')) :
    pen'.IsSettled ∧ ∀ s ∈ segments, IsDrawable s := by
  obtain ⟨points, hpoints, h⟩ := of_bind_ok h
  cases h
  exact ⟨⟨hstop, hpen.start, hp2⟩,
    isDrawable_chain hpen.position (Curve.settled_of_cubic hpoints)⟩

/-- **A command leaves a settled pen and lines that can be drawn,** if it has a result. -/
theorem settled_of_draw (hpen : pen.IsSettled)
    (h : command.draw v steps pen relative arg = .ok (segments, pen')) :
    pen'.IsSettled ∧ ∀ s ∈ segments, IsDrawable s := by
  have hline : ∀ {p : Point}, Settled p → (pen.moveTo p).IsSettled ∧
      ∀ s ∈ [pen.lineTo p], IsDrawable s := by
    intro p hp
    refine ⟨⟨hp, hpen.start, hpen.control⟩, ?_⟩
    intro s hs
    rw [List.mem_singleton.mp hs]
    exact ⟨hpen.position.convertible, hp.convertible⟩
  have htarget : ∀ {x y : Float} {p : Point}, target v pen relative x y = .ok p → Settled p := by
    intro x y p hp
    obtain ⟨_, -, hp⟩ := of_bind_ok hp
    obtain ⟨_, -, hp⟩ := of_bind_ok hp
    exact Viewport.settled_of_scalePoint hp
  cases command with
  | move =>
    obtain ⟨p, hp, h⟩ := of_bind_ok h
    cases h
    exact ⟨⟨htarget hp, htarget hp, hpen.control⟩, fun s hs => absurd hs List.not_mem_nil⟩
  | line =>
    obtain ⟨p, hp, h⟩ := of_bind_ok h
    cases h
    exact hline (htarget hp)
  | horizontal =>
    obtain ⟨_, -, h⟩ := of_bind_ok h
    obtain ⟨x, hx, h⟩ := of_bind_ok h
    cases h
    exact hline ⟨Viewport.settled_of_scale hx, hpen.position.2⟩
  | vertical =>
    obtain ⟨_, -, h⟩ := of_bind_ok h
    obtain ⟨y, hy, h⟩ := of_bind_ok h
    cases h
    exact hline ⟨hpen.position.1, Viewport.settled_of_scale hy⟩
  | close =>
    cases h
    exact hline hpen.start
  | cubic =>
    obtain ⟨p1, hp1, h⟩ := of_bind_ok h
    obtain ⟨p2, hp2, h⟩ := of_bind_ok h
    obtain ⟨stop, hstop, h⟩ := of_bind_ok h
    exact settled_of_drawCubic hpen (Viewport.settled_of_scalePoint hp2)
      (Viewport.settled_of_scalePoint hstop) h
  | smooth =>
    obtain ⟨p1, hp1, h⟩ := of_bind_ok h
    obtain ⟨p2, hp2, h⟩ := of_bind_ok h
    obtain ⟨stop, hstop, h⟩ := of_bind_ok h
    exact settled_of_drawCubic hpen (Viewport.settled_of_scalePoint hp2)
      (Viewport.settled_of_scalePoint hstop) h
  | quadratic =>
    obtain ⟨p1, hp1, h⟩ := of_bind_ok h
    obtain ⟨stop, hstop, h⟩ := of_bind_ok h
    obtain ⟨points, hpoints, h⟩ := of_bind_ok h
    cases h
    exact ⟨⟨Viewport.settled_of_scalePoint hstop, hpen.start, hpen.control⟩,
      isDrawable_chain hpen.position (Curve.settled_of_quadratic hpoints)⟩
  | arc =>
    obtain ⟨stop, hstop, h⟩ := of_bind_ok h
    obtain ⟨radius, -, h⟩ := of_bind_ok h
    obtain ⟨points, hpoints, h⟩ := of_bind_ok h
    cases h
    exact ⟨⟨Viewport.settled_of_scalePoint hstop, hpen.start, hpen.control⟩,
      isDrawable_chain hpen.position (Curve.settled_of_arc hpoints)⟩

theorem drawCubic_ok_iff (hsteps : 0 < steps) (hpen : pen.IsSettled) {p1 p2 stop : Point}
    (hp2 : Settled p2) (hstop : Settled stop) :
    (∃ r, drawCubic steps pen p1 p2 stop = .ok r) ↔ Raster.Convertible p1 := by
  rw [← Curve.cubic_ok_iff hsteps hpen.position hp2 hstop]
  constructor
  · rintro ⟨r, h⟩
    obtain ⟨points, hpoints, -⟩ := of_bind_ok h
    exact ⟨points, hpoints⟩
  · rintro ⟨points, hpoints⟩
    exact exists_bind_ok hpoints ⟨_, rfl⟩

/-- **A command has a result unless it is a smooth curve that overshoots.** -/
theorem draw_ok_iff (hv : v.IsSound) (hsteps : 0 < steps) (hpen : pen.IsSettled) :
    (∃ r, command.draw v steps pen relative arg = .ok r) ↔
      ¬ (command = .smooth ∧ pen.Overshoots) := by
  have hoffset : ∀ (x : Float) {base : Coord}, base.IsSettled →
      ∃ y, offset relative x base = .ok (.real y) := by
    intro x base hbase
    obtain ⟨y, hy⟩ := hbase.isConvertible.toFloat_ok
    cases relative with
    | true => exact ⟨_, Coord.real_add hy⟩
    | false => exact ⟨x, rfl⟩
  have htarget : ∀ x y : Float, ∃ p, target v pen relative x y = .ok p := by
    intro x y
    obtain ⟨x, hx⟩ := hoffset x hpen.position.1
    obtain ⟨y, hy⟩ := hoffset y hpen.position.2
    obtain ⟨p, hp, -⟩ := hv.scalePoint_ok x y
    exact ⟨p, bind_ok hx (bind_ok hy hp)⟩
  have hpoint : ∀ x y : Float, ∃ p, point v x y = .ok p ∧ Settled p := hv.scalePoint_ok
  cases command with
  | move =>
    obtain ⟨p, hp⟩ := htarget (arg 0) (arg 1)
    exact iff_of_true (exists_bind_ok hp ⟨_, rfl⟩) (by simp)
  | line =>
    obtain ⟨p, hp⟩ := htarget (arg 0) (arg 1)
    exact iff_of_true (exists_bind_ok hp ⟨_, rfl⟩) (by simp)
  | horizontal =>
    obtain ⟨x, hx⟩ := hoffset (arg 0) hpen.position.1
    obtain ⟨_, hscale, -⟩ := hv.scaleX_ok x
    exact iff_of_true (exists_bind_ok hx (exists_bind_ok hscale ⟨_, rfl⟩)) (by simp)
  | vertical =>
    obtain ⟨y, hy⟩ := hoffset (arg 0) hpen.position.2
    obtain ⟨_, hscale, -⟩ := hv.scaleY_ok y
    exact iff_of_true (exists_bind_ok hy (exists_bind_ok hscale ⟨_, rfl⟩)) (by simp)
  | close => exact iff_of_true ⟨_, rfl⟩ (by simp)
  | cubic =>
    obtain ⟨p1, hp1, hs1⟩ := hpoint (arg 0) (arg 1)
    obtain ⟨p2, hp2, hs2⟩ := hpoint (arg 2) (arg 3)
    obtain ⟨stop, hstop, hs3⟩ := hpoint (arg 4) (arg 5)
    refine iff_of_true ?_ (by simp)
    refine exists_bind_ok hp1 (exists_bind_ok hp2 (exists_bind_ok hstop ?_))
    exact (drawCubic_ok_iff hsteps hpen hs2 hs3).mpr hs1.convertible
  | smooth =>
    obtain ⟨p2, hp2, hs2⟩ := hpoint (arg 0) (arg 1)
    obtain ⟨stop, hstop, hs3⟩ := hpoint (arg 2) (arg 3)
    rw [and_iff_right rfl, ← Pen.reflected_ok_iff hpen]
    constructor
    · rintro ⟨r, h⟩
      obtain ⟨p1, hp1, h⟩ := of_bind_ok h
      obtain ⟨q2, hq2, h⟩ := of_bind_ok h
      obtain ⟨q3, hq3, h⟩ := of_bind_ok h
      refine ⟨p1, hp1, ?_⟩
      exact (drawCubic_ok_iff hsteps hpen (Viewport.settled_of_scalePoint hq2)
        (Viewport.settled_of_scalePoint hq3)).mp ⟨r, h⟩
    · rintro ⟨p1, hp1, hconvertible⟩
      refine exists_bind_ok hp1 (exists_bind_ok hp2 (exists_bind_ok hstop ?_))
      exact (drawCubic_ok_iff hsteps hpen hs2 hs3).mpr hconvertible
  | quadratic =>
    obtain ⟨p1, hp1, hs1⟩ := hpoint (arg 0) (arg 1)
    obtain ⟨stop, hstop, hs2⟩ := hpoint (arg 2) (arg 3)
    obtain ⟨points, hpoints⟩ : ∃ points, Curve.quadratic pen.position p1 stop steps = .ok points :=
      Curve.quadratic_ok hpen.position hs1 hs2
    refine iff_of_true ?_ (by simp)
    exact exists_bind_ok hp1 (exists_bind_ok hstop (exists_bind_ok hpoints ⟨_, rfl⟩))
  | arc =>
    obtain ⟨stop, hstop, hs⟩ := hpoint (arg 5) (arg 6)
    obtain ⟨radius, hradius⟩ := hv.scaleRadius_ok (lesserRadius (arg 0) (arg 1))
    obtain ⟨points, hpoints⟩ :
        ∃ points, Curve.arc pen.position stop (Coord.roundHalfUp radius) steps = .ok points :=
      Curve.arc_ok hpen.position hs (Coord.roundHalfUp_settled radius)
    refine iff_of_true ?_ (by simp)
    exact exists_bind_ok hstop (exists_bind_ok hradius (exists_bind_ok hpoints ⟨_, rfl⟩))

/-! ## 4. Runs -/

/-- From a pen in front of tokens a run comes to a smooth curve that overshoots. -/
inductive RunsAway (v : Viewport) (steps : ℤ) : Pen → List Text → Prop
  /-- The next command is such a curve. -/
  | here {pen : Pen} {token : Text} {rest : List Text}
      (hsmooth : Command.ofName? token.upper = some .smooth) (hover : pen.Overshoots) :
      RunsAway v steps pen (token :: rest)
  /-- The run comes to it behind a command. -/
  | behind {pen next : Pen} {token : Text} {rest : List Text} {command : Command}
      {segments : List Segment} (hname : Command.ofName? token.upper = some command)
      (hdraw : command.draw v steps pen (isRelative token) (argument rest) = .ok (segments, next))
      (hnext : RunsAway v steps { next with previous := token.upper }
        (rest.drop command.arity)) :
      RunsAway v steps pen (token :: rest)
  /-- The run comes to it behind a command that is not supported. -/
  | skipped {pen : Pen} {token : Text} {rest : List Text}
      (hname : Command.ofName? token.upper = none)
      (hnext : RunsAway v steps { pen with previous := token.upper } (skip rest)) :
      RunsAway v steps pen (token :: rest)

/-- A line that a run draws joins points that can become floats. -/
def Event.IsDrawable : Event → Prop
  | .drawn s => Path.IsDrawable s
  | _ => True

/-- A command has done its work where it has drawn. -/
theorem run_outcome {taken : Nat} {next : Pen} :
    (command.run v steps pen relative taken arg).outcome = .ok next ↔
      ∃ segments, command.draw v steps pen relative arg = .ok (segments, next) := by
  simp only [Command.run]
  cases command.draw v steps pen relative arg with
  | error fault =>
    constructor
    · intro h
      cases h
    · rintro ⟨_, h⟩
      cases h
  | ok r =>
    obtain ⟨segments, pen'⟩ := r
    constructor
    · intro h
      cases h
      exact ⟨segments, rfl⟩
    · rintro ⟨_, h⟩
      cases h
      rfl

theorem run_drawable {taken : Nat} (hpen : pen.IsSettled) :
    (command.run v steps pen relative taken arg).All Event.IsDrawable := by
  simp only [Command.run]
  refine (Journal.all_lift _).bind ?_
  intro r hr
  have hsegments := (settled_of_draw hpen hr).2
  refine Journal.All.bind ?_ fun _ _ => (Journal.all_enter.mpr trivial).bind fun _ _ =>
    Journal.all_pure _
  intro event hevent
  obtain ⟨s, hs, rfl⟩ := List.mem_map.mp hevent
  exact hsegments s hs

/-- **The lines of a run join points that can become floats.** -/
theorem interpret_drawable (taken : Nat) (hpen : pen.IsSettled) (tokens : List Text) :
    (interpret v steps taken pen tokens).All Event.IsDrawable := by
  fun_induction interpret v steps taken pen tokens with
  | case1 => exact Journal.all_pure _
  | case2 taken pen token rest name hname ih =>
    exact (Journal.all_enter.mpr trivial).bind fun _ _ => ih (hpen.previous _)
  | case3 taken pen token rest name command hname taken' ih =>
    refine (run_drawable hpen).bind fun next hnext => ih next ?_
    obtain ⟨segments, hdraw⟩ := run_outcome.mp hnext
    exact (settled_of_draw hpen hdraw).1.previous _

/-- **A run comes to its end unless it runs away.** -/
theorem interpret_succeeds_iff (hv : v.IsSound) (hsteps : 0 < steps) (taken : Nat)
    (hpen : pen.IsSettled) (tokens : List Text) :
    (interpret v steps taken pen tokens).Succeeds ↔ ¬ RunsAway v steps pen tokens := by
  fun_induction interpret v steps taken pen tokens with
  | case1 =>
    refine iff_of_true (Journal.succeeds_pure _) ?_
    intro h
    cases h
  | case2 taken pen token rest name hname ih =>
    rw [Journal.succeeds_bind_iff]
    constructor
    · rintro ⟨_, -, hrest⟩ haway
      cases haway with
      | here hsmooth _ => cases hname.symm.trans hsmooth
      | behind hname' _ _ => cases hname.symm.trans hname'
      | skipped _ hnext => exact (ih (hpen.previous _)).mp hrest hnext
    · intro haway
      refine ⟨(), rfl, (ih (hpen.previous _)).mpr fun hnext => haway ?_⟩
      exact .skipped hname hnext
  | case3 taken pen token rest name command hname taken' ih =>
    have hsettled : ∀ {next segments}, command.draw v steps pen (isRelative token)
        (argument rest) = .ok (segments, next) → { next with previous := name }.IsSettled :=
      fun hdraw => (settled_of_draw hpen hdraw).1.previous _
    rw [Journal.succeeds_bind_iff]
    constructor
    · rintro ⟨next, hrun, hrest⟩ haway
      obtain ⟨segments, hdraw⟩ := run_outcome.mp hrun
      cases haway with
      | here hsmooth hover =>
        cases hname.symm.trans hsmooth
        exact (draw_ok_iff hv hsteps hpen).mp ⟨_, hdraw⟩ ⟨rfl, hover⟩
      | behind hname' hdraw' hnext =>
        cases hname.symm.trans hname'
        cases hdraw.symm.trans hdraw'
        exact (ih next (hsettled hdraw)).mp hrest hnext
      | skipped hname' _ => cases hname.symm.trans hname'
    · intro haway
      obtain ⟨⟨segments, next⟩, hdraw⟩ := (draw_ok_iff hv hsteps hpen).mpr fun ⟨hsmooth, hover⟩ =>
        haway (.here (hsmooth ▸ hname) hover)
      refine ⟨next, run_outcome.mpr ⟨segments, hdraw⟩, (ih next (hsettled hdraw)).mpr ?_⟩
      exact fun hnext => haway (.behind hname hdraw hnext)

end Path

/-! ## 5. Path elements -/

namespace Element

/-- The lines of a path are shapes as elements leave them. -/
theorem path_made (v : Viewport) (steps : Int) (tag : Text) :
    (path v steps tag).All Act.IsMade := by
  simp only [path]
  refine Journal.All.bind ?_ fun _ _ => Journal.all_pure _
  intro a ha
  obtain ⟨event, hevent, he⟩ := List.mem_filterMap.mp ha
  have hdrawable := Path.interpret_drawable 0 Path.Pen.isSettled_initial
    (Path.tokens (pathData tag)) event hevent
  cases event with
  | drawn s =>
    cases he
    exact hdrawable
  | done command relative taken pen => cases he
  | unsupported name =>
    cases he
    exact True.intro

theorem path_succeeds_iff {v : Viewport} {steps : ℤ} (hv : v.IsSound) (hsteps : 0 < steps)
    (tag : Text) :
    (path v steps tag).Succeeds ↔
      ¬ Path.RunsAway v steps Path.Pen.initial (Path.tokens (pathData tag)) := by
  rw [← Path.interpret_succeeds_iff hv hsteps 0 Path.Pen.isSettled_initial]
  simp only [path]
  rw [Journal.succeeds_bind_iff]
  constructor
  · rintro ⟨progress, h, -⟩
    exact ⟨progress, h⟩
  · rintro ⟨progress, h⟩
    exact ⟨progress, h, Journal.succeeds_pure _⟩

/-- **Elements leave shapes whose numbers can be taken apart.** -/
theorem read_made (v : Viewport) (steps stacked : Int) (t : Text) (p : Nat)
    (kind : Markup.Kind) : (read v steps stacked t p kind).All Act.IsMade := by
  simp only [read]
  cases kind with
  | rect => exact (rect_made _ _).bind fun _ _ => Journal.all_pure _
  | circle => exact (circle_made _ _).bind fun _ _ => Journal.all_pure _
  | line => exact (line_made _ _).bind fun _ _ => Journal.all_pure _
  | ellipse => exact (ellipse_made _ _).bind fun _ _ => Journal.all_pure _
  | polyline => exact (drawJoins_made _ _ _).bind fun _ _ => Journal.all_pure _
  | polygon => exact (drawJoins_made _ _ _).bind fun _ _ => Journal.all_pure _
  | path => exact (path_made _ _ _).bind fun _ _ => Journal.all_pure _
  | text =>
    dsimp only
    split
    · exact text_made _ _ _ _
    · exact Journal.all_pure _
  | group => exact Journal.all_pure _
  | definitions => exact Journal.all_pure _

end Element

end VectorPaint
