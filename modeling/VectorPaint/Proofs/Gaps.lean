/-
# Numbers that are missing

A command of a path reads its numbers from the tokens behind it.  A token that is not there or
starts with no number is read as something that is not a number, and what is computed from it is
none either: no sum, product or quotient turns it into a number again, not even a product with
the zero that a curve's weight can be, and the lesser of two radii is none if one of them is.  So
every line of such a command ends nowhere (`Command.nowhere_of_draw`).

A line that ends nowhere has no pixel on any canvas.  So a command that lacks a number paints
nothing at all (`gaps_paint_nothing`).
-/
import VectorPaint.Proofs.Turns
import VectorPaint.Proofs.Paths

namespace VectorPaint

open Number

/-! ## 1. Coordinates -/

namespace Coord

variable {a b : Coord} {x y : Float}

theorem toFloat_isNaN (h : a.isNaN = true) (hx : a.toFloat = .ok x) : x.isNaN = true := by
  cases a with
  | whole n => cases h
  | real z =>
    cases hx
    exact h

/-- A coordinate that is not a number is not finite. -/
theorem not_isFinite_of_isNaN (h : a.isNaN = true) : ¬ a.IsFinite := by
  cases a with
  | whole n => cases h
  | real x =>
    intro hfinite
    have hx : x.isNaN = true := h
    rw [not_isNaN_of_isFinite hfinite] at hx
    cases hx

theorem isNaN_of_add_real (h : x.isNaN = true) (hb : (real x).add a = .ok b) :
    b.isNaN = true := by
  obtain ⟨_, hx, hb⟩ := of_bind_ok hb
  cases hx
  obtain ⟨y, -, hb⟩ := of_bind_ok hb
  cases hb
  exact isNaN_add (Or.inl h)

/-- Rounding to the device finds no number where there is none. -/
theorem isNaN_roundHalfUp (h : x.isNaN = true) : (roundHalfUp x).isNaN = true := by
  have hsum : (x + 0.5).isNaN = true := isNaN_add (Or.inl h)
  have hinfinite : ¬ (x + 0.5).isFinite := by
    intro hfinite
    rw [not_isNaN_of_isFinite hfinite] at hsum
    cases hsum
  rw [roundHalfUp, scaled?_of_not_isFinite hinfinite]
  exact h

end Coord

namespace Viewport

variable {v : Viewport} {a b : Coord}

theorem isNaN_of_scale {side : ℤ} {viewSide : Float} (h : a.isNaN = true)
    (hb : scale side viewSide a = .ok b) : b.isNaN = true := by
  cases a with
  | whole n => cases h
  | real x =>
    obtain ⟨product, hproduct, hb⟩ := of_bind_ok hb
    obtain ⟨_, hx, hproduct⟩ := of_bind_ok hproduct
    cases hx
    obtain ⟨s, -, hproduct⟩ := of_bind_ok hproduct
    cases hproduct
    obtain ⟨q, hq, hb⟩ := of_bind_ok hb
    cases hb
    obtain ⟨_, hx, hq⟩ := of_bind_ok hq
    cases hx
    split at hq
    · cases hq
    · cases hq
      exact Coord.isNaN_roundHalfUp (isNaN_div (isNaN_mul (Or.inl h)))

/-- A radius that is not a number stays none. -/
theorem isNaN_of_scaleRadius {r x : Float} (h : r.isNaN = true)
    (hx : v.scaleRadius (.real r) = .ok x) : x.isNaN = true := by
  obtain ⟨ratio, -, hx⟩ := of_bind_ok hx
  obtain ⟨_, hr, hx⟩ := of_bind_ok hx
  cases hr
  cases hx
  exact isNaN_mul (Or.inl h)

end Viewport

/-! ## 2. Curves to nowhere -/

namespace Curve

/-- A point with a coordinate that is not a number. -/
def Nowhere (p : Point) : Prop := p.1.isNaN = true ∨ p.2.isNaN = true

variable {p0 p1 p2 p3 : Point} {steps : ℤ} {points : List Point}

theorem Nowhere.floats {p : Point} (h : Nowhere p) {x y : Float} (hp : floats p = .ok (x, y)) :
    x.isNaN = true ∨ y.isNaN = true := by
  obtain ⟨_, hx, hp⟩ := of_bind_ok hp
  obtain ⟨_, hy, hp⟩ := of_bind_ok hp
  cases hp
  exact h.imp (Coord.toFloat_isNaN · hx) (Coord.toFloat_isNaN · hy)

/-- A weighted coordinate that is not a number leaves no number in a quadratic curve. -/
theorem isNaN_quadraticAt {x0 x1 x2 : Float} (h : x1.isNaN = true ∨ x2.isNaN = true) (u : Float) :
    (quadraticAt x0 x1 x2 u).isNaN = true := by
  rcases h with h | h
  · exact isNaN_add (Or.inl (isNaN_add (Or.inr (isNaN_mul (Or.inr h)))))
  · exact isNaN_add (Or.inr (isNaN_mul (Or.inr h)))

theorem isNaN_cubicAt {x0 x1 x2 x3 : Float}
    (h : x1.isNaN = true ∨ x2.isNaN = true ∨ x3.isNaN = true) (u : Float) :
    (cubicAt x0 x1 x2 x3 u).isNaN = true := by
  rcases h with h | h | h
  · exact isNaN_add (Or.inl (isNaN_add (Or.inl (isNaN_add (Or.inr (isNaN_mul (Or.inr h)))))))
  · exact isNaN_add (Or.inl (isNaN_add (Or.inr (isNaN_mul (Or.inr h)))))
  · exact isNaN_add (Or.inr (isNaN_mul (Or.inr h)))

theorem nowhere_sample {steps : Nat} {x y : Float → Float}
    (h : (∀ u, (x u).isNaN = true) ∨ ∀ u, (y u).isNaN = true) :
    ∀ p ∈ sample steps x y, Nowhere p := by
  intro p hp
  obtain ⟨taken, -, rfl⟩ := List.mem_map.mp hp
  exact h.imp (fun hx => Coord.isNaN_roundHalfUp (hx _)) fun hy => Coord.isNaN_roundHalfUp (hy _)

/-- **A quadratic curve with a point nowhere is nowhere.** -/
theorem nowhere_of_quadratic (h : Nowhere p1 ∨ Nowhere p2)
    (hpoints : quadratic p0 p1 p2 steps = .ok points) : ∀ p ∈ points, Nowhere p := by
  simp only [quadratic] at hpoints
  split at hpoints
  · cases hpoints
    intro p hp
    exact absurd hp List.not_mem_nil
  · obtain ⟨⟨x0, y0⟩, -, hpoints⟩ := of_bind_ok hpoints
    obtain ⟨⟨x1, y1⟩, h1, hpoints⟩ := of_bind_ok hpoints
    obtain ⟨⟨x2, y2⟩, h2, hpoints⟩ := of_bind_ok hpoints
    cases hpoints
    refine nowhere_sample ?_
    rcases h with h | h
    · exact (h.floats h1).imp (fun hx => isNaN_quadraticAt (Or.inl hx))
        fun hy => isNaN_quadraticAt (Or.inl hy)
    · exact (h.floats h2).imp (fun hx => isNaN_quadraticAt (Or.inr hx))
        fun hy => isNaN_quadraticAt (Or.inr hy)

/-- **A cubic curve with a point nowhere is nowhere.** -/
theorem nowhere_of_cubic (h : Nowhere p1 ∨ Nowhere p2 ∨ Nowhere p3)
    (hpoints : cubic p0 p1 p2 p3 steps = .ok points) : ∀ p ∈ points, Nowhere p := by
  simp only [cubic] at hpoints
  split at hpoints
  · cases hpoints
    intro p hp
    exact absurd hp List.not_mem_nil
  · obtain ⟨⟨x0, y0⟩, -, hpoints⟩ := of_bind_ok hpoints
    obtain ⟨⟨x1, y1⟩, h1, hpoints⟩ := of_bind_ok hpoints
    obtain ⟨⟨x2, y2⟩, h2, hpoints⟩ := of_bind_ok hpoints
    obtain ⟨⟨x3, y3⟩, h3, hpoints⟩ := of_bind_ok hpoints
    cases hpoints
    refine nowhere_sample ?_
    rcases h with h | h | h
    · exact (h.floats h1).imp (fun hx => isNaN_cubicAt (Or.inl hx))
        fun hy => isNaN_cubicAt (Or.inl hy)
    · exact (h.floats h2).imp (fun hx => isNaN_cubicAt (Or.inr (Or.inl hx)))
        fun hy => isNaN_cubicAt (Or.inr (Or.inl hy))
    · exact (h.floats h3).imp (fun hx => isNaN_cubicAt (Or.inr (Or.inr hx)))
        fun hy => isNaN_cubicAt (Or.inr (Or.inr hy))

theorem isNaN_of_middle {a b : Coord} (h : b.isNaN = true) {x : Float} (hx : middle a b = .ok x) :
    x.isNaN = true := by
  obtain ⟨sum, hsum, hx⟩ := of_bind_ok hx
  cases b with
  | whole n => cases h
  | real y =>
    have hreal : ∃ z : Float, sum = .real (z + y) := by
      cases a with
      | whole m =>
        obtain ⟨z, -, hsum⟩ := of_bind_ok hsum
        cases hsum
        exact ⟨z, rfl⟩
      | real z =>
        cases hsum
        exact ⟨z, rfl⟩
    obtain ⟨z, rfl⟩ := hreal
    cases hx
    exact isNaN_div (isNaN_add (Or.inr h))

/-- **An arc to nowhere is nowhere,** and so is one without a radius. -/
theorem nowhere_of_arc {radius : Coord} (h : Nowhere p1 ∨ radius.isNaN = true)
    (hpoints : arc p0 p1 radius steps = .ok points) : ∀ p ∈ points, Nowhere p := by
  obtain ⟨cx, hcx, hpoints⟩ := of_bind_ok hpoints
  obtain ⟨cy, hcy, hpoints⟩ := of_bind_ok hpoints
  obtain ⟨first, -, hpoints⟩ := of_bind_ok hpoints
  obtain ⟨last, -, hpoints⟩ := of_bind_ok hpoints
  dsimp only at hpoints
  split at hpoints
  · cases hpoints
    intro p hp
    exact absurd hp List.not_mem_nil
  · obtain ⟨r, hr, hpoints⟩ := of_bind_ok hpoints
    cases hpoints
    intro p hp
    obtain ⟨taken, -, rfl⟩ := List.mem_map.mp hp
    rcases h with (h | h) | h
    · exact Or.inl (Coord.isNaN_roundHalfUp (isNaN_add (Or.inl (isNaN_of_middle h hcx))))
    · exact Or.inr (Coord.isNaN_roundHalfUp (isNaN_add (Or.inl (isNaN_of_middle h hcy))))
    · have hr' := Coord.toFloat_isNaN h hr
      exact Or.inl (Coord.isNaN_roundHalfUp (isNaN_add (Or.inr (isNaN_mul (Or.inl hr')))))

/-- A chain through points nowhere has no line that ends anywhere. -/
theorem nowhere_chain (start : Point) (h : ∀ p ∈ points, Nowhere p) :
    ∀ s ∈ chain start points, Nowhere s.stop := by
  induction points generalizing start with
  | nil =>
    intro s hs
    exact absurd hs List.not_mem_nil
  | cons p rest ih =>
    intro s hs
    rcases List.mem_cons.mp hs with rfl | hs
    · exact h p List.mem_cons_self
    · exact ih p (fun q hq => h q (List.mem_cons_of_mem _ hq)) s hs

end Curve

/-! ## 3. Lines to nowhere -/

/-- A line with an end nowhere paints nothing, on no canvas and in no color. -/
theorem Canvas.paint_unknown {s : Curve.Segment} (hs : Path.IsDrawable s)
    (h : Curve.Nowhere s.start ∨ Curve.Nowhere s.stop) (c : Canvas) (color : ℤ) :
    c.paint ⟨.line s.start s.stop, color⟩ = .ok c := by
  have hconvertible : ∀ a ∈ [s.start.1, s.start.2, s.stop.1, s.stop.2], a.IsConvertible := by
    simp only [List.mem_cons, List.not_mem_nil, or_false]
    rintro a (rfl | rfl | rfl | rfl)
    exacts [hs.1.1, hs.1.2, hs.2.1, hs.2.2]
  have hpixels : Raster.pixels Raster.enoughHalvings c.width c.height s.start s.stop = .ok [] := by
    rw [Raster.pixels_eq]
    rcases Coord.allFinite_ok hconvertible with ⟨hfinite, -⟩ | ⟨-, hall⟩
    · exact bind_ok hfinite rfl
    · have hnumber : ∀ a ∈ [s.start.1, s.start.2, s.stop.1, s.stop.2], ¬ a.isNaN = true :=
        fun a ha hnan => Coord.not_isFinite_of_isNaN hnan (hall a ha)
      rcases h with (h | h) | h | h
      · exact absurd h (hnumber s.start.1 (by simp))
      · exact absurd h (hnumber s.start.2 (by simp))
      · exact absurd h (hnumber s.stop.1 (by simp))
      · exact absurd h (hnumber s.stop.2 (by simp))
  exact bind_ok (bind_ok hpixels rfl) rfl

/-- **A line that ends nowhere paints nothing,** on no canvas and in no color. -/
theorem Canvas.paint_nowhere {s : Curve.Segment} (hs : Path.IsDrawable s)
    (h : Curve.Nowhere s.stop) (c : Canvas) (color : ℤ) :
    c.paint ⟨.line s.start s.stop, color⟩ = .ok c :=
  Canvas.paint_unknown hs (Or.inr h) c color

namespace Path

open Curve (Nowhere Segment)

variable {v : Viewport} {steps : ℤ} {pen next : Pen} {relative : Bool} {arg : Nat → Float}
  {command : Command} {segments : List Segment} {x y : Float} {p : Point}

/-! ## 4. Commands that lack a number -/

/-- The places of the numbers that a command reads.  An arc passes over three tokens. -/
def Command.reads : Command → List Nat
  | .arc => [0, 1, 5, 6]
  | command => List.range command.arity

theorem isNaN_of_offset {a base : Coord} (h : x.isNaN = true)
    (ha : offset relative x base = .ok a) : a.isNaN = true := by
  cases relative with
  | true => exact Coord.isNaN_of_add_real h ha
  | false =>
    cases ha
    exact h

theorem nowhere_of_scalePoint {a b : Coord} (h : a.isNaN = true ∨ b.isNaN = true)
    (hp : v.scalePoint a b = .ok p) : Nowhere p := by
  obtain ⟨_, hx, hp⟩ := of_bind_ok hp
  obtain ⟨_, hy, hp⟩ := of_bind_ok hp
  cases hp
  exact h.imp (Viewport.isNaN_of_scale · hx) (Viewport.isNaN_of_scale · hy)

theorem nowhere_of_target (h : x.isNaN = true ∨ y.isNaN = true)
    (hp : target v pen relative x y = .ok p) : Nowhere p := by
  obtain ⟨_, hx, hp⟩ := of_bind_ok hp
  obtain ⟨_, hy, hp⟩ := of_bind_ok hp
  exact nowhere_of_scalePoint (h.imp (isNaN_of_offset · hx) (isNaN_of_offset · hy)) hp

theorem nowhere_of_point (h : x.isNaN = true ∨ y.isNaN = true) (hp : point v x y = .ok p) :
    Nowhere p := nowhere_of_scalePoint (a := .real x) (b := .real y) h hp

/-- There is no lesser radius where one of the two is none. -/
theorem isNaN_lesserRadius (h : x.isNaN = true ∨ y.isNaN = true) :
    (lesserRadius x y).isNaN = true := by
  rw [lesserRadius, if_pos (Bool.or_eq_true _ _ ▸ h)]
  decide +kernel

theorem nowhere_of_drawCubic {p1 p2 stop : Point} (h : Nowhere p1 ∨ Nowhere p2 ∨ Nowhere stop)
    (hdraw : drawCubic steps pen p1 p2 stop = .ok (segments, next)) :
    ∀ s ∈ segments, Nowhere s.stop := by
  obtain ⟨points, hpoints, hdraw⟩ := of_bind_ok hdraw
  cases hdraw
  exact Curve.nowhere_chain _ (Curve.nowhere_of_cubic h hpoints)

/-- **A command that reads something that is not a number draws to nowhere only.** -/
theorem Command.nowhere_of_draw {place : Nat} (hplace : place ∈ command.reads)
    (h : (arg place).isNaN = true)
    (hdraw : command.draw v steps pen relative arg = .ok (segments, next)) :
    ∀ s ∈ segments, Nowhere s.stop := by
  have hline : ∀ {p : Point}, Nowhere p → ∀ s ∈ [pen.lineTo p], Nowhere s.stop := by
    intro p hp s hs
    rw [List.mem_singleton.mp hs]
    exact hp
  cases command with
  | move =>
    obtain ⟨_, -, hdraw⟩ := of_bind_ok hdraw
    cases hdraw
    exact fun s hs => absurd hs List.not_mem_nil
  | line =>
    obtain ⟨p, hp, hdraw⟩ := of_bind_ok hdraw
    cases hdraw
    have hplace : place < 2 := List.mem_range.mp hplace
    refine hline (nowhere_of_target ?_ hp)
    interval_cases place
    exacts [Or.inl h, Or.inr h]
  | horizontal =>
    obtain ⟨_, hoffset, hdraw⟩ := of_bind_ok hdraw
    obtain ⟨x, hx, hdraw⟩ := of_bind_ok hdraw
    cases hdraw
    rw [Nat.lt_one_iff.mp (List.mem_range.mp hplace)] at h
    exact hline (Or.inl (Viewport.isNaN_of_scale (isNaN_of_offset h hoffset) hx))
  | vertical =>
    obtain ⟨_, hoffset, hdraw⟩ := of_bind_ok hdraw
    obtain ⟨y, hy, hdraw⟩ := of_bind_ok hdraw
    cases hdraw
    rw [Nat.lt_one_iff.mp (List.mem_range.mp hplace)] at h
    exact hline (Or.inr (Viewport.isNaN_of_scale (isNaN_of_offset h hoffset) hy))
  | close => exact absurd hplace List.not_mem_nil
  | cubic =>
    obtain ⟨p1, hp1, hdraw⟩ := of_bind_ok hdraw
    obtain ⟨p2, hp2, hdraw⟩ := of_bind_ok hdraw
    obtain ⟨stop, hstop, hdraw⟩ := of_bind_ok hdraw
    have hplace : place < 6 := List.mem_range.mp hplace
    refine nowhere_of_drawCubic ?_ hdraw
    interval_cases place
    exacts [Or.inl (nowhere_of_point (Or.inl h) hp1), Or.inl (nowhere_of_point (Or.inr h) hp1),
      Or.inr (Or.inl (nowhere_of_point (Or.inl h) hp2)),
      Or.inr (Or.inl (nowhere_of_point (Or.inr h) hp2)),
      Or.inr (Or.inr (nowhere_of_point (Or.inl h) hstop)),
      Or.inr (Or.inr (nowhere_of_point (Or.inr h) hstop))]
  | smooth =>
    obtain ⟨p1, -, hdraw⟩ := of_bind_ok hdraw
    obtain ⟨p2, hp2, hdraw⟩ := of_bind_ok hdraw
    obtain ⟨stop, hstop, hdraw⟩ := of_bind_ok hdraw
    have hplace : place < 4 := List.mem_range.mp hplace
    refine nowhere_of_drawCubic (Or.inr ?_) hdraw
    interval_cases place
    exacts [Or.inl (nowhere_of_point (Or.inl h) hp2), Or.inl (nowhere_of_point (Or.inr h) hp2),
      Or.inr (nowhere_of_point (Or.inl h) hstop), Or.inr (nowhere_of_point (Or.inr h) hstop)]
  | quadratic =>
    obtain ⟨p1, hp1, hdraw⟩ := of_bind_ok hdraw
    obtain ⟨stop, hstop, hdraw⟩ := of_bind_ok hdraw
    obtain ⟨points, hpoints, hdraw⟩ := of_bind_ok hdraw
    cases hdraw
    have hplace : place < 4 := List.mem_range.mp hplace
    refine Curve.nowhere_chain _ (Curve.nowhere_of_quadratic ?_ hpoints)
    interval_cases place
    exacts [Or.inl (nowhere_of_point (Or.inl h) hp1), Or.inl (nowhere_of_point (Or.inr h) hp1),
      Or.inr (nowhere_of_point (Or.inl h) hstop), Or.inr (nowhere_of_point (Or.inr h) hstop)]
  | arc =>
    obtain ⟨stop, hstop, hdraw⟩ := of_bind_ok hdraw
    obtain ⟨radius, hradius, hdraw⟩ := of_bind_ok hdraw
    obtain ⟨points, hpoints, hdraw⟩ := of_bind_ok hdraw
    cases hdraw
    have hround : ∀ {rx ry : Float}, arg 0 = rx → arg 1 = ry → rx.isNaN = true ∨ ry.isNaN = true →
        (Coord.roundHalfUp radius).isNaN = true := by
      rintro _ _ rfl rfl hr
      exact Coord.isNaN_roundHalfUp (Viewport.isNaN_of_scaleRadius (isNaN_lesserRadius hr) hradius)
    refine Curve.nowhere_chain _ (Curve.nowhere_of_arc ?_ hpoints)
    simp only [reads, List.mem_cons, List.not_mem_nil, or_false] at hplace
    rcases hplace with rfl | rfl | rfl | rfl
    exacts [Or.inr (hround rfl rfl (Or.inl h)), Or.inr (hround rfl rfl (Or.inr h)),
      Or.inl (nowhere_of_point (Or.inl h) hstop), Or.inl (nowhere_of_point (Or.inr h) hstop)]

/-! ## 5. Runs -/

/-- A turn lacks a number: one that its command reads is missing, or the token in its place does
not start with a number, blanks aside. -/
def Turn.LacksNumber (t : Turn) : Prop :=
  ∃ command place, t.command? = some command ∧ place ∈ command.reads ∧
    ∀ token ∈ t.rest[place]?, Literal.scan? token.trimStart = none

theorem isNaN_argument {rest : List Text} {place : Nat}
    (h : ∀ token ∈ rest[place]?, Literal.scan? token.trimStart = none) :
    (argument rest place).isNaN = true := by
  have hnan : nan.isNaN = true := by decide +kernel
  unfold argument
  cases hrest : rest[place]? with
  | none => exact hnan
  | some token =>
    have hscan := h token hrest
    dsimp only
    unfold Number.read
    rw [hscan]
    exact hnan

/-- A turn that lacks a number draws to nowhere only. -/
theorem Turn.Comes.nowhere {t : Turn} {taken : Nat} {tokens rest : List Text}
    (h : t.Comes v steps taken pen tokens rest) (hlacks : t.LacksNumber) :
    ∀ s ∈ t.segments, Nowhere s.stop := by
  obtain ⟨command, place, hcommand, hplace, hmissing⟩ := hlacks
  cases h with
  | unsupported hname => exact fun s hs => absurd hs List.not_mem_nil
  | command hname hdraw =>
    cases hname.symm.trans hcommand
    exact Command.nowhere_of_draw hplace (isNaN_argument hmissing) hdraw

/-- A turn keeps the pen settled and draws lines that can be drawn. -/
theorem Turn.Comes.isSettled {t : Turn} {taken : Nat} {tokens rest : List Text}
    (h : t.Comes v steps taken pen tokens rest) (hpen : pen.IsSettled) :
    t.after.IsSettled ∧ ∀ s ∈ t.segments, IsDrawable s := by
  cases h with
  | unsupported hname => exact ⟨hpen.previous _, fun s hs => absurd hs List.not_mem_nil⟩
  | command hname hdraw =>
    obtain ⟨hnext, hsegments⟩ := settled_of_draw hpen hdraw
    exact ⟨hnext.previous _, hsegments⟩

theorem Pause.isSettled_of_reaches {tokens : List Text} {m : Pause}
    (h : (start tokens).Reaches v steps m) : m.pen.IsSettled := by
  induction h with
  | refl => exact Pen.isSettled_initial
  | tail _ hstep ih =>
    obtain ⟨hcomes⟩ := hstep
    exact (hcomes.isSettled ih).1

/-- **A command that lacks a number paints nothing.**  A run without a fault is cut into its turns.
In any run, with a fault or without, every line of a turn that lacks a number has a coordinate
that is not a number, and leaves every canvas as it was. -/
theorem gaps_paint_nothing (v : Viewport) (steps : ℤ) (data : Text) :
    (∀ p, (run v steps data).outcome = .ok p →
      ∃ m, (Pause.start (tokens data)).Reaches v steps m ∧ m.rest = [] ∧
        (run v steps data).entries = m.events) ∧
    ∀ m, (Pause.start (tokens data)).Reaches v steps m → ∀ t ∈ m.turns, t.LacksNumber →
      ∀ s ∈ t.segments, Nowhere s.stop ∧
        ∀ (c : Canvas) (color : ℤ), c.paint ⟨.line s.start s.stop, color⟩ = .ok c := by
  refine ⟨fun p hp => ?_, fun m hm t ht hlacks s hs => ?_⟩
  · obtain ⟨m, hreaches, hrest, -, hentries⟩ := Pause.exists_entries hp
    exact ⟨m, hreaches, hrest, hentries⟩
  · obtain ⟨before, rest, hreaches, hcomes⟩ := Pause.exists_comes_of_mem hm ht
    have hdrawable := (hcomes.isSettled (Pause.isSettled_of_reaches hreaches)).2 s hs
    have hnowhere := hcomes.nowhere hlacks s hs
    exact ⟨hnowhere, Canvas.paint_nowhere hdrawable hnowhere⟩

/-- A move, and a quadratic curve with a word among its numbers and without its last one. -/
def brokenPath : Text := "M 1 2 Q 3 four 5".toList

theorem gaps_paint_nothing_brokenPath :
    let v : Viewport := ⟨160, 120, 160.0, 120.0⟩
    let m := (Pause.start (tokens brokenPath)).advance v 2 2
    ∃ t ∈ m.turns, t.LacksNumber ∧ t.segments.length = 3 ∧
      ∀ s ∈ t.segments, Nowhere s.stop ∧
        ∀ (c : Canvas) (color : ℤ), c.paint ⟨.line s.start s.stop, color⟩ = .ok c := by
  intro v m
  have hturn : (m.turns.head?.map fun t => (t.token, t.rest, t.segments.length)) =
      some (['Q'], [['3'], "four".toList, ['5']], 3) := by
    decide +kernel
  obtain ⟨t, ht, htoken⟩ := Option.map_eq_some_iff.mp hturn
  simp only [Prod.mk.injEq] at htoken
  obtain ⟨htoken, hrest, hlength⟩ := htoken
  have hmem : t ∈ m.turns := List.mem_of_mem_head? ht
  have hlacks : t.LacksNumber := by
    refine ⟨.quadratic, 1, ?_, by decide, ?_⟩
    · rw [Turn.command?, htoken]
      decide
    · rw [hrest]
      decide
  exact ⟨t, hmem, hlacks, hlength,
    (gaps_paint_nothing v 2 brokenPath).2 m (Pause.reaches_advance 2 _) t hmem hlacks⟩

end Path

end VectorPaint
