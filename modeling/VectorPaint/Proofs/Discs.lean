/-
# Which pixels a disc paints

A disc is filled from the pixels of the square around it that lie on the canvas: a pixel is
painted if the square of its distance to the center is at most the square of the radius.  The
first square is computed in machine words of 64 bits, the second is not bounded.

So the square of the distance is known only up to multiples of 2 to the 64.  In the square around
the disc it is at most twice the square of the radius (`distanceSquared_le`), and this has two
consequences.  Where it fits a machine word, the comparison is the right one.  Where it does not,
the comparison always succeeds: what the word holds then is either negative or less than 2 to the
63, and the square of the radius is at least that by then (`wordOf_le_iff`).

A disc therefore paints itself, and in addition every pixel of its square whose squared distance
does not fit a word (`paint_disc`).  With a radius below 2 to the 31 there are none, and from there
on there are some (`paint_disc_not_exact`).
-/
import VectorPaint.Proofs.Shapes

namespace VectorPaint

open Number

namespace Shape

/-! ## 1. Distances in machine words -/

/-- The square of the distance between a pixel and a center. -/
def distanceSquared (center p : Pixel) : ℤ := (p.1 - center.1) ^ 2 + (p.2 - center.2) ^ 2

/-- The pixels of a disc. -/
def InDisc (center : Pixel) (r : ℤ) (p : Pixel) : Prop :=
  0 ≤ r ∧ distanceSquared center p ≤ r ^ 2

/-- The pixels of the square around a disc. -/
def InSquare (center : Pixel) (r : ℤ) (p : Pixel) : Prop :=
  |p.1 - center.1| ≤ r ∧ |p.2 - center.2| ≤ r

instance (center : Pixel) (r : ℤ) (p : Pixel) : Decidable (InDisc center r p) :=
  inferInstanceAs (Decidable (_ ∧ _))

instance (center : Pixel) (r : ℤ) (p : Pixel) : Decidable (InSquare center r p) :=
  inferInstanceAs (Decidable (_ ∧ _))

section Distances

variable {center p : Pixel} {r : ℤ}

theorem distanceSquared_nonneg (center p : Pixel) : 0 ≤ distanceSquared center p :=
  add_nonneg (sq_nonneg _) (sq_nonneg _)

/-- A disc lies in its square. -/
theorem InDisc.inSquare (h : InDisc center r p) : InSquare center r p := by
  obtain ⟨hr, hle⟩ := h
  have h1 := sq_nonneg (p.1 - center.1)
  have h2 := sq_nonneg (p.2 - center.2)
  unfold distanceSquared at hle
  exact ⟨abs_le_of_sq_le_sq (by omega) hr, abs_le_of_sq_le_sq (by omega) hr⟩

theorem distanceSquared_le (h : InSquare center r p) : distanceSquared center p ≤ 2 * r ^ 2 := by
  have h1 := sq_le_sq' (abs_le.mp h.1).1 (abs_le.mp h.1).2
  have h2 := sq_le_sq' (abs_le.mp h.2).1 (abs_le.mp h.2).2
  unfold distanceSquared
  omega

/-- Every word on the way may be replaced by the number that it holds. -/
theorem squaredDistance_eq (center p : Pixel) :
    squaredDistance center p = wordOf (distanceSquared center p) := by
  unfold squaredDistance distanceSquared wordOf
  simp only [Int.bmod_add_bmod, Int.add_bmod_bmod, Int.bmod_mul_bmod, Int.mul_bmod_bmod, sq]

theorem wordOf_lt (n : ℤ) : wordOf n < 2 ^ 63 := by
  have := Int.bmod_lt (x := n) (m := 0x10000000000000000) (by decide)
  unfold wordOf
  omega

/-- A number between the words and twice their range is held as a negative word. -/
theorem wordOf_neg {n : ℤ} (hlow : 2 ^ 63 ≤ n) (hhigh : n < 2 ^ 64) : wordOf n < 0 := by
  have hword : wordOf n = n - 2 ^ 64 := by
    unfold wordOf
    rw [Int.bmod_eq_iff (by decide)]
    refine ⟨by omega, by omega, ?_⟩
    norm_num
  omega

/-- **The comparison of a word with a square**, for a number of at most twice the square. -/
theorem wordOf_le_iff {n s : ℤ} (hn : 0 ≤ n) (hle : n ≤ 2 * s) :
    wordOf n ≤ s ↔ n ≤ s ∨ 2 ^ 63 ≤ n := by
  by_cases hword : n < 2 ^ 63
  · have hfits : wordOf n = n := beq_iff_eq.mp (fitsWord_iff.mpr ⟨by omega, hword⟩)
    rw [hfits]
    omega
  refine iff_of_true ?_ (Or.inr (by omega))
  by_cases hhigh : n < 2 ^ 64
  · have := wordOf_neg (by omega) hhigh
    omega
  · have := wordOf_lt n
    omega

end Distances

/-! ## 2. The pixels of a disc -/

/-- Whole numbers are finite if they can be asked at all. -/
theorem allFinite_whole {l : List ℤ} {b : Bool}
    (h : Coord.allFinite (l.map .whole) = .ok b) : b = true := by
  induction l with
  | nil =>
    cases h
    rfl
  | cons n l ih =>
    rw [List.map_cons, Coord.allFinite_cons] at h
    obtain ⟨finite, hfinite, h⟩ := of_bind_ok h
    have htrue : finite = true := by
      change (ofWhole n).map _ = _ at hfinite
      cases hn : ofWhole n with
      | error fault =>
        rw [hn] at hfinite
        cases hfinite
      | ok x =>
        rw [hn] at hfinite
        cases hfinite
        rfl
    rw [htrue] at h
    exact ih h

/-- **The pixels of a disc on the canvas** are those of the disc, and those of its square that are
too far away for a word. -/
theorem mem_discPixels {w h cx cy r : ℤ} {found : Option (List Pixel)}
    (hfound : discPixels w h (.whole cx) (.whole cy) (.whole r) = .ok found) {p : Pixel}
    (hp : 0 ≤ p.1 ∧ p.1 < w ∧ 0 ≤ p.2 ∧ p.2 < h) :
    p ∈ found.getD [] ↔ InDisc (cx, cy) r p ∨
      InSquare (cx, cy) r p ∧ 2 ^ 63 ≤ distanceSquared (cx, cy) p := by
  have hsquare : InSquare (cx, cy) r p ↔
      cx - r ≤ p.1 ∧ p.1 < cx + r + 1 ∧ cy - r ≤ p.2 ∧ p.2 < cy + r + 1 := by
    unfold InSquare
    rw [abs_le, abs_le]
    omega
  have hfinite : Coord.allFinite [.whole cx, .whole cy, .whole r] = .ok true := by
    obtain ⟨b, hb, -⟩ := of_bind_ok hfound
    rw [hb, allFinite_whole (l := [cx, cy, r]) hb]
  rw [discPixels_whole hfinite] at hfound
  -- Without a square that meets the canvas there are no pixels, and none are asked for.
  have hnone : ¬ InSquare (cx, cy) r p → (p ∈ (none : Option (List Pixel)).getD [] ↔
      InDisc (cx, cy) r p ∨ InSquare (cx, cy) r p ∧ 2 ^ 63 ≤ distanceSquared (cx, cy) p) := by
    intro hout
    refine iff_of_false List.not_mem_nil ?_
    rintro (hdisc | ⟨hin, -⟩)
    · exact hout hdisc.inSquare
    · exact hout hin
  split at hfound
  · rename_i hnegative
    cases hfound
    have := Coord.whole_lt_iff.mp hnegative
    exact hnone (hsquare.not.mpr (by omega))
  rename_i hradius
  have hr : 0 ≤ r := not_lt.mp (Coord.whole_lt_iff.not.mp hradius)
  split at hfound
  · rename_i hempty
    cases hfound
    exact hnone (hsquare.not.mpr (by omega))
  split at hfound
  · cases hfound
  cases hfound
  rw [Option.getD_some, List.mem_filter, Canvas.mem_box, decide_eq_true_iff, squaredDistance_eq]
  have hbox : (max 0 (cx - r) ≤ p.1 ∧ p.1 < min w (cx + r + 1) ∧ max 0 (cy - r) ≤ p.2 ∧
      p.2 < min h (cy + r + 1)) ↔ InSquare (cx, cy) r p := by
    rw [hsquare]
    omega
  rw [hbox]
  constructor
  · rintro ⟨hin, hle⟩
    rcases (wordOf_le_iff (distanceSquared_nonneg _ _)
      (by linarith [distanceSquared_le hin])).mp hle with hnear | hfar
    · exact Or.inl ⟨hr, by linarith⟩
    · exact Or.inr ⟨hin, hfar⟩
  · intro h
    have hin : InSquare (cx, cy) r p := h.elim InDisc.inSquare And.left
    refine ⟨hin, (wordOf_le_iff (distanceSquared_nonneg _ _)
      (by linarith [distanceSquared_le hin])).mpr ?_⟩
    exact h.imp (fun hdisc => by linarith [hdisc.2]) And.right

end Shape

namespace Canvas

variable {c c' : Canvas} {color : ℤ}

/-- A shape that is painted writes its color to the pixels it covers. -/
theorem get_of_paint {shape : Shape} (hcolor : 0 ≤ color ∧ color ≤ 255)
    (h : c.paint ⟨shape, color⟩ = .ok c') :
    ∃ found, shape.coverage c.width c.height = .ok found ∧ c'.width = c.width ∧
      c'.height = c.height ∧ ∀ p, c'.get p =
        if p ∈ found.getD [] ∧ c.holds p = true then color.toNat.toUInt8 else c.get p := by
  obtain ⟨found, hfound, h⟩ := of_bind_ok h
  refine ⟨found, hfound, ?_⟩
  cases found with
  | none =>
    cases h
    refine ⟨rfl, rfl, fun p => ?_⟩
    rw [if_neg fun hp => List.not_mem_nil hp.1]
  | some pixels =>
    have hink : ink color = .ok color.toNat.toUInt8 := if_pos hcolor
    rw [hink] at h
    cases h
    exact ⟨width_plot .., height_plot .., fun p => get_plot ..⟩

/-! ## 3. The painted disc -/

/-- **What a disc paints.**  The size of the canvas stays.  A pixel of it has the color afterwards
if it lies in the disc, or in the square around it with a squared distance from the center that
fits no machine word; all other pixels stay.  A disc whose radius is below 2 to the 31 has no such
pixels, so it paints exactly itself. -/
theorem paint_disc {cx cy r : ℤ} (hcolor : 0 ≤ color ∧ color ≤ 255)
    (h : c.paint ⟨.disc (.whole cx) (.whole cy) (.whole r), color⟩ = .ok c') :
    c'.width = c.width ∧ c'.height = c.height ∧
      (∀ p, c'.get p =
        if c.holds p = true ∧ (Shape.InDisc (cx, cy) r p ∨
          Shape.InSquare (cx, cy) r p ∧ 2 ^ 63 ≤ Shape.distanceSquared (cx, cy) p)
        then color.toNat.toUInt8 else c.get p) ∧
      (r < 2 ^ 31 → ∀ p, c'.get p =
        if c.holds p = true ∧ Shape.InDisc (cx, cy) r p
        then color.toNat.toUInt8 else c.get p) := by
  obtain ⟨found, hfound, hwidth, hheight, hget⟩ := get_of_paint hcolor h
  have hpainted : ∀ p, c'.get p =
      if c.holds p = true ∧ (Shape.InDisc (cx, cy) r p ∨
        Shape.InSquare (cx, cy) r p ∧ 2 ^ 63 ≤ Shape.distanceSquared (cx, cy) p)
      then color.toNat.toUInt8 else c.get p := by
    intro p
    have hmem : (p ∈ found.getD [] ∧ c.holds p = true) ↔ (c.holds p = true ∧
        (Shape.InDisc (cx, cy) r p ∨
          Shape.InSquare (cx, cy) r p ∧ 2 ^ 63 ≤ Shape.distanceSquared (cx, cy) p)) := by
      rw [and_comm]
      exact and_congr_right fun hp => Shape.mem_discPixels hfound (holds_iff.mp hp)
    rw [hget p]
    exact if_congr hmem rfl rfl
  refine ⟨hwidth, hheight, hpainted, fun hsmall p => ?_⟩
  have hnear : (c.holds p = true ∧ (Shape.InDisc (cx, cy) r p ∨
      Shape.InSquare (cx, cy) r p ∧ 2 ^ 63 ≤ Shape.distanceSquared (cx, cy) p)) ↔
      (c.holds p = true ∧ Shape.InDisc (cx, cy) r p) := by
    refine and_congr_right fun _ => ⟨?_, Or.inl⟩
    rintro (hdisc | ⟨hin, hfar⟩)
    · exact hdisc
    · have hr : 0 ≤ r := (abs_nonneg _).trans hin.1
      have hsquare : r ^ 2 ≤ (2 ^ 31 - 1) ^ 2 := pow_le_pow_left₀ hr (by omega) 2
      have := Shape.distanceSquared_le hin
      omega
  rw [hpainted p]
  exact if_congr hnear rfl rfl

/-- A disc of radius 2 at the left border. -/
theorem paint_disc_atBorder :
    ∃ c', (blank 4 5).paint ⟨.disc (.whole 0) (.whole 2) (.whole 2), 3⟩ = .ok c' ∧
      c'.get (2, 2) = 3 ∧ c'.get (2, 3) = 0 ∧ c'.get (1, 3) = 3 := by
  have hpaint : (blank 4 5).paint ⟨.disc (.whole 0) (.whole 2) (.whole 2), 3⟩ =
      .ok ((blank 4 5).plot [(0, 0), (0, 1), (1, 1), (0, 2), (1, 2), (2, 2), (0, 3), (1, 3),
        (0, 4)] 3) := bind_ok (a := some _) (by decide +kernel) rfl
  obtain ⟨-, -, -, hexact⟩ := paint_disc (by decide) hpaint
  refine ⟨_, hpaint, ?_, ?_, ?_⟩ <;> rw [hexact (by decide)] <;> decide

/-- **From a radius of 2 to the 31 on a disc paints too much.**  The only pixel of the canvas lies
in a corner of the square, at a squared distance of 2 to the 63, which is held as a negative
word. -/
theorem paint_disc_not_exact :
    ∃ c', (blank 1 1).paint ⟨.disc (.whole (2 ^ 31)) (.whole (2 ^ 31)) (.whole (2 ^ 31)), 1⟩ =
        .ok c' ∧
      (blank 1 1).get (0, 0) = 0 ∧ c'.get (0, 0) = 1 ∧
      ¬ Shape.InDisc (2 ^ 31, 2 ^ 31) (2 ^ 31) (0, 0) := by
  refine ⟨(blank 1 1).plot [(0, 0)] 1, bind_ok (a := some [(0, 0)]) (by decide +kernel) rfl, ?_,
    ?_, ?_⟩ <;> decide

end Canvas

end VectorPaint
