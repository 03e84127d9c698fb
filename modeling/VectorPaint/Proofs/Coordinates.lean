/-
# Coordinates that can be used

Arithmetic on coordinates fails where a whole number beyond the range of the floats has to become
a float.  Rounding to the device leaves no such number: a coordinate of the device is a whole
number within the range, or a float that is not finite and stays one (`IsSettled`).  So a viewport
with a view box of finite positive sides carries every number of a document across, whatever the
number is (`scaleX_ok`, `scaleY_ok`), and every viewport that a document is read for is of that
kind (`isSound_ofText`).
-/
import VectorPaint.Proofs.Nesting
import VectorPaint.Proofs.Float.Order

namespace VectorPaint

open Number

/-- A composed computation has a value where both parts have one. -/
theorem bind_ok {α β : Type} {r : Except Fault α} {f : α → Except Fault β} {a : α} {b : β}
    (h : r = .ok a) (hf : f a = .ok b) : r >>= f = .ok b := by
  rw [h]
  exact hf

theorem of_bind_ok {α β : Type} {r : Except Fault α} {f : α → Except Fault β} {b : β}
    (h : r >>= f = .ok b) : ∃ a, r = .ok a ∧ f a = .ok b := by
  cases r with
  | ok a => exact ⟨a, rfl, h⟩
  | error fault => cases h

theorem exists_ok_of_isSome {α : Type} {r : Except Fault α} (h : r.toOption.isSome) :
    ∃ a, r = .ok a := by
  cases r with
  | ok a => exact ⟨a, rfl⟩
  | error fault => cases h

theorem exists_bind_ok {α β : Type} {r : Except Fault α} {f : α → Except Fault β} {a : α}
    (h : r = .ok a) (hf : ∃ b, f a = .ok b) : ∃ b, r >>= f = .ok b := by
  obtain ⟨b, hb⟩ := hf
  exact ⟨b, bind_ok h hb⟩

namespace Coord

/-! ## 1. Finite coordinates -/

/-- The number that a coordinate is, if it is finite. -/
def value : Coord → ℚ
  | .whole n => n
  | .real x => Number.value x

/-- A whole number within the range of the floats, or a finite float. -/
def IsFinite : Coord → Prop
  | .whole n => |(n : ℚ)| < overflow
  | .real x => x.isFinite

/-- A coordinate that can become a float. -/
def IsConvertible : Coord → Prop
  | .whole n => |(n : ℚ)| < overflow
  | .real _ => True

/-- What rounding to the device leaves. -/
def IsSettled : Coord → Prop
  | .whole n => |(n : ℚ)| < overflow
  | .real x => ¬ x.isFinite

variable {a b : Coord}

theorem IsSettled.isConvertible (h : a.IsSettled) : a.IsConvertible := by
  cases a with
  | whole n => exact h
  | real x => trivial

theorem IsConvertible.toFloat_ok (h : a.IsConvertible) : ∃ x, a.toFloat = .ok x := by
  cases a with
  | whole n =>
    obtain ⟨x, hx, -⟩ := ofWhole_of_lt h
    exact ⟨x, hx⟩
  | real x => exact ⟨x, rfl⟩

/-- A whole number beyond the range becomes no float. -/
theorem isConvertible_iff : a.IsConvertible ↔ ∃ x, a.toFloat = .ok x := by
  refine ⟨IsConvertible.toFloat_ok, fun ⟨x, hx⟩ => ?_⟩
  cases a with
  | whole n =>
    refine not_le.mp ?_
    intro hlarge
    have hfault : (whole n).toFloat = .error .wholeTooLarge := ofWhole_of_le hlarge
    rw [hfault] at hx
    cases hx
  | real x => trivial

theorem IsConvertible.half_ok (h : a.IsConvertible) : ∃ x, a.half = .ok x := by
  cases a with
  | whole n =>
    have hhalf : |(n : ℚ) / 2| < overflow := by
      have hn : |(n : ℚ)| < overflow := h
      have := abs_nonneg (n : ℚ)
      rw [abs_div, abs_two]
      linarith
    obtain ⟨x, hx, -⟩ := halfOfWhole_of_lt hhalf
    exact ⟨x, hx⟩
  | real x => exact ⟨_, rfl⟩

/-- A finite coordinate as a float is its number rounded. -/
theorem IsFinite.toFloat_ok (h : a.IsFinite) :
    ∃ x, a.toFloat = .ok x ∧ x.isFinite ∧ Number.value x = rounded a.value := by
  cases a with
  | whole n => exact ofWhole_of_lt h
  | real x => exact ⟨x, rfl, h, (rounded_value x).symm⟩

theorem IsFinite.truncate_ok (h : a.IsFinite) : ∃ n, a.truncate = .ok n := by
  cases a with
  | whole n => exact ⟨n, rfl⟩
  | real x => exact truncate_of_isFinite h

/-- **Finite coordinates are in the order of their numbers.** -/
theorem compare?_of_isFinite (ha : a.IsFinite) (hb : b.IsFinite) :
    compare? a b = some (compare a.value b.value) := by
  have hcast : ∀ m n : ℤ, compare m n = compare (m : ℚ) (n : ℚ) := by
    intro m n
    rcases lt_trichotomy m n with h | h | h
    · rw [compare_lt_iff_lt.mpr h, compare_lt_iff_lt.mpr (by exact_mod_cast h)]
    · rw [compare_eq_iff_eq.mpr h, compare_eq_iff_eq.mpr (by exact_mod_cast h)]
    · rw [compare_gt_iff_gt.mpr h, compare_gt_iff_gt.mpr (by exact_mod_cast h)]
  cases a with
  | whole m =>
    cases b with
    | whole n => exact congrArg some (hcast m n)
    | real y =>
      change (compareWhole? y m).map Ordering.swap = _
      rw [compareWhole?_of_isFinite hb, Option.map_some, ← Std.OrientedOrd.eq_swap]
      rfl
  | real x =>
    cases b with
    | whole n => exact compareWhole?_of_isFinite ha n
    | real y =>
      change Number.compare? x y = _
      have hx : x.isFinite := ha
      have hy : y.isFinite := hb
      simp only [Number.compare?, value]
      rcases lt_trichotomy (Number.value x) (Number.value y) with h | h | h
      · rw [if_pos ((lt_iff hx hy).mpr h), compare_lt_iff_lt.mpr h]
      · rw [if_neg ((lt_iff hx hy).not.mpr h.not_lt), if_neg ((lt_iff hy hx).not.mpr h.not_gt),
          if_pos ((beq_iff hx hy).mpr h), compare_eq_iff_eq.mpr h]
      · rw [if_neg ((lt_iff hx hy).not.mpr (not_lt.mpr h.le)), if_pos ((lt_iff hy hx).mpr h),
          compare_gt_iff_gt.mpr h]

theorem lt_iff_of_isFinite (ha : a.IsFinite) (hb : b.IsFinite) :
    a.lt b = true ↔ a.value < b.value := by
  simp only [lt]
  rw [compare?_of_isFinite ha hb, beq_iff_eq, Option.some_inj, compare_lt_iff_lt]

theorem le_iff_of_isFinite (ha : a.IsFinite) (hb : b.IsFinite) :
    a.le b = true ↔ a.value ≤ b.value := by
  simp only [le]
  rw [compare?_of_isFinite ha hb, Option.any_some, Std.LawfulBCmp.isLE_iff_le]

theorem isFinite_whole {n : ℤ} (h : |n| ≤ 2 ^ 53) : (whole n).IsFinite :=
  lt_overflow (by exact_mod_cast h)

theorem whole_lt_iff {m n : ℤ} : (whole m).lt (.whole n) = true ↔ m < n := by
  simp only [lt, compare?]
  rw [beq_iff_eq, Option.some_inj, compare_lt_iff_lt]

theorem whole_le_iff {m n : ℤ} : (whole m).le (.whole n) = true ↔ m ≤ n := by
  simp only [le, compare?]
  rw [Option.any_some, Std.LawfulBCmp.isLE_iff_le]

/-- The greater of two finite coordinates. -/
theorem greatest_of_isFinite (ha : a.IsFinite) (hb : b.IsFinite) :
    (a.greatest b).IsFinite ∧ (a.greatest b).value = max a.value b.value := by
  simp only [greatest]
  split
  · rename_i h
    exact ⟨hb, (max_eq_right ((lt_iff_of_isFinite ha hb).mp h).le).symm⟩
  · rename_i h
    exact ⟨ha, (max_eq_left (not_lt.mp ((lt_iff_of_isFinite ha hb).not.mp h))).symm⟩

/-- The lesser of two finite coordinates. -/
theorem least_of_isFinite (ha : a.IsFinite) (hb : b.IsFinite) :
    (a.least b).IsFinite ∧ (a.least b).value = min a.value b.value := by
  simp only [least]
  split
  · rename_i h
    exact ⟨hb, (min_eq_right ((lt_iff_of_isFinite hb ha).mp h).le).symm⟩
  · rename_i h
    exact ⟨ha, (min_eq_left (not_lt.mp ((lt_iff_of_isFinite hb ha).not.mp h))).symm⟩

theorem IsFinite.isFinite_ok (h : a.IsFinite) : a.isFinite = .ok true := by
  cases a with
  | whole n =>
    obtain ⟨x, hx, -⟩ := ofWhole_of_lt h
    change (ofWhole n).map _ = _
    rw [hx]
    rfl
  | real x => exact congrArg Except.ok h

theorem IsConvertible.isFinite_ok (h : a.IsConvertible) (hnot : ¬ a.IsFinite) :
    a.isFinite = .ok false := by
  cases a with
  | whole n => exact absurd h hnot
  | real x => exact congrArg Except.ok (Bool.not_eq_true _ ▸ hnot)

/-- A whole number beyond the range cannot be asked whether it is finite. -/
theorem isFinite_of_le {n : ℤ} (h : overflow ≤ |(n : ℚ)|) :
    (whole n).isFinite = .error .wholeTooLarge := by
  change (ofWhole n).map _ = _
  rw [ofWhole_of_le h]
  rfl

theorem allFinite_cons (a : Coord) (l : List Coord) :
    allFinite (a :: l) = a.isFinite >>= fun b => if b then allFinite l else .ok false := rfl

/-- The question whether coordinates are finite has an answer where they can become floats. -/
theorem allFinite_ok {l : List Coord} (h : ∀ a ∈ l, a.IsConvertible) :
    (allFinite l = .ok false ∧ ∃ a ∈ l, ¬ a.IsFinite) ∨
      allFinite l = .ok true ∧ ∀ a ∈ l, a.IsFinite := by
  induction l with
  | nil => exact Or.inr ⟨rfl, fun a ha => absurd ha List.not_mem_nil⟩
  | cons a l ih =>
    rw [allFinite_cons]
    by_cases hfinite : a.IsFinite
    · rw [hfinite.isFinite_ok]
      rcases ih fun b hb => h b (List.mem_cons_of_mem _ hb) with
        ⟨hrest, b, hb, hnot⟩ | ⟨hrest, hall⟩
      · exact Or.inl ⟨hrest, b, List.mem_cons_of_mem _ hb, hnot⟩
      · refine Or.inr ⟨hrest, ?_⟩
        intro b hb
        rcases List.mem_cons.mp hb with rfl | hb
        · exact hfinite
        · exact hall b hb
    · rw [(h a List.mem_cons_self).isFinite_ok hfinite]
      exact Or.inl ⟨rfl, a, List.mem_cons_self, hfinite⟩

/-! ## 2. Arithmetic with a float -/

theorem real_add {x y : Float} (h : b.toFloat = .ok y) : (real x).add b = .ok (.real (x + y)) :=
  bind_ok rfl (bind_ok h rfl)

theorem real_sub {x y : Float} (h : b.toFloat = .ok y) : (real x).sub b = .ok (.real (x - y)) :=
  bind_ok rfl (bind_ok h rfl)

theorem real_mul {x y : Float} (h : b.toFloat = .ok y) : (real x).mul b = .ok (.real (x * y)) :=
  bind_ok rfl (bind_ok h rfl)

theorem divideBy_ok {x d : Float} (h : a.toFloat = .ok x) (hd : (d == 0.0) = false) :
    a.divideBy d = .ok (x / d) := by
  refine bind_ok h ?_
  rw [hd]
  rfl

/-! ## 3. Rounding to the device -/

/-- **Rounding to the device leaves a settled coordinate,** whatever float is rounded. -/
theorem roundHalfUp_settled (x : Float) : (roundHalfUp x).IsSettled := by
  simp only [roundHalfUp]
  split
  · rename_i v hv
    change |(v.floor : ℚ)| < overflow
    have h := abs_floor_lt (x + 0.5) (k := 0) (by norm_num)
    rwa [add_zero, (isFinite_of_scaled? hv).2, ← v.floor_eq] at h
  · rename_i hv
    intro hx
    -- A half is too little to leave the range.
    have hsum : (x + 0.5).isFinite := by
      refine (isNearest_add hx isFinite_half).isFinite_iff.mpr ?_
      have h := abs_le.mp (abs_value_le x)
      have hgap : (1 : ℚ) ≤ 2 ^ (970 : ℤ) := one_le_zpow₀ (by norm_num) (by norm_num)
      rw [value_half, overflow_eq_greatest, abs_lt]
      generalize (2 : ℚ) ^ (970 : ℤ) = c at hgap ⊢
      constructor <;> linarith
    obtain ⟨v, hsome, -⟩ := scaled?_of_isFinite hsum
    rw [hsome] at hv
    cases hv

/-- A finite float is rounded to a whole number. -/
theorem roundHalfUp_of_isFinite {x : Float} (hx : x.isFinite) : ∃ n, roundHalfUp x = .whole n := by
  have hsettled := roundHalfUp_settled x
  cases h : roundHalfUp x with
  | whole n => exact ⟨n, rfl⟩
  | real y =>
    rw [h] at hsettled
    simp only [roundHalfUp] at h
    split at h
    · cases h
    · cases h
      exact absurd hx hsettled

/-- A coordinate that is both settled and finite is a whole number. -/
theorem IsSettled.eq_whole (h : a.IsSettled) (hfinite : a.IsFinite) :
    ∃ n : ℤ, a = .whole n ∧ |(n : ℚ)| < overflow := by
  cases a with
  | whole n => exact ⟨n, rfl, h⟩
  | real x => exact absurd hfinite h

end Coord

/-! ## 4. Viewports -/

namespace Viewport

/-- The greatest side that a device may have here. -/
def longestSide : ℤ := 2 ^ 15

/-- A viewport of a device of a moderate size, whose view box has finite positive sides. -/
structure IsSound (v : Viewport) : Prop where
  width_pos : 0 < v.width
  width_le : v.width ≤ longestSide
  height_pos : 0 < v.height
  height_le : v.height ≤ longestSide
  finite_viewWidth : v.viewWidth.isFinite
  viewWidth_pos : 0 < value v.viewWidth
  finite_viewHeight : v.viewHeight.isFinite
  viewHeight_pos : 0 < value v.viewHeight

variable {v : Viewport}

/-- What is carried across is settled, whatever the viewport is. -/
theorem settled_of_scale {side : ℤ} {viewSide : Float} {a b : Coord}
    (h : scale side viewSide a = .ok b) : b.IsSettled := by
  obtain ⟨_, -, h⟩ := of_bind_ok h
  obtain ⟨q, -, h⟩ := of_bind_ok h
  cases h
  exact Coord.roundHalfUp_settled q

theorem settled_of_scalePoint {x y : Coord} {p : Point} (h : v.scalePoint x y = .ok p) :
    p.1.IsSettled ∧ p.2.IsSettled := by
  obtain ⟨a, ha, h⟩ := of_bind_ok h
  obtain ⟨b, hb, h⟩ := of_bind_ok h
  cases h
  exact ⟨settled_of_scale ha, settled_of_scale hb⟩

/-- A whole number of moderate size is a float, exactly. -/
theorem ofWhole_of_moderate {n : ℤ} (h : |n| ≤ 2 ^ 53) :
    ∃ x, ofWhole n = .ok x ∧ x.isFinite ∧ value x = n := by
  have hcast : |(n : ℚ)| ≤ 2 ^ 53 := by exact_mod_cast h
  obtain ⟨x, hx, hfinite, hvalue⟩ := ofWhole_of_lt (lt_overflow hcast)
  exact ⟨x, hx, hfinite, hvalue.trans (rounded_intCast h)⟩

/-- A side of the device is a float, exactly. -/
theorem ofWhole_side {side : ℤ} (hpos : 0 < side) (hle : side ≤ longestSide) :
    ∃ x, ofWhole side = .ok x ∧ x.isFinite ∧ value x = side := by
  refine ofWhole_of_moderate ?_
  rw [abs_of_pos hpos]
  exact hle.trans (by decide)

/-- **Every float of a document can be carried across.** -/
theorem scale_ok {side : ℤ} (hpos : 0 < side) (hle : side ≤ longestSide) {viewSide : Float}
    (hfinite : viewSide.isFinite) (hview : 0 < value viewSide) (x : Float) :
    ∃ a, scale side viewSide (.real x) = .ok a ∧ a.IsSettled := by
  obtain ⟨s, hs, -⟩ := ofWhole_side hpos hle
  have hzero := not_beq_zero hfinite hview.ne' isFinite_zero value_zero
  refine ⟨Coord.roundHalfUp (x * s / viewSide), ?_, Coord.roundHalfUp_settled _⟩
  exact bind_ok (Coord.real_mul hs) (bind_ok (Coord.divideBy_ok rfl hzero) rfl)

theorem IsSound.scaleX_ok (h : v.IsSound) (x : Float) :
    ∃ a, v.scaleX (.real x) = .ok a ∧ a.IsSettled :=
  scale_ok h.width_pos h.width_le h.finite_viewWidth h.viewWidth_pos x

theorem IsSound.scaleY_ok (h : v.IsSound) (y : Float) :
    ∃ a, v.scaleY (.real y) = .ok a ∧ a.IsSettled :=
  scale_ok h.height_pos h.height_le h.finite_viewHeight h.viewHeight_pos y

theorem IsSound.scaleRadius_ok (h : v.IsSound) (r : Float) :
    ∃ x, v.scaleRadius (.real r) = .ok x := by
  have hzero := not_beq_zero h.finite_viewWidth h.viewWidth_pos.ne' isFinite_zero value_zero
  exact ⟨r * (referenceWidth / v.viewWidth), bind_ok (Coord.divideBy_ok rfl hzero) rfl⟩

theorem IsSound.scalePoint_ok (h : v.IsSound) (x y : Float) :
    ∃ p, v.scalePoint (.real x) (.real y) = .ok p ∧ p.1.IsSettled ∧ p.2.IsSettled := by
  obtain ⟨a, ha, hsettled⟩ := h.scaleX_ok x
  obtain ⟨b, hb, hsettled'⟩ := h.scaleY_ok y
  exact ⟨(a, b), bind_ok ha (bind_ok hb rfl), hsettled, hsettled'⟩

/-- A side that a view box may have is finite and positive. -/
theorem isUsable_iff {side : Float} : isUsable side = true ↔ side.isFinite ∧ 0 < value side := by
  simp only [isUsable]
  rw [Bool.and_eq_true, decide_eq_true_iff]
  refine and_congr_right ?_
  intro hfinite
  rw [lt_iff isFinite_zero hfinite, value_zero]

/-- A device of a moderate size and a view box that can be used make a sound viewport. -/
theorem isSound_of_isUsable (hw : 0 < v.width ∧ v.width ≤ longestSide)
    (hh : 0 < v.height ∧ v.height ≤ longestSide) (hwide : isUsable v.viewWidth = true)
    (hhigh : isUsable v.viewHeight = true) : v.IsSound := by
  obtain ⟨hwfinite, hwpos⟩ := isUsable_iff.mp hwide
  obtain ⟨hhfinite, hhpos⟩ := isUsable_iff.mp hhigh
  exact ⟨hw.1, hw.2, hh.1, hh.2, hwfinite, hwpos, hhfinite, hhpos⟩

/-- The sides of a view box that a text names are finite and positive. -/
theorem viewBox?_spec (t : Text) :
    ∃ r, (viewBox? t).outcome = .ok r ∧
      ∀ w h, r = some (w, h) → isUsable w = true ∧ isUsable h = true := by
  have hnone : ∀ w h, (none : Option (Float × Float)) = some (w, h) →
      isUsable w = true ∧ isUsable h = true := by
    intro w h he
    cases he
  unfold viewBox?
  split
  · exact ⟨none, rfl, hnone⟩
  · split
    · dsimp only
      split
      · rename_i hboth
        refine ⟨_, rfl, ?_⟩
        intro w h he
        cases he
        exact Bool.and_eq_true_iff.mp hboth
      · exact ⟨none, rfl, hnone⟩
    · exact ⟨none, rfl, hnone⟩

end Viewport

/-- What document a text is: the text with its references replaced, seen through the view box that
this text names, or else in pixels. -/
theorem Document.ofText_outcome {source t : Text} {width height : ℤ} {x y : Float}
    (ht : (Markup.expand (Markup.definitions source) source).outcome = .ok t)
    (hx : ofWhole width = .ok x) (hy : ofWhole height = .ok y) :
    ∃ r, (Viewport.viewBox? t).outcome = .ok r ∧
      (ofText source width height).outcome = .ok (match r with
        | none => ⟨t, ⟨width, height, x, y⟩⟩
        | some (w, h) => ⟨t, ⟨width, height, w, h⟩⟩) := by
  obtain ⟨r, hr, -⟩ := Viewport.viewBox?_spec t
  have hpixels : Viewport.ofSize width height none none = .ok ⟨width, height, x, y⟩ :=
    bind_ok hx (bind_ok hy rfl)
  refine ⟨r, hr, ?_⟩
  simp only [ofText]
  refine Journal.outcome_bind_eq_ok.mpr ⟨t, ht, ?_⟩
  rw [hpixels]
  refine Journal.outcome_bind_eq_ok.mpr ⟨_, rfl, ?_⟩
  refine Journal.outcome_bind_eq_ok.mpr ⟨r, hr, ?_⟩
  cases r <;> rfl

/-- **Every text is a document with a sound viewport,** for a device of a moderate size. -/
theorem Document.ofText_sound (source : Text) {width height : ℤ} (hw : 0 < width)
    (hw' : width ≤ Viewport.longestSide) (hh : 0 < height) (hh' : height ≤ Viewport.longestSide) :
    ∃ doc, (ofText source width height).outcome = .ok doc ∧ doc.viewport.IsSound ∧
      doc.viewport.width = width ∧ doc.viewport.height = height := by
  obtain ⟨t, ht⟩ := Markup.expand_total (Markup.definitions source) source
  obtain ⟨x, hx, hxfinite, hxvalue⟩ := Viewport.ofWhole_side hw hw'
  obtain ⟨y, hy, hyfinite, hyvalue⟩ := Viewport.ofWhole_side hh hh'
  obtain ⟨r, hr, houtcome⟩ := ofText_outcome ht hx hy
  obtain ⟨r', hr', hsides⟩ := Viewport.viewBox?_spec t
  cases hr.symm.trans hr'
  have hxpos : 0 < value x := by
    rw [hxvalue]
    exact_mod_cast hw
  have hypos : 0 < value y := by
    rw [hyvalue]
    exact_mod_cast hh
  refine ⟨_, houtcome, ?_⟩
  cases r with
  | none => exact ⟨⟨hw, hw', hh, hh', hxfinite, hxpos, hyfinite, hypos⟩, rfl, rfl⟩
  | some sides =>
    obtain ⟨hwide, hhigh⟩ := hsides sides.1 sides.2 rfl
    exact ⟨Viewport.isSound_of_isUsable ⟨hw, hw'⟩ ⟨hh, hh'⟩ hwide hhigh, rfl, rfl⟩

end VectorPaint
