/-
# Numbers spliced into markup

A number in markup is written in one of three shapes: in full with no point, with a point between
digits, or with an exponent.  Each of them is a literal from its first code point to its last, and
none is one that reading would cut short.  A whole number writes itself, and any other float writes
its shortest decimal, which is rounded to the float.  So every finite float is read back from what
is spliced in for it (`read_spliced`).

Nothing else is needed for a position in a tag.  Its two texts are found there whatever the tag
holds behind its name, and both are numbers, so that no lookup has anything to note.
-/
import VectorPaint.Proofs.Attributes
import VectorPaint.Proofs.Float.Intervals
import VectorPaint.Proofs.Numerals

namespace VectorPaint

/-! ## 1. Digits side by side -/

namespace Text

theorem foldl_digits (t : Text) (n : ℕ) :
    t.foldl (fun n c => 10 * n + (digit? c).getD 0) n = n * 10 ^ t.length + digitsValue t := by
  induction t generalizing n with
  | nil => simp [digitsValue]
  | cons c t ih =>
    have hfirst := ih (10 * 0 + (digit? c).getD 0)
    rw [List.foldl_cons, ih, List.length_cons]
    simp only [digitsValue, List.foldl_cons] at hfirst ⊢
    rw [hfirst]
    ring

/-- Digits in front count for as many places as stand behind them. -/
theorem digitsValue_append (s t : Text) :
    digitsValue (s ++ t) = digitsValue s * 10 ^ t.length + digitsValue t := by
  rw [digitsValue, List.foldl_append, foldl_digits]
  rfl

@[simp] theorem digitsValue_zeros (n : ℕ) : digitsValue (List.replicate n '0') = 0 := by
  induction n with
  | zero => rfl
  | succ n ih => exact ih

/-- Zeros in front do not count. -/
theorem digitsValue_zeros_append (n : ℕ) (t : Text) :
    digitsValue (List.replicate n '0' ++ t) = digitsValue t := by
  rw [digitsValue_append, digitsValue_zeros, zero_mul, zero_add]

/-- Zeros behind are places. -/
theorem digitsValue_append_zeros (t : Text) (n : ℕ) :
    digitsValue (t ++ List.replicate n '0') = digitsValue t * 10 ^ n := by
  rw [digitsValue_append, digitsValue_zeros, add_zero, List.length_replicate]

end Text

namespace Number

open Float.Model.UnpackedFloat (Sign)

variable {digits m e front behind t : Text} {n : ℤ} {q : ℚ} {x : Float}

/-! ## 2. Decimals as literals -/

theorem isDigit_of_mem_zeros {k : ℕ} : ∀ c ∈ List.replicate k '0', Text.isDigit c = true := by
  intro c hc
  rw [List.eq_of_mem_replicate hc]
  decide

theorem isDigits_zero : IsDigits ['0'] := ⟨by decide, isDigit_of_mem_zeros (k := 1)⟩

/-- A part of a run of digits that is not empty is a run of digits. -/
theorem IsDigits.of_subset (h : IsDigits digits) (hne : t ≠ []) (ht : t ⊆ digits) : IsDigits t :=
  ⟨hne, fun c hc => h.isDigit c (ht hc)⟩

/-- Zeros in front of digits. -/
theorem IsDigits.zeros_append (h : IsDigits digits) (k : ℕ) :
    IsDigits (List.replicate k '0' ++ digits) :=
  ⟨by simp [h.ne_nil], List.forall_mem_append.mpr ⟨isDigit_of_mem_zeros, h.isDigit⟩⟩

/-- Zeros behind digits. -/
theorem IsDigits.append_zeros (h : IsDigits digits) (k : ℕ) :
    IsDigits (digits ++ List.replicate k '0') :=
  ⟨by simp [h.ne_nil], List.forall_mem_append.mpr ⟨h.isDigit, isDigit_of_mem_zeros⟩⟩

/-- The parts of a literal, behind the text of a sign. -/
theorem exists_spells (s : Sign) (hm : SpellsMantissa m front behind) (he : SpellsExponent e n)
    (hq : (Text.digitsValue (front ++ behind) : ℚ) * 10 ^ (n - behind.length) = q) :
    ∃ l, Spells (signText s ++ (m ++ e)) l ∧ l.exact = signFactor s * q := by
  rw [← hq]
  cases s with
  | negative => exact ⟨_, .mk .minus hm he, rfl⟩
  | positive => exact ⟨_, .mk .none hm he, rfl⟩

/-- The same without an exponent. -/
theorem exists_spells_mantissa (s : Sign) (hm : SpellsMantissa m front behind)
    (hq : (Text.digitsValue (front ++ behind) : ℚ) * 10 ^ (-behind.length : ℤ) = q) :
    ∃ l, Spells (signText s ++ m) l ∧ l.exact = signFactor s * q := by
  have h := exists_spells s hm .none rfl
  rwa [List.append_nil, zero_sub, hq] at h

/-- Digits and zeros in front of the point. -/
theorem IsDigits.spells_whole (h : IsDigits digits) (k : ℕ) (s : Sign) :
    ∃ l, Spells (signText s ++ (digits ++ List.replicate k '0' ++ ['.', '0'])) l ∧
      l.exact = signFactor s * (Text.digitsValue digits * 10 ^ (k : ℤ)) := by
  refine exists_spells_mantissa s (.decimal (h.append_zeros k) isDigits_zero) ?_
  have hbehind := Text.digitsValue_append_zeros (digits ++ List.replicate k '0') 1
  rw [Text.digitsValue_append_zeros digits k] at hbehind
  change (Text.digitsValue (digits ++ List.replicate k '0' ++ List.replicate 1 '0') : ℚ) *
    10 ^ (-1 : ℤ) = _
  rw [hbehind, zpow_natCast, zpow_neg_one]
  push_cast
  ring

/-- The point among digits. -/
theorem IsDigits.spells_parted (h : IsDigits digits) {places : ℕ} (hpos : 0 < places)
    (hplaces : places < digits.length) (s : Sign) :
    ∃ l, Spells (signText s ++ (digits.take (digits.length - places) ++
        '.' :: digits.drop (digits.length - places))) l ∧
      l.exact = signFactor s * (Text.digitsValue digits * 10 ^ (-places : ℤ)) := by
  have hlength : (digits.drop (digits.length - places)).length = places := by
    rw [List.length_drop]
    omega
  have hfront : IsDigits (digits.take (digits.length - places)) := by
    refine h.of_subset ?_ (List.take_subset _ _)
    rw [← List.length_pos_iff, List.length_take]
    omega
  have hbehind : IsDigits (digits.drop (digits.length - places)) := by
    refine h.of_subset ?_ (List.drop_subset _ _)
    rw [← List.length_pos_iff, hlength]
    exact hpos
  exact exists_spells_mantissa s (.decimal hfront hbehind)
    (by rw [List.take_append_drop, hlength])

/-- A point and zeros in front of digits. -/
theorem IsDigits.spells_fraction (h : IsDigits digits) {places : ℕ}
    (hplaces : digits.length ≤ places) (s : Sign) :
    ∃ l, Spells (signText s ++
        ('0' :: '.' :: (List.replicate (places - digits.length) '0' ++ digits))) l ∧
      l.exact = signFactor s * (Text.digitsValue digits * 10 ^ (-places : ℤ)) := by
  have hlength : (List.replicate (places - digits.length) '0' ++ digits).length = places := by
    rw [List.length_append, List.length_replicate]
    omega
  have hvalue : Text.digitsValue (['0'] ++ (List.replicate (places - digits.length) '0' ++
      digits)) = Text.digitsValue digits := by
    rw [← Text.digitsValue_zeros_append (places - digits.length) digits]
    exact Text.digitsValue_zeros_append 1 _
  exact exists_spells_mantissa s (.decimal isDigits_zero (h.zeros_append _))
    (by rw [hvalue, hlength])

/-- A decimal written out is a literal.  The cases are where its point falls. -/
theorem Decimal.spells_plain (d : Decimal) (s : Sign) :
    ∃ l, Spells (signText s ++ d.plain) l ∧ l.exact = signFactor s * d.exact := by
  have hdigits := isDigits_ofNat d.digits
  have hvalue := Text.digitsValue_ofNat d.digits
  unfold Decimal.plain exact
  generalize Text.ofNat d.digits = digits at hdigits hvalue ⊢
  rw [← hvalue]
  dsimp only
  split
  · rename_i hexponent
    obtain ⟨k, hk⟩ := Int.eq_ofNat_of_zero_le hexponent
    rw [hk]
    exact hdigits.spells_whole k s
  · rename_i hexponent
    obtain ⟨places, hplaces⟩ := Int.eq_ofNat_of_zero_le (show 0 ≤ -d.exponent by omega)
    have hscale : d.exponent = -places := by omega
    rw [hplaces, hscale, Int.toNat_natCast]
    split
    · rename_i hlength
      exact hdigits.spells_parted (by omega) hlength s
    · rename_i hlength
      exact hdigits.spells_fraction (not_lt.mp hlength) s

/-- The text of an exponent, with zeros in front of its digits. -/
theorem spellsExponent_padded (power : ℤ) (k : ℕ) :
    SpellsExponent ('e' :: (if power < 0 then '-' else '+') ::
      (List.replicate k '0' ++ Text.ofNat power.natAbs)) power := by
  have hwidth := (isDigits_ofNat power.natAbs).zeros_append k
  have hvalue := Text.digitsValue_zeros_append k (Text.ofNat power.natAbs)
  rw [Text.digitsValue_ofNat] at hvalue
  split
  · have hminus := SpellsExponent.written (.inl rfl) .minus hwidth
    rwa [hvalue, if_pos rfl, show -(power.natAbs : ℤ) = power by omega] at hminus
  · have hplus := SpellsExponent.written (.inl rfl) .plus hwidth
    rwa [hvalue, if_neg (by decide), show (power.natAbs : ℤ) = power by omega] at hplus

/-- A decimal with an exponent is a literal. -/
theorem Decimal.spells_scientific (d : Decimal) (s : Sign) :
    ∃ l, Spells (signText s ++ d.scientific) l ∧ l.exact = signFactor s * d.exact := by
  have hdigits := isDigits_ofNat d.digits
  have hvalue := Text.digitsValue_ofNat d.digits
  unfold Decimal.scientific
  generalize Text.ofNat d.digits = digits at hdigits hvalue ⊢
  dsimp only
  obtain ⟨power, hpower⟩ : ∃ power, d.exponent + digits.length - 1 = power := ⟨_, rfl⟩
  rw [hpower]
  have hexponent := spellsExponent_padded power (2 - (Text.ofNat power.natAbs).length)
  obtain ⟨first, rest, rfl⟩ := List.exists_cons_of_ne_nil hdigits.ne_nil
  -- The digits behind the first one are as many as the exponent leaves out.
  have hscale : power - rest.length = d.exponent := by
    rw [← hpower, List.length_cons]
    push_cast
    ring
  cases rest with
  | nil =>
    refine exists_spells s (.whole hdigits) hexponent ?_
    rw [List.append_nil, hvalue, hscale, exact]
  | cons second rest =>
    have hfront : IsDigits [first] := hdigits.of_subset (by simp) (by simp)
    have hbehind : IsDigits (second :: rest) :=
      hdigits.of_subset (by simp) (List.subset_cons_self _ _)
    refine exists_spells s (.decimal hfront hbehind) hexponent ?_
    rw [List.singleton_append, hvalue, hscale, exact]

/-- **A decimal is shown as a literal of its number.** -/
theorem Decimal.spells_shown (d : Decimal) (s : Sign) :
    ∃ l, Spells (signText s ++ d.shown) l ∧ l.exact = signFactor s * d.exact := by
  unfold Decimal.shown
  dsimp only
  split
  · exact d.spells_plain s
  · exact d.spells_scientific s

/-! ## 3. Numbers in markup -/

/-- A literal of a number that is rounded to a float is read as the float. -/
theorem Spells.read_of_rounded {l : Literal} (h : Spells t l) (hx : rounded l.exact = value x) :
    (read t).isFinite ∧ value (read t) = value x := by
  have hrange : |l.exact| < overflow := by
    rw [← abs_rounded_lt_iff, hx, ← rounded_value, abs_rounded_lt_iff]
    exact abs_value_lt x
  rw [h.read_eq, ← hx]
  exact l.isNearest_value.within hrange

/-- A whole number taken apart is its whole part. -/
theorem Scaled.truncate_cast {v : Scaled} (h : v.isWhole = true) : (v.truncate : ℚ) = v.value := by
  have hpos : (0 : ℚ) < v.denominator := by exact_mod_cast v.denominator_pos
  have hdvd : (v.denominator : ℤ) ∣ v.numerator :=
    Int.dvd_of_emod_eq_zero (by simpa [Scaled.isWhole] using h)
  obtain ⟨k, hk⟩ := hdvd
  have hne : (v.denominator : ℤ) ≠ 0 := by exact_mod_cast v.denominator_pos.ne'
  rw [v.value_eq_div, Scaled.truncate, hk, Int.mul_tdiv_cancel_left _ hne]
  push_cast
  rw [mul_div_cancel_left₀ _ hpos.ne']

/-- **What is spliced in for a finite float is a literal of a number that is rounded to it.** -/
theorem exists_spells_spliced (hx : x.isFinite) :
    ∃ l, Spells (spliced x) l ∧ rounded l.exact = value x := by
  obtain ⟨v, hv, hvalue⟩ := scaled?_of_isFinite hx
  unfold spliced
  rw [hv]
  dsimp only
  split
  · rename_i hwhole
    obtain ⟨negative, n, hspells, hn⟩ := (writes_ofInt v.truncate).exists_literal
    refine ⟨_, hspells, ?_⟩
    rw [Literal.exact_whole, ← hn, Scaled.truncate_cast hwhole, hvalue, rounded_value]
  · rename_i hpart
    have hfits := fits_unpack x.toModel
    have hfinite : x.toModel.unpack.isFinite := hx
    unfold shown
    simp only [scaled?] at hv
    simp only [value]
    generalize x.toModel.unpack = u at hv hfits hfinite ⊢
    cases u with
    | notANumber => cases hfinite
    | infinity s => cases hfinite
    | zero s =>
      cases hv
      exact absurd rfl hpart
    | finite s m e hm =>
      obtain ⟨l, hspells, hexact⟩ := (shortest m e).spells_shown s
      refine ⟨l, hspells, ?_⟩
      rw [hexact, rounded_signFactor, rounded_shortest hm hfits.1 hfits.2, unpackedValue_finite]

/-- **Every finite float is read back from markup.** -/
theorem read_spliced (hx : x.isFinite) : (read (spliced x) == x) = true := by
  obtain ⟨l, hspells, hrounded⟩ := exists_spells_spliced hx
  obtain ⟨hfinite, hvalue⟩ := hspells.read_of_rounded hrounded
  exact (beq_iff hfinite hx).mpr hvalue

end Number

/-! ## 4. Positions -/

namespace Markup

open Number (read spliced read_spliced)

variable {definition tag name : Text} {x y : Float}

/-- Lookups in a definition with a position, also in one that is no tag. -/
theorem IsAttributeName.valueFrom?_injectPosition (hname : IsAttributeName name)
    (h : '=' ∉ definition.take (nameLength definition)) (x y : Float) :
    valueFrom? (keyOf name) (injectPosition definition (spliced x) (spliced y)) =
      if name = ['x'] then some (spliced x)
      else if name = ['y'] then some (spliced y)
      else valueFrom? (keyOf name) (definition.drop (nameLength definition)) := by
  have hquote := fun z => not_mem_spliced (c := '"') (by decide) z
  have hequals := fun z => not_mem_spliced (c := '=') (by decide) z
  have hblank : isNameChar ' ' = false := by decide
  unfold injectPosition
  rw [List.append_assoc, hname.valueFrom?_behind h (by simp [positionText, hblank]),
    positionText_eq, hname.valueFrom?_attribute 'x' (hquote x) (hequals x),
    hname.valueFrom?_attribute 'y' (hquote y) (hequals y)]

/-- A position written into a definition is found there. -/
theorem attributeText_position (h : '=' ∉ definition.take (nameLength definition)) (x y : Float) :
    attributeText (injectPosition definition (spliced x) (spliced y)) ['x'] = spliced x ∧
      attributeText (injectPosition definition (spliced x) (spliced y)) ['y'] = spliced y := by
  have hx : IsAttributeName ['x'] := isAttributeName_of_all (by decide)
  have hy : IsAttributeName ['y'] := isAttributeName_of_all (by decide)
  constructor
  · rw [attributeText_eq, hx.valueFrom?_injectPosition h, if_pos rfl]
    exact trim_spliced x
  · rw [attributeText_eq, hy.valueFrom?_injectPosition h, if_neg (by decide), if_pos rfl]
    exact trim_spliced y

/-- An attribute that holds a spliced number is that number, with nothing to note. -/
theorem attributeNumber_of_spliced (h : attributeText tag name = spliced x) (hx : x.isFinite) :
    attributeNumber tag name = pure (read (spliced x)) := by
  obtain ⟨l, hspells, hrounded⟩ := Number.exists_spells_spliced hx
  obtain ⟨c, rest, hcons, -⟩ := hspells.exists_cons
  have hnan := Number.not_isNaN_of_isFinite (hspells.read_of_rounded hrounded).1
  unfold attributeNumber
  rw [h]
  dsimp only
  rw [hnan, hcons]
  rfl

/-- **Numbers survive being spliced into markup.**  What is spliced in for a finite float is read
back as a float that is equal to it.  So a position written into a definition, whose name must hold
no equals sign, is the position that its attributes `x` and `y` have, and nothing is noted. -/
theorem spliced_position_read :
    (∀ v : Float, v.isFinite → (read (spliced v) == v) = true) ∧
    ∀ (definition : Text) (x y : Float), '=' ∉ definition.take (nameLength definition) →
      x.isFinite → y.isFinite → ∃ a b : Float,
        (a == x) = true ∧ (b == y) = true ∧
        attributeNumber (injectPosition definition (spliced x) (spliced y)) ['x'] = pure a ∧
        attributeNumber (injectPosition definition (spliced x) (spliced y)) ['y'] = pure b := by
  refine ⟨fun v hv => read_spliced hv, fun definition x y h hx hy => ?_⟩
  obtain ⟨hxtext, hytext⟩ := attributeText_position h x y
  exact ⟨_, _, read_spliced hx, read_spliced hy, attributeNumber_of_spliced hxtext hx,
    attributeNumber_of_spliced hytext hy⟩

/-- A number with an exponent and one that is written in full, in a tag that has a position. -/
theorem spliced_position_read_placedTag :
    spliced 0.00001 = "1e-05".toList ∧ spliced (-2e22) = "-20000000000000000000000".toList ∧
    (read (spliced 0.00001) == 0.00001) = true ∧
    ∃ a b : Float, (a == 0.00001) = true ∧ (b == -2e22) = true ∧
      attributeNumber (injectPosition placedTag (spliced 0.00001) (spliced (-2e22))) ['x'] =
        pure a ∧
      attributeNumber (injectPosition placedTag (spliced 0.00001) (spliced (-2e22))) ['y'] =
        pure b := by
  have hsmall : (0.00001 : Float).isFinite := by decide +kernel
  have hlarge : (-2e22 : Float).isFinite := by decide +kernel
  exact ⟨by decide +kernel, by decide +kernel, spliced_position_read.1 _ hsmall,
    spliced_position_read.2 placedTag _ _ (by decide) hsmall hlarge⟩

end Markup

end VectorPaint
