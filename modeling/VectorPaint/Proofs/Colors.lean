/-
# The nearest color

A color's text has three parts of two code points each.  A part can be more than two digits: a sign
and a digit, a blank and a digit, a digit and something else.  What it writes is at least -15 and at
most 255 (`scanHex?_bounds`), so every color that can be read is nearer to each entry of the palette
than the distance that the search starts with (`distance_lt_unreachable`).

The search keeps the nearest entry so far and leaves it only for one that is nearer.  So it ends
with the first of the nearest entries (`foldl_nearer`), or with none if all are too far, which
cannot be.
-/
import VectorPaint.Proofs.Coordinates

namespace VectorPaint

open Number (value)

/-! ## 1. The numbers that two code points write -/

namespace Number

theorem hexDigit?_le {c : Char} {n : ℕ} (h : hexDigit? c = some n) : n ≤ 15 := by
  have hcode : ∀ {c d : Char}, c ≤ d → c.toNat ≤ d.toNat := fun hle => hle
  unfold hexDigit? at h
  split_ifs at h with hc hc hc
  all_goals
    have := hcode hc.2
    cases h
    simp only [Char.reduceToNat] at this
    omega

/-- The number that a run of hexadecimal digits writes behind a number. -/
theorem foldl_hexDigit_bounds (digits : Text) (m : ℤ) (hm : 0 ≤ m) :
    0 ≤ digits.foldl (fun (n : ℤ) c => 16 * n + ((hexDigit? c).getD 0 : ℕ)) m ∧
      digits.foldl (fun (n : ℤ) c => 16 * n + ((hexDigit? c).getD 0 : ℕ)) m <
        (m + 1) * 16 ^ digits.length := by
  induction digits generalizing m with
  | nil => exact ⟨hm, by simp⟩
  | cons c rest ih =>
    have hdigit : (hexDigit? c).getD 0 ≤ 15 := by
      cases h : hexDigit? c with
      | none => exact Nat.zero_le _
      | some n => exact hexDigit?_le h
    obtain ⟨hlow, hhigh⟩ := ih (16 * m + ((hexDigit? c).getD 0 : ℕ)) (by omega)
    rw [List.foldl_cons, List.length_cons, pow_succ]
    refine ⟨hlow, hhigh.trans_le ?_⟩
    have hpos : (0 : ℤ) ≤ 16 ^ rest.length := by positivity
    nlinarith

theorem length_skipHexMark_le (t : Text) : (skipHexMark t).length ≤ t.length := by
  unfold skipHexMark
  split
  · split <;> simp
  · exact Nat.le_refl _

/-- A sign takes a code point, and without one nothing is taken. -/
theorem scanSign_cases (t : Text) :
    (scanSign t).1 = false ∧ (scanSign t).2.length ≤ t.length ∨
      (scanSign t).1 = true ∧ (scanSign t).2.length + 1 = t.length := by
  unfold scanSign
  split <;> simp

/-- **Two code points write a number from -15 to 255,** if they write one. -/
theorem scanHex?_bounds {t : Text} (ht : t.length ≤ 2) {n : ℤ} (h : scanHex? t = some n) :
    -15 ≤ n ∧ n ≤ 255 := by
  have htrim : t.trimStart.length ≤ t.length := (List.dropWhile_suffix _).length_le
  have hsign := scanSign_cases t.trimStart
  unfold scanHex? at h
  generalize scanSign t.trimStart = sign at h hsign
  obtain ⟨negative, body⟩ := sign
  simp only at h hsign
  have hlength : ((skipHexMark body).takeWhile isHexDigit).length ≤ body.length :=
    (List.takeWhile_prefix _).length_le.trans (length_skipHexMark_le body)
  generalize (skipHexMark body).takeWhile isHexDigit = digits at h hlength
  split at h
  · cases h
  · obtain ⟨hlow, hhigh⟩ := foldl_hexDigit_bounds digits 0 (le_refl _)
    have hpow : ∀ {k : ℕ}, digits.length ≤ k → (16 : ℤ) ^ digits.length ≤ 16 ^ k :=
      fun hk => pow_le_pow_right₀ (by norm_num) hk
    rw [zero_add, one_mul] at hhigh
    rcases hsign with ⟨rfl, hbody⟩ | ⟨rfl, hbody⟩
    · have := hpow (k := 2) (by omega)
      cases h
      simp only [Bool.false_eq_true, if_false]
      omega
    · have := hpow (k := 1) (by omega)
      cases h
      simp only [if_true]
      omega

/-- What two code points are read as: no number where they write none, and otherwise what they
write. -/
theorem readHex_of_short {t : Text} (ht : t.length ≤ 2) :
    ∃ x, readHex t = .ok x ∧ (x.isNaN = true ↔ scanHex? t = none) ∧
      ∀ n, scanHex? t = some n → value x = n ∧ -15 ≤ n ∧ n ≤ 255 := by
  unfold readHex
  cases h : scanHex? t with
  | none => exact ⟨nan, rfl, iff_of_true (by decide +kernel) rfl, fun _ hn => by cases hn⟩
  | some n =>
    obtain ⟨hlow, hhigh⟩ := scanHex?_bounds ht h
    have hmoderate : |n| ≤ 2 ^ 53 := abs_le.mpr ⟨by omega, by omega⟩
    obtain ⟨x, hx, hfinite, hvalue⟩ := Viewport.ofWhole_of_moderate hmoderate
    refine ⟨x, hx, iff_of_false ?_ (Option.some_ne_none n), ?_⟩
    · rw [not_isNaN_of_isFinite hfinite]
      exact Bool.false_ne_true
    · rintro _ ⟨⟩
      exact ⟨hvalue, hlow, hhigh⟩

end Number

/-! ## 2. The first of the least -/

/-- An entry of a list is least by a measure, and the first one that is. -/
def IsFirstLeast {α β : Type} [Preorder β] (f : α → β) (l : List α) (a : α) : Prop :=
  ∃ before after, l = before ++ a :: after ∧ (∀ b ∈ before, f a < f b) ∧ ∀ b ∈ after, f a ≤ f b

namespace IsFirstLeast

variable {α β : Type} [Preorder β] {f : α → β} {l : List α} {a b : α}

theorem head (h : ∀ b ∈ l, f a ≤ f b) : IsFirstLeast f (a :: l) a :=
  ⟨[], l, rfl, fun _ hb => absurd hb List.not_mem_nil, h⟩

theorem cons (h : IsFirstLeast f l a) (hb : f a < f b) : IsFirstLeast f (b :: l) a := by
  obtain ⟨before, after, rfl, hbefore, hafter⟩ := h
  exact ⟨b :: before, after, rfl, List.forall_mem_cons.mpr ⟨hb, hbefore⟩, hafter⟩

/-- Another measure that orders in the same way has the same first least entry. -/
theorem congr {γ : Type} [Preorder γ] {g : α → γ} (h : IsFirstLeast f l a)
    (hlt : ∀ b ∈ l, f a < f b → g a < g b) (hle : ∀ b ∈ l, f a ≤ f b → g a ≤ g b) :
    IsFirstLeast g l a := by
  obtain ⟨before, after, rfl, hbefore, hafter⟩ := h
  exact ⟨before, after, rfl, fun b hb => hlt b (by simp [hb]) (hbefore b hb),
    fun b hb => hle b (by simp [hb]) (hafter b hb)⟩

end IsFirstLeast

namespace Palette

/-! ## 3. The search -/

/-- **What the search among entries finds:** the first of the nearest ones, if one of them is nearer
than the distance it starts with. -/
theorem foldl_nearer (color : Rgb) (l : List (Rgb × ℕ)) (best : ℤ × ℕ) :
    l.foldl (nearer color) best = best ∧ (∀ e ∈ l, best.1 ≤ distance e.1 color) ∨
      ∃ e, IsFirstLeast (fun e => distance e.1 color) l e ∧ distance e.1 color < best.1 ∧
        l.foldl (nearer color) best = (distance e.1 color, e.2) := by
  induction l generalizing best with
  | nil => exact .inl ⟨rfl, fun _ he => absurd he List.not_mem_nil⟩
  | cons e l ih =>
    rw [List.foldl_cons]
    by_cases hd : distance e.1 color < best.1
    · have hnearer : nearer color best e = (distance e.1 color, e.2) := if_pos hd
      rw [hnearer]
      rcases ih (distance e.1 color, e.2) with ⟨hfound, hleast⟩ | ⟨e', hfirst, hlt, hfound⟩
      · exact .inr ⟨e, .head hleast, hd, hfound⟩
      · exact .inr ⟨e', hfirst.cons hlt, hlt.trans hd, hfound⟩
    · have hnearer : nearer color best e = best := if_neg hd
      rw [hnearer]
      rcases ih best with ⟨hfound, hleast⟩ | ⟨e', hfirst, hlt, hfound⟩
      · exact .inl ⟨hfound, List.forall_mem_cons.mpr ⟨not_lt.mp hd, hleast⟩⟩
      · exact .inr ⟨e', hfirst.cons (hlt.trans_le (not_lt.mp hd)), hlt, hfound⟩

/-- The channels that two code points can write. -/
def IsWritable (n : ℤ) : Prop := -15 ≤ n ∧ n ≤ 255

/-- Two channels in range are not far from each other. -/
theorem square_sub_le {m n : ℤ} (hm : 0 ≤ m ∧ m ≤ 255) (hn : IsWritable n) :
    (m - n) * (m - n) ≤ 72900 := by
  obtain ⟨hlow, hhigh⟩ := hn
  have hbound : |m - n| ≤ 270 := abs_le.mpr ⟨by omega, by omega⟩
  nlinarith [abs_le.mp hbound, sq_abs (m - n), abs_nonneg (m - n)]

/-- **No entry is as far away as the distance that the search starts with.** -/
theorem distance_lt_unreachable (color : Rgb) (hred : IsWritable color.red)
    (hgreen : IsWritable color.green) (hblue : IsWritable color.blue) :
    ∀ e ∈ entries, distance e.1 color < unreachable := by
  have hentries : ∀ e ∈ entries, (0 ≤ e.1.red ∧ e.1.red ≤ 255) ∧
      (0 ≤ e.1.green ∧ e.1.green ≤ 255) ∧ (0 ≤ e.1.blue ∧ e.1.blue ≤ 255) := by
    decide
  intro e he
  obtain ⟨hr, hg, hb⟩ := hentries e he
  have := square_sub_le hr hred
  have := square_sub_le hg hgreen
  have := square_sub_le hb hblue
  simp only [distance, unreachable]
  omega

/-- **The index of a color in range** is that of the first of the nearest entries. -/
theorem nearest_of_isWritable (color : Rgb) (hred : IsWritable color.red)
    (hgreen : IsWritable color.green) (hblue : IsWritable color.blue) :
    ∃ e, IsFirstLeast (fun e => distance e.1 color) entries e ∧ nearest color = e.2 := by
  have hreach := distance_lt_unreachable color hred hgreen hblue
  rcases foldl_nearer color entries (unreachable, default) with
    ⟨-, hfar⟩ | ⟨e, hfirst, -, hfound⟩
  · -- The palette has a first entry, and it is nearer.
    have hwhite : (⟨255, 255, 255⟩, 1) ∈ entries := List.mem_cons_self
    exact absurd (hfar _ hwhite) (not_le.mpr (hreach _ hwhite))
  · exact ⟨e, hfirst, congrArg Prod.snd hfound⟩

/-! ## 4. A color's text -/

/-- The square of the distance between an entry's color and three channels. -/
def apart (c : Rgb) (r g b : Float) : ℚ :=
  (c.red - value r) ^ 2 + (c.green - value g) ^ 2 + (c.blue - value b) ^ 2

theorem apart_eq_distance {c color : Rgb} {r g b : Float} (hr : value r = color.red)
    (hg : value g = color.green) (hb : value b = color.blue) :
    apart c r g b = distance c color := by
  simp only [apart, distance, hr, hg, hb]
  push_cast
  ring

theorem length_channelTexts (t : Text) :
    (channelTexts t).1.length ≤ 2 ∧ (channelTexts t).2.1.length ≤ 2 ∧
      (channelTexts t).2.2.length ≤ 2 := by
  simp only [channelTexts, List.length_take]
  omega

/-- A part that writes no number leaves no color. -/
theorem parse?_eq_none {t : Text} (h : Number.scanHex? (channelTexts t).1 = none ∨
    Number.scanHex? (channelTexts t).2.1 = none ∨ Number.scanHex? (channelTexts t).2.2 = none) :
    parse? t = none := by
  simp only [parse?]
  rcases h with h | h | h <;> rw [h]
  · rfl
  · cases Number.scanHex? (channelTexts t).1 <;> rfl
  · cases Number.scanHex? (channelTexts t).1 <;>
      cases Number.scanHex? (channelTexts t).2.1 <;> rfl

theorem parse?_eq_some {t : Text} {l m n : ℤ} (hl : Number.scanHex? (channelTexts t).1 = some l)
    (hm : Number.scanHex? (channelTexts t).2.1 = some m)
    (hn : Number.scanHex? (channelTexts t).2.2 = some n) : parse? t = some ⟨l, m, n⟩ := by
  simp only [parse?]
  rw [hl, hm, hn]
  rfl

/-- **A color's text has the index of the nearest entry of the palette.**  Its three parts can
always be read.  If one of them is not a number, as for the empty text, the index is the one of a
color that cannot be read.  Otherwise it is the index of the first of those entries whose squared
distance to the three channels is least among all entries, and every entry is nearer than the
distance that the search starts with. -/
theorem quantize_nearest (t : Text) :
    ∃ r g b, channels t = .ok (r, g, b) ∧
      (t = [] → r.isNaN = true) ∧
      (r.isNaN = true ∨ g.isNaN = true ∨ b.isNaN = true → quantize t = default) ∧
      (¬ (r.isNaN = true ∨ g.isNaN = true ∨ b.isNaN = true) →
        ∃ e, IsFirstLeast (fun e => apart e.1 r g b) entries e ∧ quantize t = e.2 ∧
          ∀ e ∈ entries, apart e.1 r g b < unreachable) := by
  obtain ⟨hred, hgreen, hblue⟩ := length_channelTexts t
  obtain ⟨r, hr, hrnan, hrvalue⟩ := Number.readHex_of_short hred
  obtain ⟨g, hg, hgnan, hgvalue⟩ := Number.readHex_of_short hgreen
  obtain ⟨b, hb, hbnan, hbvalue⟩ := Number.readHex_of_short hblue
  refine ⟨r, g, b, bind_ok hr (bind_ok hg (bind_ok hb rfl)), ?_, fun hnan => ?_, fun hnan => ?_⟩
  · rintro rfl
    exact hrnan.mpr rfl
  · rw [hrnan, hgnan, hbnan] at hnan
    rw [quantize, parse?_eq_none hnan]
  · rw [hrnan, hgnan, hbnan, not_or, not_or] at hnan
    obtain ⟨l, hl⟩ := Option.ne_none_iff_exists'.mp hnan.1
    obtain ⟨m, hm⟩ := Option.ne_none_iff_exists'.mp hnan.2.1
    obtain ⟨n, hn⟩ := Option.ne_none_iff_exists'.mp hnan.2.2
    obtain ⟨hrv, hrbounds⟩ := hrvalue l hl
    obtain ⟨hgv, hgbounds⟩ := hgvalue m hm
    obtain ⟨hbv, hbbounds⟩ := hbvalue n hn
    have hapart : ∀ e : Rgb × ℕ, apart e.1 r g b = distance e.1 ⟨l, m, n⟩ :=
      fun e => apart_eq_distance hrv hgv hbv
    have hreach := distance_lt_unreachable ⟨l, m, n⟩ hrbounds hgbounds hbbounds
    obtain ⟨e, hfirst, hnearest⟩ := nearest_of_isWritable ⟨l, m, n⟩ hrbounds hgbounds hbbounds
    refine ⟨e, ?_, ?_, fun e he => ?_⟩
    · refine hfirst.congr (fun b _ hlt => ?_) (fun b _ hle => ?_) <;> rw [hapart, hapart]
      · exact_mod_cast hlt
      · exact_mod_cast hle
    · rw [quantize, parse?_eq_some hl hm hn]
      exact hnearest
    · rw [hapart]
      exact_mod_cast hreach e he

/-- A sign, a blank and a mark without digits behind it in the places of digits. -/
def oddColor : Text := "#-f 90x".toList

theorem quantize_nearest_oddColor :
    channels oddColor = .ok (-15.0, 9.0, 0.0) ∧
      ¬ ((-15.0 : Float).isNaN = true ∨ (9.0 : Float).isNaN = true ∨ (0.0 : Float).isNaN = true) ∧
      ∃ e, IsFirstLeast (fun e => apart e.1 (-15.0) 9.0 0.0) entries e ∧ e.2 = 15 := by
  have hchannels : channels oddColor = .ok (-15.0, 9.0, 0.0) := by decide +kernel
  have hnumbers : ¬ ((-15.0 : Float).isNaN = true ∨ (9.0 : Float).isNaN = true ∨
      (0.0 : Float).isNaN = true) := by
    decide +kernel
  have hindex : quantize oddColor = 15 := by decide +kernel
  obtain ⟨r, g, b, hread, -, -, hnearest⟩ := quantize_nearest oddColor
  cases hchannels.symm.trans hread
  obtain ⟨e, hfirst, he, -⟩ := hnearest hnumbers
  exact ⟨hchannels, hnumbers, e, hfirst, he.symm.trans hindex⟩

end Palette

end VectorPaint
