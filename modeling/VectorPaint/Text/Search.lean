/-
# Finding and cutting

The library reads markup by looking for short patterns from a position onward.  There is one
search, `locate`, which walks the text once and answers with a position; all other ways of
searching are cuts at that position.

A position may be written as an integer.  A negative one counts from the end of the text and
stops at its beginning; a position past the end holds no pattern, not even the empty one.
-/
import VectorPaint.Text.Basic

namespace VectorPaint.Text

/-! ## 1. The search -/

/-- The position of the first occurrence of a pattern, in a text that starts at position `i`. -/
def locate (pattern : Text) (i : Nat) : Text → Option Nat
  | [] => if pattern.isEmpty then some i else none
  | c :: rest => if pattern.isPrefixOf (c :: rest) then some i else locate pattern (i + 1) rest

/-- The position of the first occurrence of a pattern at or after `start`. -/
def find? (pattern t : Text) (start : Nat) : Option Nat :=
  if start ≤ t.length then locate pattern start (t.drop start) else none

/-- The text before the first occurrence of a pattern, and the text from it on. -/
def cut? (pattern t : Text) : Option (Text × Text) :=
  (locate pattern 0 t).map fun i => (t.take i, t.drop i)

/-- The text up to and with the first occurrence of a code point, and the text after it. -/
def through? (c : Char) (t : Text) : Option (Text × Text) :=
  match t.dropWhile (· != c) with
  | [] => none
  | d :: rest => some (t.takeWhile (· != c) ++ [d], rest)

/-- Whether a pattern occurs in a text. -/
def occursIn (pattern t : Text) : Bool := (locate pattern 0 t).isSome

/-! ## 2. Positions -/

/-- The place an integer position names in a text of the given length. -/
def anchor (length : Nat) (position : Int) : Nat :=
  if position < 0 then (position + length).toNat else position.toNat

@[simp] theorem anchor_natCast (length i : Nat) : anchor length (i : Int) = i := by
  unfold anchor
  rw [if_neg (by omega)]
  rfl

/-- The part of a text from one position up to another. -/
def slice (t : Text) (start stop : Nat) : Text := (t.take stop).drop start

/-! ## 3. What the search answers -/

/-- **The search answers with an occurrence.**  The position it gives lies at or after the
start, inside the text or at its end, and the pattern stands there. -/
theorem locate_some {pattern t : Text} {i j : Nat} (h : locate pattern i t = some j) :
    i ≤ j ∧ j ≤ i + t.length ∧ pattern <+: t.drop (j - i) := by
  induction t generalizing i with
  | nil =>
    simp only [locate] at h
    split at h
    · rename_i he
      cases h
      refine ⟨Nat.le_refl _, by simp, ?_⟩
      rw [List.isEmpty_iff.mp he]
      exact List.nil_prefix
    · cases h
  | cons c rest ih =>
    simp only [locate] at h
    split at h
    · rename_i hp
      cases h
      refine ⟨Nat.le_refl _, by simp, ?_⟩
      simpa using List.isPrefixOf_iff_prefix.mp hp
    · obtain ⟨h1, h2, h3⟩ := ih h
      refine ⟨by omega, by simp only [List.length_cons]; omega, ?_⟩
      have he : j - i = (j - (i + 1)) + 1 := by omega
      rw [he, List.drop_succ_cons]
      exact h3

/-- **The search answers with the first occurrence.**  Before the position it gives, the
pattern stands nowhere. -/
theorem locate_first {pattern t : Text} {i j : Nat} (h : locate pattern i t = some j) :
    ∀ k, k < j - i → ¬ pattern <+: t.drop k := by
  induction t generalizing i with
  | nil =>
    simp only [locate] at h
    split at h
    · cases h
      intro k hk
      omega
    · cases h
  | cons c rest ih =>
    simp only [locate] at h
    split at h
    · cases h
      intro k hk
      omega
    · rename_i hp
      intro k hk
      cases k with
      | zero => exact fun hq => hp (List.isPrefixOf_iff_prefix.mpr (by simpa using hq))
      | succ k =>
        rw [List.drop_succ_cons]
        exact ih h k (by have := (locate_some h).1; omega)

/-- **No answer means no occurrence.** -/
theorem locate_none {pattern t : Text} {i : Nat} (h : locate pattern i t = none) :
    ∀ k, ¬ pattern <+: t.drop k := by
  induction t generalizing i with
  | nil =>
    simp only [locate] at h
    split at h
    · cases h
    · rename_i he
      intro k hk
      rw [List.drop_nil, List.prefix_nil] at hk
      exact he (by simp [hk])
  | cons c rest ih =>
    simp only [locate] at h
    split at h
    · cases h
    · rename_i hp
      intro k
      cases k with
      | zero => exact fun hq => hp (List.isPrefixOf_iff_prefix.mpr (by simpa using hq))
      | succ k =>
        rw [List.drop_succ_cons]
        exact ih h k

/-- A found position lies at or after the start and within the text, with the pattern there. -/
theorem find?_some {pattern t : Text} {start j : Nat} (h : find? pattern t start = some j) :
    start ≤ j ∧ j ≤ t.length ∧ pattern <+: t.drop j := by
  unfold find? at h
  split at h
  · rename_i hs
    obtain ⟨h1, h2, h3⟩ := locate_some h
    rw [List.length_drop] at h2
    rw [List.drop_drop] at h3
    refine ⟨h1, by omega, ?_⟩
    have he : start + (j - start) = j := by omega
    rwa [he] at h3
  · cases h

/-- A found pattern fits: it ends inside the text. -/
theorem find?_add_length_le {pattern t : Text} {start j : Nat}
    (h : find? pattern t start = some j) : j + pattern.length ≤ t.length := by
  obtain ⟨_, h2, h3⟩ := find?_some h
  have := h3.length_le
  rw [List.length_drop] at this
  omega

/-- The two sides of a cut make up the text. -/
theorem append_of_cut? {pattern t before rest : Text} (h : cut? pattern t = some (before, rest)) :
    before ++ rest = t := by
  unfold cut? at h
  obtain ⟨i, _, hi⟩ := Option.map_eq_some_iff.mp h
  cases hi
  exact List.take_append_drop i t

/-- The pattern of a cut starts its right side. -/
theorem starts_of_cut? {pattern t before rest : Text} (h : cut? pattern t = some (before, rest)) :
    pattern <+: rest := by
  unfold cut? at h
  obtain ⟨i, hl, hi⟩ := Option.map_eq_some_iff.mp h
  cases hi
  simpa using (locate_some hl).2.2

/-- A cut through a code point loses nothing. -/
theorem append_of_through? {c : Char} {t head rest : Text} (h : through? c t = some (head, rest)) :
    head ++ rest = t := by
  unfold through? at h
  split at h
  · cases h
  · rename_i d r hd
    cases h
    rw [List.append_assoc, List.singleton_append, ← hd]
    exact List.takeWhile_append_dropWhile

/-- A cut through a code point takes something away. -/
theorem length_of_through? {c : Char} {t head rest : Text} (h : through? c t = some (head, rest)) :
    rest.length < t.length := by
  unfold through? at h
  split at h
  · cases h
  · rename_i d r hd
    cases h
    have := (List.dropWhile_suffix (fun x => x != c) (l := t)).length_le
    rw [hd, List.length_cons] at this
    omega

end VectorPaint.Text
