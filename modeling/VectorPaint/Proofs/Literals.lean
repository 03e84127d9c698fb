/-
# Decimal literals in a text

A literal is spelled by a sign or none, digits with or without a point among, before or behind
them, and an exponent or none (`Spells`).  The spelling is ambiguous as a start of a text: a text
that starts with a literal mostly starts with shorter ones too, and an exponent counts only once it
has a digit.  Scanning finds the longest start that is spelled so (`longest_iff_scan?`).

The argument has two halves, and each follows the parts of a literal.  What is scanned off is
spelled right (`exists_scanSign`, `SpellsMantissa.of_scan`, `exists_scanExponent`).  And a part
that is spelled right in front of a text is scanned off at least that far: what is left is an end
of what stands behind (`SpellsMantissa.scansTo`, `SpellsExponent.scan_append`).  Where no more
than the part is scanned off it is read as what it spells, so a text spells one literal at most.
-/
import VectorPaint.Proofs.Float.Decimals

namespace VectorPaint

/-! ## 1. Digits -/

namespace Text

theorem isBlank_of_mem_digitZeros : ∀ first ∈ digitZeros, ∀ i < 10,
    isBlank (Char.ofNat (first + i)) = false := by
  decide +kernel

/-- No digit is blank. -/
theorem isBlank_of_isDigit {c : Char} (h : isDigit c = true) : isBlank c = false := by
  obtain ⟨d, hd⟩ := Option.isSome_iff_exists.mp h
  unfold digit? at hd
  split at hd
  · split at hd
    · rename_i hc
      simp only [Bool.and_eq_true, decide_eq_true_eq] at hc
      unfold isBlank
      simp only [Bool.or_eq_false_iff, Bool.and_eq_false_iff, decide_eq_false_iff_not,
        beq_eq_false_iff_ne]
      omega
    · cases hd
  · obtain ⟨first, hfirst, -⟩ := Option.map_eq_some_iff.mp hd
    have hrange := List.find?_some hfirst
    simp only [Bool.and_eq_true, decide_eq_true_eq] at hrange
    have hc : Char.ofNat (first + (c.toNat - first)) = c := by
      rw [Nat.add_sub_cancel' hrange.1, Char.ofNat_toNat]
    rw [← hc]
    exact isBlank_of_mem_digitZeros first (List.mem_of_find?_eq_some hfirst) _ (by omega)

/-- The ASCII digits have the values that core gives them. -/
theorem digit?_of_isDigit {c : Char} (h : c.isDigit = true) :
    digit? c = some (c.toNat - '0'.toNat) := by
  have hcode := Char.isDigit_iff_toNat.mp h
  change 48 ≤ c.toNat ∧ c.toNat ≤ 57 at hcode
  unfold digit?
  rw [if_pos (by omega), if_pos (by simp [hcode])]
  rfl

/-- **The digits of a number write the number.** -/
theorem digitsValue_ofNat (n : ℕ) : digitsValue (ofNat n) = n := by
  have hvalue : ∀ c ∈ Nat.toDigits 10 n, (digit? c).getD 0 = c.toNat - '0'.toNat := by
    intro c hc
    rw [digit?_of_isDigit (Nat.isDigit_of_mem_toDigits (by decide) (by decide) hc),
      Option.getD_some]
  calc digitsValue (ofNat n)
      = Nat.ofDigitChars 10 (Nat.toDigits 10 n) 0 :=
        List.foldl_ext _ _ _ fun m c hc => by rw [hvalue c hc]
    _ = n := Nat.ofDigitChars_toDigits (by decide) (by decide)

end Text

namespace Number

/-! ## 2. The spelling of a literal -/

/-- A run of at least one digit. -/
structure IsDigits (t : Text) : Prop where
  ne_nil : t ≠ []
  isDigit : ∀ c ∈ t, Text.isDigit c = true

/-- The digits of a number are such a run. -/
theorem isDigits_ofNat (n : ℕ) : IsDigits (Text.ofNat n) := by
  refine ⟨Nat.toDigits_ne_nil, fun c hc => ?_⟩
  have hc' := Nat.isDigit_of_mem_toDigits (by decide) (by decide) hc
  rw [Text.isDigit, Text.digit?_of_isDigit hc', Option.isSome_some]

/-- A sign, or none. -/
inductive SpellsSign : Text → Bool → Prop
  | none : SpellsSign [] false
  | plus : SpellsSign ['+'] false
  | minus : SpellsSign ['-'] true

/-- The digits of a literal, with those before and those behind the point. -/
inductive SpellsMantissa : Text → Text → Text → Prop
  | whole {front : Text} (h : IsDigits front) : SpellsMantissa front front []
  | pointed {front : Text} (h : IsDigits front) : SpellsMantissa (front ++ ['.']) front []
  | decimal {front behind : Text} (h : IsDigits front) (h' : IsDigits behind) :
    SpellsMantissa (front ++ '.' :: behind) front behind
  | fraction {behind : Text} (h : IsDigits behind) : SpellsMantissa ('.' :: behind) [] behind

/-- An exponent, or none. -/
inductive SpellsExponent : Text → ℤ → Prop
  | none : SpellsExponent [] 0
  | written {mark : Char} {s digits : Text} {negative : Bool} (hmark : mark = 'e' ∨ mark = 'E')
    (hsign : SpellsSign s negative) (h : IsDigits digits) :
    SpellsExponent (mark :: (s ++ digits))
      (if negative then -Text.digitsValue digits else Text.digitsValue digits)

/-- A text spells a literal. -/
inductive Spells : Text → Literal → Prop
  | mk {s m e front behind : Text} {negative : Bool} {n : ℤ} (hsign : SpellsSign s negative)
    (hm : SpellsMantissa m front behind) (he : SpellsExponent e n) :
    Spells (s ++ (m ++ e)) ⟨negative, Text.digitsValue (front ++ behind), n - behind.length⟩

/-- The longest literal that a text starts with. -/
structure Longest (t p : Text) (l : Literal) : Prop where
  spells : Spells p l
  starts : p <+: t
  longest : ∀ p' l', Spells p' l' → p' <+: t → p'.length ≤ p.length

variable {s t u m e p front behind digits body rest : Text} {negative : Bool} {n : ℤ} {l : Literal}

/-! ## 3. Signs -/

/-- What is scanned off as a sign is one. -/
theorem exists_scanSign (t : Text) :
    ∃ s, t = s ++ (scanSign t).2 ∧ SpellsSign s (scanSign t).1 := by
  unfold scanSign
  split
  · exact ⟨['-'], rfl, .minus⟩
  · exact ⟨['+'], rfl, .plus⟩
  · exact ⟨[], rfl, .none⟩

/-- A sign is scanned off, unless another one follows. -/
theorem SpellsSign.scan_append (h : SpellsSign s negative)
    (hbody : ∀ c ∈ body.head?, c ≠ '-' ∧ c ≠ '+') : scanSign (s ++ body) = (negative, body) := by
  cases h with
  | none =>
    rw [List.nil_append]
    unfold scanSign
    split
    · exact absurd rfl (hbody '-' rfl).1
    · exact absurd rfl (hbody '+' rfl).2
    · rfl
  | plus => rfl
  | minus => rfl

/-- Digits start with no sign. -/
theorem not_sign_of_isDigit {c : Char} (h : Text.isDigit c = true) : c ≠ '-' ∧ c ≠ '+' := by
  constructor <;> rintro rfl <;> exact absurd h (by decide)

theorem IsDigits.not_sign_append (h : IsDigits digits) (u : Text) :
    ∀ c ∈ (digits ++ u).head?, c ≠ '-' ∧ c ≠ '+' := by
  obtain ⟨first, rest, rfl⟩ := List.exists_cons_of_ne_nil h.ne_nil
  intro c hc
  cases hc
  exact not_sign_of_isDigit (h.isDigit _ List.mem_cons_self)

/-! ## 4. Digits and a point -/

/-- Digits behind digits are scanned off with them. -/
theorem takeWhile_digits_append (h : ∀ c ∈ digits, Text.isDigit c = true) :
    (digits ++ u).takeWhile Text.isDigit = digits ++ u.takeWhile Text.isDigit :=
  List.takeWhile_append_of_pos h

theorem dropWhile_digits_append (h : ∀ c ∈ digits, Text.isDigit c = true) :
    (digits ++ u).dropWhile Text.isDigit = u.dropWhile Text.isDigit :=
  List.dropWhile_append_of_pos h

theorem isDigit_of_mem_takeWhile : ∀ c ∈ t.takeWhile Text.isDigit, Text.isDigit c = true :=
  fun _ => List.mem_takeWhile_imp

/-- What starts with no digit has none to scan off. -/
theorem takeWhile_digits_eq_nil (h : u.dropWhile Text.isDigit = u) :
    u.takeWhile Text.isDigit = [] := by
  have hsplit := List.takeWhile_append_dropWhile (p := Text.isDigit) (l := u)
  rw [h] at hsplit
  exact List.append_left_eq_self.mp hsplit

theorem dropWhile_digits_eq_self (h : ∀ c ∈ u.head?, Text.isDigit c = false) :
    u.dropWhile Text.isDigit = u := by
  cases u with
  | nil => rfl
  | cons c rest => exact List.dropWhile_cons_of_neg (by simp [h c rfl])

theorem isDigit_head_dropWhile : ∀ c ∈ (u.dropWhile Text.isDigit).head?,
    Text.isDigit c = false := by
  intro c hc
  have hhead := List.head?_dropWhile_not Text.isDigit u
  rw [Option.mem_def.mp hc] at hhead
  exact hhead

/-- A text starts with neither a digit nor a point. -/
def StopsDigits (u : Text) : Prop := ∀ c ∈ u.head?, Text.isDigit c = false ∧ c ≠ '.'

theorem StopsDigits.dropWhile_eq (h : StopsDigits u) : u.dropWhile Text.isDigit = u :=
  dropWhile_digits_eq_self fun c hc => (h c hc).1

/-- The digits around a point. -/
theorem scanMantissa?_point {front behind : Text} (hfront : ∀ c ∈ front, Text.isDigit c = true)
    (hbehind : ∀ c ∈ behind, Text.isDigit c = true) (hne : front ≠ [] ∨ behind ≠ []) (u : Text) :
    scanMantissa? (front ++ '.' :: (behind ++ u)) =
      some (front, behind ++ u.takeWhile Text.isDigit, u.dropWhile Text.isDigit) := by
  have hfront' : (front ++ '.' :: (behind ++ u)).takeWhile Text.isDigit = front := by
    rw [takeWhile_digits_append hfront, List.takeWhile_cons_of_neg (by decide), List.append_nil]
  have hrest : (front ++ '.' :: (behind ++ u)).dropWhile Text.isDigit = '.' :: (behind ++ u) := by
    rw [dropWhile_digits_append hfront, List.dropWhile_cons_of_neg (by decide)]
  unfold scanMantissa?
  rw [hfront', hrest]
  simp only
  rw [takeWhile_digits_append hbehind, dropWhile_digits_append hbehind, if_neg]
  rcases hne with h | h <;> simp [h]

/-- Digits without a point. -/
theorem scanMantissa?_whole (h : IsDigits front) (hu : StopsDigits u) :
    scanMantissa? (front ++ u) = some (front, [], u) := by
  unfold scanMantissa?
  rw [takeWhile_digits_append h.isDigit, dropWhile_digits_append h.isDigit, hu.dropWhile_eq,
    takeWhile_digits_eq_nil hu.dropWhile_eq, List.append_nil]
  split
  · exact absurd rfl (hu '.' rfl).2
  · rw [if_neg (by simp [h.ne_nil])]

/-- What is scanned off as digits and a point is spelled so. -/
theorem SpellsMantissa.of_scan (h : scanMantissa? t = some (front, behind, rest)) :
    ∃ m, t = m ++ rest ∧ SpellsMantissa m front behind := by
  have hsplit := List.takeWhile_append_dropWhile (p := Text.isDigit) (l := t)
  have hfront := isDigit_of_mem_takeWhile (t := t)
  unfold scanMantissa? at h
  generalize t.takeWhile Text.isDigit = digits at hsplit hfront h
  split at h
  · rename_i tail heq
    have htail := List.takeWhile_append_dropWhile (p := Text.isDigit) (l := tail)
    have hbehind := isDigit_of_mem_takeWhile (t := tail)
    dsimp only at h
    generalize tail.takeWhile Text.isDigit = digits' at htail hbehind h
    rw [heq, ← htail] at hsplit
    split at h
    · cases h
    · rename_i hne
      cases h
      refine ⟨front ++ '.' :: behind, by rw [← hsplit]; simp, ?_⟩
      by_cases hf : front = []
      · subst hf
        exact .fraction ⟨by simpa using hne, hbehind⟩
      · by_cases hb : behind = []
        · subst hb
          exact .pointed ⟨hf, hfront⟩
        · exact .decimal ⟨hf, hfront⟩ ⟨hb, hbehind⟩
  · dsimp only at h
    split at h
    · cases h
    · rename_i hne
      cases h
      exact ⟨front, hsplit.symm, .whole ⟨by simpa using hne, hfront⟩⟩

/-- Scanning a text for digits and a point comes at least as far as the text `u` at its end.  If it
comes no further it finds the given digits, and if `u` starts with neither a digit nor a point it
comes no further. -/
def ScansTo (t front behind u : Text) : Prop :=
  ∃ front' behind' rest, scanMantissa? t = some (front', behind', rest) ∧ rest <:+ u ∧
    (rest = u → front' = front ∧ behind' = behind) ∧ (StopsDigits u → rest = u)

/-- Behind a point there are digits only, so all that can be scanned off in excess are digits. -/
theorem scansTo_point {front behind : Text} (hfront : ∀ c ∈ front, Text.isDigit c = true)
    (hbehind : ∀ c ∈ behind, Text.isDigit c = true) (hne : front ≠ [] ∨ behind ≠ []) (u : Text) :
    ScansTo (front ++ '.' :: (behind ++ u)) front behind u := by
  refine ⟨_, _, _, scanMantissa?_point hfront hbehind hne u, List.dropWhile_suffix _,
    fun heq => ⟨rfl, ?_⟩, StopsDigits.dropWhile_eq⟩
  rw [takeWhile_digits_eq_nil heq, List.append_nil]

/-- Behind digits more of them may follow, and then a point with digits of its own. -/
theorem IsDigits.scansTo (h : IsDigits front) (u : Text) : ScansTo (front ++ u) front [] u := by
  have hsplit := List.takeWhile_append_dropWhile (p := Text.isDigit) (l := u)
  have hmore : IsDigits (front ++ u.takeWhile Text.isDigit) :=
    ⟨by simp [h.ne_nil], fun c hc => (List.mem_append.mp hc).elim (h.isDigit c)
      (isDigit_of_mem_takeWhile c)⟩
  by_cases hdot : (u.dropWhile Text.isDigit).head? = some '.'
  · obtain ⟨tail, htail⟩ := List.head?_eq_some_iff.mp hdot
    have hscan := scanMantissa?_point hmore.isDigit (List.forall_mem_nil _) (.inl hmore.ne_nil) tail
    rw [List.nil_append, List.append_assoc, ← htail, hsplit] at hscan
    have hshort : (tail.dropWhile Text.isDigit).length < u.length := by
      have h1 := (List.dropWhile_suffix (l := tail) Text.isDigit).length_le
      have h2 := (List.dropWhile_suffix (l := u) Text.isDigit).length_le
      rw [htail, List.length_cons] at h2
      omega
    refine ⟨_, _, _, hscan, ?_, fun heq => ?_, fun hu => ?_⟩
    · calc tail.dropWhile Text.isDigit <:+ tail := List.dropWhile_suffix _
        _ <:+ '.' :: tail := List.suffix_cons _ _
        _ = u.dropWhile Text.isDigit := htail.symm
        _ <:+ u := List.dropWhile_suffix _
    · rw [heq] at hshort
      exact absurd hshort (lt_irrefl _)
    · rw [hu.dropWhile_eq] at hdot
      exact absurd rfl (hu '.' hdot).2
  · have hstop : StopsDigits (u.dropWhile Text.isDigit) := fun c hc =>
      ⟨isDigit_head_dropWhile c hc, by rintro rfl; exact hdot hc⟩
    have hscan := scanMantissa?_whole hmore hstop
    rw [List.append_assoc, hsplit] at hscan
    refine ⟨_, _, _, hscan, List.dropWhile_suffix _, fun heq => ⟨?_, rfl⟩,
      StopsDigits.dropWhile_eq⟩
    rw [takeWhile_digits_eq_nil heq, List.append_nil]

/-- **Digits and a point are scanned off at least as far as they are spelled.** -/
theorem SpellsMantissa.scansTo (h : SpellsMantissa m front behind) (u : Text) :
    ScansTo (m ++ u) front behind u := by
  cases h with
  | whole h => exact h.scansTo u
  | pointed h =>
    rw [List.append_assoc]
    exact scansTo_point h.isDigit (List.forall_mem_nil _) (.inl h.ne_nil) u
  | decimal h h' =>
    rw [List.append_assoc]
    exact scansTo_point h.isDigit h'.isDigit (.inl h.ne_nil) u
  | fraction h => exact scansTo_point (List.forall_mem_nil _) h.isDigit (.inr h.ne_nil) u

/-- Digits and a point start with one or the other. -/
theorem SpellsMantissa.exists_cons (h : SpellsMantissa m front behind) :
    ∃ c tail, m = c :: tail ∧ (Text.isDigit c = true ∨ c = '.') := by
  have hdigits : ∀ {front : Text}, IsDigits front → ∀ u : Text,
      ∃ c tail, front ++ u = c :: tail ∧ (Text.isDigit c = true ∨ c = '.') := by
    intro front h u
    obtain ⟨c, tail, rfl⟩ := List.exists_cons_of_ne_nil h.ne_nil
    exact ⟨c, tail ++ u, rfl, Or.inl (h.isDigit c List.mem_cons_self)⟩
  cases h with
  | whole h => simpa using hdigits h []
  | pointed h => exact hdigits h _
  | decimal h _ => exact hdigits h _
  | fraction h => exact ⟨'.', behind, rfl, Or.inr rfl⟩

/-! ## 5. Exponents -/

/-- What is scanned off as an exponent is one. -/
theorem exists_scanExponent (t : Text) :
    ∃ e, t = e ++ (scanExponent t).2 ∧ SpellsExponent e (scanExponent t).1 := by
  unfold scanExponent
  split
  · exact ⟨[], rfl, .none⟩
  · rename_i mark tail
    split
    · rename_i hmark
      obtain ⟨s, hs, hsign⟩ := exists_scanSign tail
      have hsplit := List.takeWhile_append_dropWhile (p := Text.isDigit) (l := (scanSign tail).2)
      dsimp only
      split
      · exact ⟨[], rfl, .none⟩
      · rename_i hne
        refine ⟨mark :: (s ++ (scanSign tail).2.takeWhile Text.isDigit), ?_, .written ?_ hsign
          ⟨by simpa using hne, isDigit_of_mem_takeWhile⟩⟩
        · rw [List.cons_append, List.append_assoc, hsplit, ← hs]
        · simpa using hmark
    · exact ⟨[], rfl, .none⟩

theorem SpellsExponent.eq_zero (h : SpellsExponent [] n) : n = 0 := by
  cases h
  rfl

/-- **An exponent is scanned off at least as far as it is spelled.** -/
theorem SpellsExponent.scan_append (h : SpellsExponent e n) (u : Text) :
    (scanExponent (e ++ u)).2 <:+ u ∧ ((scanExponent (e ++ u)).2 = u →
      (scanExponent (e ++ u)).1 = n) := by
  cases h with
  | none =>
    rw [List.nil_append]
    obtain ⟨e, he, hspells⟩ := exists_scanExponent u
    refine ⟨⟨e, he.symm⟩, fun heq => ?_⟩
    rw [heq] at he
    rw [List.self_eq_append_left.mp he] at hspells
    exact hspells.eq_zero
  | @written mark s digits negative hmark hsign h =>
    have hmark' : (mark == 'e' || mark == 'E') = true := by simpa using hmark
    have hscan : scanExponent (mark :: (s ++ digits) ++ u) =
        ((if negative then -Text.digitsValue (digits ++ u.takeWhile Text.isDigit)
          else Text.digitsValue (digits ++ u.takeWhile Text.isDigit) : ℤ),
          u.dropWhile Text.isDigit) := by
      rw [List.cons_append, List.append_assoc]
      unfold scanExponent
      dsimp only
      rw [if_pos hmark', hsign.scan_append (h.not_sign_append u)]
      dsimp only
      rw [takeWhile_digits_append h.isDigit, dropWhile_digits_append h.isDigit,
        if_neg (by simp [h.ne_nil])]
    rw [hscan]
    refine ⟨List.dropWhile_suffix _, fun heq => ?_⟩
    dsimp only at heq ⊢
    rw [takeWhile_digits_eq_nil heq, List.append_nil]

/-! ## 6. Literals -/

/-- What is scanned off as a literal is spelled so. -/
theorem Spells.of_scan (h : Literal.scan? t = some (l, rest)) :
    ∃ p, t = p ++ rest ∧ Spells p l := by
  obtain ⟨s, hs, hsign⟩ := exists_scanSign t
  unfold Literal.scan? at h
  dsimp only at h
  split at h
  · cases h
  · rename_i front behind tail hm
    obtain ⟨m, hsplit, hm⟩ := SpellsMantissa.of_scan hm
    obtain ⟨e, he, hexponent⟩ := exists_scanExponent tail
    cases h
    refine ⟨s ++ (m ++ e), ?_, .mk hsign hm hexponent⟩
    rw [List.append_assoc, List.append_assoc, ← he, ← hsplit, ← hs]

/-- **A literal in front of a text is scanned off at least as far as it is spelled,** and read as
what it spells if no more than it is scanned off. -/
theorem Spells.scan_append (h : Spells p l) (u : Text) :
    ∃ l' rest, Literal.scan? (p ++ u) = some (l', rest) ∧ rest <:+ u ∧ (rest = u → l' = l) := by
  cases h with
  | @mk s m e front behind negative n hsign hm he =>
    obtain ⟨c, tail, hc, hfirst⟩ := hm.exists_cons
    have hbody : ∀ d ∈ (m ++ (e ++ u)).head?, d ≠ '-' ∧ d ≠ '+' := by
      rw [hc]
      intro d hd
      cases hd
      rcases hfirst with hdigit | rfl
      · exact not_sign_of_isDigit hdigit
      · decide
    obtain ⟨front', behind', rest, hscan, hsuffix, hsame, hstop⟩ := hm.scansTo (e ++ u)
    have hscan' : Literal.scan? (s ++ (m ++ e) ++ u) =
        some (⟨negative, Text.digitsValue (front' ++ behind'),
          (scanExponent rest).1 - behind'.length⟩, (scanExponent rest).2) := by
      rw [List.append_assoc, List.append_assoc]
      unfold Literal.scan?
      rw [hsign.scan_append hbody]
      dsimp only
      rw [hscan]
    refine ⟨_, _, hscan', ?_⟩
    cases he with
    | none =>
      -- What is scanned off in excess may be digits, a point or an exponent.
      obtain ⟨e, he, hspells⟩ := exists_scanExponent rest
      have hrest : (scanExponent rest).2 <:+ rest := ⟨e, he.symm⟩
      refine ⟨hrest.trans hsuffix, fun heq => ?_⟩
      have hfull : rest = u :=
        hsuffix.eq_of_length_le (by rw [← heq]; exact hrest.length_le)
      rw [heq, hfull] at he
      rw [List.self_eq_append_left.mp he] at hspells
      obtain ⟨rfl, rfl⟩ := hsame hfull
      rw [hspells.eq_zero]
    | @written mark s' digits negative' hmark hsign' hdigits =>
      have hfull : rest = mark :: (s' ++ digits) ++ u := hstop (by
        intro d hd
        cases hd
        rcases hmark with rfl | rfl <;> decide)
      obtain ⟨hsuffix', hsame'⟩ := (SpellsExponent.written hmark hsign' hdigits).scan_append u
      obtain ⟨rfl, rfl⟩ := hsame hfull
      rw [hfull]
      exact ⟨hsuffix', fun heq => by rw [hsame' heq]⟩

/-- A spelled literal is scanned to its end. -/
theorem Spells.scan (h : Spells p l) : Literal.scan? p = some (l, []) := by
  obtain ⟨l', rest, hscan, hsuffix, hsame⟩ := h.scan_append []
  rw [List.append_nil] at hscan
  obtain rfl := List.eq_nil_of_suffix_nil hsuffix
  rw [hscan, hsame rfl]

/-- **Scanning finds the longest literal.** -/
theorem longest_iff_scan? :
    Longest t p l ↔ ∃ rest, Literal.scan? t = some (l, rest) ∧ t = p ++ rest := by
  constructor
  · rintro ⟨hspells, ⟨u, rfl⟩, hlongest⟩
    obtain ⟨l', rest, hscan, hsuffix, hsame⟩ := hspells.scan_append u
    obtain ⟨p', hsplit, hspells'⟩ := Spells.of_scan hscan
    have hlen := congrArg List.length hsplit
    have hle := hlongest p' l' hspells' ⟨rest, hsplit.symm⟩
    rw [List.length_append, List.length_append] at hlen
    obtain rfl : rest = u := hsuffix.eq_of_length_le (by omega)
    rw [hsame rfl] at hscan
    exact ⟨rest, hscan, rfl⟩
  · rintro ⟨rest, hscan, rfl⟩
    obtain ⟨p', hsplit, hspells⟩ := Spells.of_scan hscan
    obtain rfl := List.append_cancel_right hsplit
    refine ⟨hspells, List.prefix_append _ _, fun q l' hq hprefix => ?_⟩
    obtain ⟨u, hu⟩ := hprefix
    obtain ⟨l'', rest', hscan', hsuffix, -⟩ := hq.scan_append u
    rw [hu, hscan] at hscan'
    cases hscan'
    have hlen := congrArg List.length hu
    have hle := hsuffix.length_le
    rw [List.length_append, List.length_append] at hlen
    omega

/-- Where nothing is scanned off the text starts with no literal. -/
theorem scan?_eq_none_iff :
    Literal.scan? t = none ↔ ∀ p l, Spells p l → ¬ p <+: t := by
  constructor
  · rintro hscan p l hspells ⟨u, rfl⟩
    obtain ⟨l', rest, hscan', -⟩ := hspells.scan_append u
    rw [hscan] at hscan'
    cases hscan'
  · intro h
    rw [Option.eq_none_iff_forall_ne_some]
    rintro ⟨l, rest⟩ hscan
    obtain ⟨p, hsplit, hspells⟩ := Spells.of_scan hscan
    exact h p l hspells ⟨rest, hsplit.symm⟩

/-! ## 7. Reading -/

/-- A literal starts with no blank. -/
theorem Spells.exists_cons (h : Spells p l) :
    ∃ c tail, p = c :: tail ∧ Text.isBlank c = false := by
  cases h with
  | @mk s m e front behind negative n hsign hm he =>
    cases hsign with
    | none =>
      obtain ⟨c, tail, rfl, hfirst⟩ := hm.exists_cons
      refine ⟨c, tail ++ e, rfl, ?_⟩
      rcases hfirst with hdigit | rfl
      · exact Text.isBlank_of_isDigit hdigit
      · decide
    | plus => exact ⟨'+', _, rfl, by decide⟩
    | minus => exact ⟨'-', _, rfl, by decide⟩

/-- So a literal has no blanks to trim. -/
theorem Spells.trimStart_eq (h : Spells p l) : p.trimStart = p := by
  obtain ⟨c, tail, rfl, hc⟩ := h.exists_cons
  exact List.dropWhile_cons_of_neg (by simp [hc])

/-- What stands behind a text that is not blank is not trimmed. -/
theorem trimStart_append (h : t.trimStart ≠ []) : (t ++ u).trimStart = t.trimStart ++ u := by
  have h' : (t.dropWhile Text.isBlank).isEmpty = false := by simpa [Text.trimStart] using h
  unfold Text.trimStart
  rw [List.dropWhile_append, if_neg (by rw [h']; decide)]

/-- **A text is read as the longest literal that it starts with.** -/
theorem Longest.read_eq (h : Longest t.trimStart p l) : read t = l.value := by
  obtain ⟨rest, hscan, -⟩ := longest_iff_scan?.mp h
  rw [read, hscan]

/-- A spelled literal is read as it is spelled. -/
theorem Spells.read_eq (h : Spells p l) : read p = l.value :=
  Longest.read_eq (longest_iff_scan?.mpr ⟨[], by rw [h.trimStart_eq, h.scan],
    by rw [h.trimStart_eq, List.append_nil]⟩)

/-- **Reading takes the longest literal that a text starts with,** blanks aside: if there is any
literal there is a longest one, and what is read is the float nearest to it.  If there is none,
what is read is no number.  What stands behind does not matter as long as no longer literal comes
about. -/
theorem read_longest_literal (t : Text) :
    ((∃ p l, Spells p l ∧ p <+: t.trimStart) → ∃ p l, Longest t.trimStart p l) ∧
    (∀ p l, Longest t.trimStart p l → IsSignedNearest l.sign (read t) l.exact) ∧
    ((∀ p l, Spells p l → ¬ p <+: t.trimStart) → (read t).isNaN = true) ∧
    ∀ u p l, Spells p l → p <+: t.trimStart →
      (∀ p' l', Spells p' l' → p' <+: (t ++ u).trimStart → p'.length ≤ p.length) →
      read (t ++ u) = read t := by
  refine ⟨?_, fun p l h => ?_, fun hnone => ?_, fun u p l hspells hstarts hlongest => ?_⟩
  · rintro ⟨p, l, hspells, hstarts⟩
    cases hscan : Literal.scan? t.trimStart with
    | none => exact absurd hstarts (scan?_eq_none_iff.mp hscan p l hspells)
    | some found =>
      obtain ⟨l, rest⟩ := found
      obtain ⟨p', hsplit, -⟩ := Spells.of_scan hscan
      exact ⟨p', l, longest_iff_scan?.mpr ⟨rest, hscan, hsplit⟩⟩
  · rw [h.read_eq]
    exact l.isNearest_value
  · rw [read, scan?_eq_none_iff.mpr hnone]
    decide +kernel
  · -- Behind a literal nothing is trimmed, so the literal starts both texts.
    have hne : t.trimStart ≠ [] := by
      obtain ⟨c, tail, rfl, -⟩ := hspells.exists_cons
      intro hnil
      rw [hnil] at hstarts
      exact List.cons_ne_nil _ _ (List.prefix_nil.mp hstarts)
    rw [trimStart_append hne] at hlongest
    have hmore : t.trimStart <+: t.trimStart ++ u := List.prefix_append _ _
    have hlong : Longest t.trimStart p l :=
      ⟨hspells, hstarts, fun p' l' h h' => hlongest p' l' h (h'.trans hmore)⟩
    have hlong' : Longest (t ++ u).trimStart p l := by
      rw [trimStart_append hne]
      exact ⟨hspells, hstarts.trans hmore, hlongest⟩
    rw [hlong'.read_eq, hlong.read_eq]

/-- An exponent counts once it has a digit, and a second one does not count. -/
theorem read_longest_literal_open_exponent :
    IsSignedNearest .negative (read " \u2003-1.e5e+".toList) (-100000) ∧
      read (" \u2003-1.e5e+".toList ++ ['7']) = read " \u2003-1.e5e+".toList ∧
      (read "-.e5".toList).isNaN = true := by
  have hlong : Longest (Text.trimStart " \u2003-1.e5e+".toList) "-1.e5".toList ⟨true, 1, 5⟩ :=
    longest_iff_scan?.mpr ⟨"e+".toList, by decide +kernel, by decide +kernel⟩
  have hlong' : Longest (Text.trimStart (" \u2003-1.e5e+".toList ++ ['7'])) "-1.e5".toList
      ⟨true, 1, 5⟩ :=
    longest_iff_scan?.mpr ⟨"e+7".toList, by decide +kernel, by decide +kernel⟩
  refine ⟨?_, ?_, ?_⟩
  · have hnearest := (read_longest_literal _).2.1 _ _ hlong
    have hexact : Literal.exact ⟨true, 1, 5⟩ = -100000 := by
      change (-1 : ℚ) * ((1 : ℕ) * 10 ^ (5 : ℤ)) = _
      norm_num
    rw [hexact] at hnearest
    exact hnearest
  · exact (read_longest_literal _).2.2.2 _ _ _ hlong.spells hlong.starts hlong'.longest
  · exact (read_longest_literal _).2.2.1 (scan?_eq_none_iff.mp (by decide +kernel))

end Number

end VectorPaint
