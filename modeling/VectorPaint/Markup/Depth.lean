/-
# How deep groups can be

Each level of groups re-reads the text inside a group as a document of its own, and replacing
references can make that text longer.  What cannot grow is the number of `>`: a definition
has exactly one, a reference is replaced by at most one definition, and the numbers written into
it have none.

* `depth_expand_le`: replacing a text's references with its own definitions adds no `>`.
* `depth_slice_lt`: what stands before a `</g>` has fewer `>` than the text.

So the number of `>` bounds how deep groups can be nested.
-/
import VectorPaint.Document

namespace VectorPaint.Markup

/-- The number of `>` in a text, which bounds how deep its groups are nested. -/
def depth (t : Text) : Nat := t.count '>'

@[simp] theorem depth_append (s t : Text) : depth (s ++ t) = depth s + depth t :=
  List.count_append

@[simp] theorem depth_nil : depth [] = 0 := rfl

@[simp] theorem depth_cons (c : Char) (t : Text) :
    depth (c :: t) = depth t + if c = '>' then 1 else 0 := by
  simp [depth, List.count_cons]

/-- A text without `>` has no depth. -/
theorem depth_eq_zero {t : Text} (h : '>' ∉ t) : depth t = 0 := List.count_eq_zero.mpr h

/-- Cutting a text in two keeps its depth. -/
theorem depth_take_add_depth_drop (n : Nat) (t : Text) :
    depth (t.take n) + depth (t.drop n) = depth t := by
  rw [← depth_append, List.take_append_drop]

/-! ## 1. The code points of a number -/

/-- Whether a number in markup can hold a code point. -/
def isNumeral (c : Char) : Bool :=
  c.isDigit || ['+', '-', '.', 'e', 'n', 'a', 'N', 'i', 'f', 'I', 't', 'y'].contains c

theorem ofNat_numeral (n : Nat) : ∀ c ∈ Text.ofNat n, isNumeral c = true := by
  intro c hc
  unfold isNumeral
  rw [Nat.isDigit_of_mem_toDigits (by decide) (by decide) hc, Bool.true_or]

theorem ofInt_numeral (n : Int) : ∀ c ∈ Text.ofInt n, isNumeral c = true := by
  unfold Text.ofInt
  split
  · rw [List.forall_mem_cons]
    exact ⟨by decide, ofNat_numeral n.natAbs⟩
  · exact ofNat_numeral n.natAbs

theorem signText_numeral (s : Float.Model.UnpackedFloat.Sign) :
    ∀ c ∈ Number.signText s, isNumeral c = true := by
  cases s <;> exact List.all_eq_true.mp (by decide)

theorem zeros_numeral (n : Nat) : ∀ c ∈ List.replicate n '0', isNumeral c = true := by
  intro c hc
  rw [(List.mem_replicate.mp hc).2]
  decide

theorem plain_numeral (d : Number.Decimal) : ∀ c ∈ d.plain, isNumeral c = true := by
  have hd := ofNat_numeral d.digits
  unfold Number.Decimal.plain
  dsimp only
  split
  · simp only [List.forall_mem_append]
    exact ⟨⟨hd, zeros_numeral _⟩, List.all_eq_true.mp (by decide)⟩
  · split
    · simp only [List.forall_mem_append, List.forall_mem_cons]
      exact ⟨fun c hc => hd c (List.mem_of_mem_take hc), by decide,
        fun c hc => hd c (List.mem_of_mem_drop hc)⟩
    · simp only [List.forall_mem_append, List.forall_mem_cons]
      exact ⟨⟨by decide, by decide, zeros_numeral _⟩, hd⟩

theorem scientific_numeral (d : Number.Decimal) : ∀ c ∈ d.scientific, isNumeral c = true := by
  have hd := ofNat_numeral d.digits
  have hw := ofNat_numeral
    (d.exponent + ((Text.ofNat d.digits).length : Int) - 1).natAbs
  unfold Number.Decimal.scientific
  generalize Text.ofNat d.digits = digits at hd hw ⊢
  dsimp only
  simp only [List.forall_mem_append, List.forall_mem_cons]
  refine ⟨?_, by decide, ?_, zeros_numeral _, hw⟩
  · split
    · simp only [List.forall_mem_cons] at hd ⊢
      exact ⟨hd.1, by decide, hd.2⟩
    · exact hd
  · split <;> decide

theorem shown_numeral (x : Float) : ∀ c ∈ Number.shown x, isNumeral c = true := by
  unfold Number.shown
  split
  · exact List.all_eq_true.mp (by decide)
  · rename_i sign _
    rw [List.forall_mem_append]
    exact ⟨signText_numeral sign, List.all_eq_true.mp (by decide)⟩
  · rename_i sign _
    rw [List.forall_mem_append]
    exact ⟨signText_numeral sign, List.all_eq_true.mp (by decide)⟩
  · rename_i sign mantissa exponent _ _
    rw [List.forall_mem_append]
    refine ⟨signText_numeral sign, ?_⟩
    unfold Number.Decimal.shown
    dsimp only
    split
    · exact plain_numeral _
    · exact scientific_numeral _

theorem spliced_numeral (x : Float) : ∀ c ∈ Number.spliced x, isNumeral c = true := by
  unfold Number.spliced
  split
  · split
    · exact ofInt_numeral _
    · exact shown_numeral x
  · split
    · exact List.all_eq_true.mp (by decide)
    · split <;> exact List.all_eq_true.mp (by decide)

/-- The text of a number in markup holds no mark of markup. -/
theorem not_mem_spliced {c : Char} (h : isNumeral c = false) (x : Float) :
    c ∉ Number.spliced x := by
  intro hc
  rw [spliced_numeral x c hc] at h
  cases h

/-! ## 2. Definitions and references -/

/-- A cut through the next `>` has exactly that one on its left. -/
theorem depth_of_through? {t head rest : Text} (h : Text.through? '>' t = some (head, rest)) :
    depth head = 1 := by
  unfold Text.through? at h
  split at h
  · cases h
  · rename_i d r hd
    cases h
    have hmark : d = '>' := by
      have := List.head?_dropWhile_not (fun x : Char => x != '>') t
      rw [hd] at this
      simpa using this
    have hnone : '>' ∉ t.takeWhile (fun x : Char => x != '>') := by
      intro hm
      have hall := List.all_takeWhile (p := fun x : Char => x != '>') (l := t)
      rw [List.all_eq_true] at hall
      simpa using hall _ hm
    rw [depth_append, depth_eq_zero hnone, hmark]
    rfl

/-- Every definition of a text has exactly one `>`. -/
theorem depth_of_mem_definitions {t : Text} {entry : Text × Text} (h : entry ∈ definitions t) :
    depth entry.2 = 1 := by
  fun_induction definitions t with
  | case1 => cases h
  | case2 => cases h
  | case3 t c rest hOpen tag after hClose ih =>
    rcases List.mem_append.mp h with h | h
    · unfold definitionOf at h
      split at h
      · dsimp only at h
        split at h
        · cases h
        · rw [List.mem_singleton] at h
          rw [h]
          exact depth_of_through? hClose
      · cases h
    · exact ih h

/-- A tag that is looked up is one of the definitions. -/
theorem mem_of_lookup? {defs : Definitions} {id tag : Text} (h : defs.lookup? id = some tag) :
    (id, tag) ∈ defs := by
  unfold Definitions.lookup? at h
  suffices key : ∀ found : Option Text,
      defs.foldl (fun found entry => if entry.1 = id then some entry.2 else found) found =
        some tag → found = some tag ∨ (id, tag) ∈ defs by
    rcases key none h with h' | h'
    · cases h'
    · exact h'
  clear h
  induction defs with
  | nil => exact fun found hf => Or.inl hf
  | cons entry rest ih =>
    intro found hf
    rw [List.foldl_cons] at hf
    rcases ih _ hf with h' | h'
    · split at h'
      · rename_i hid
        cases h'
        subst hid
        exact Or.inr List.mem_cons_self
      · exact Or.inl h'
    · exact Or.inr (List.mem_cons_of_mem _ h')

/-- Writing a position into a tag adds no `>`. -/
theorem depth_injectPosition (tag : Text) (x y : Float) :
    depth (injectPosition tag (Number.spliced x) (Number.spliced y)) = depth tag := by
  unfold injectPosition positionText
  have hx := depth_eq_zero (not_mem_spliced (by decide) x)
  have hy := depth_eq_zero (not_mem_spliced (by decide) y)
  have := depth_take_add_depth_drop (nameLength tag) tag
  simp only [depth_append, hx, hy]
  have h1 : depth [' ', 'x', '=', '"'] = 0 := by decide
  have h2 : depth ['"', ' ', 'y', '=', '"'] = 0 := by decide
  have h3 : depth ['"'] = 0 := by decide
  omega

/-- A reference is replaced by nothing, or by a definition with a position written into it. -/
theorem resolve_cases {defs : Definitions} {tag t : Text}
    (h : (resolve defs tag).outcome = .ok t) :
    t = [] ∨ ∃ id definition x y, (id, definition) ∈ defs ∧
      t = injectPosition definition (Number.spliced x) (Number.spliced y) := by
  unfold resolve at h
  obtain ⟨x, _, h⟩ := Journal.outcome_bind_eq_ok.mp h
  obtain ⟨y, _, h⟩ := Journal.outcome_bind_eq_ok.mp h
  split at h
  · rename_i c rest hl
    cases h
    exact Or.inr ⟨_, _, x, y, mem_of_lookup? hl, rfl⟩
  · obtain ⟨_, _, h⟩ := Journal.outcome_bind_eq_ok.mp h
    cases h
    exact Or.inl rfl

/-- A reference is replaced by a text with at most one `>`, if every definition has at most
one. -/
theorem depth_resolve_le {defs : Definitions} (hd : ∀ entry ∈ defs, depth entry.2 ≤ 1)
    {tag t : Text} (h : (resolve defs tag).outcome = .ok t) : depth t ≤ 1 := by
  rcases resolve_cases h with rfl | ⟨id, definition, x, y, hmem, rfl⟩
  · exact Nat.zero_le 1
  · rw [depth_injectPosition]
    exact hd _ hmem

/-- **Replacing references adds no `>`,** if every definition has at most one. -/
theorem depth_expand_le_of {defs : Definitions} (hd : ∀ entry ∈ defs, depth entry.2 ≤ 1)
    {t u : Text} (h : (expand defs t).outcome = .ok u) : depth u ≤ depth t := by
  fun_induction expand defs t generalizing u with
  | case1 t => cases h; exact Nat.le_refl _
  | case2 t => cases h; exact Nat.le_refl _
  | case3 t before rest hCut tag after hClose ih =>
    obtain ⟨inserted, hi, h⟩ := Journal.outcome_bind_eq_ok.mp h
    obtain ⟨tail, ht, h⟩ := Journal.outcome_bind_eq_ok.mp h
    cases h
    have h1 := depth_resolve_le hd hi
    have h2 := ih ht
    have h3 := depth_of_through? hClose
    rw [← Text.append_of_cut? hCut, ← Text.append_of_through? hClose]
    simp only [depth_append]
    omega

/-- **Replacing a text's references with its own definitions adds no `>`.** -/
theorem depth_expand_le {t u : Text} (h : (expand (definitions t) t).outcome = .ok u) :
    depth u ≤ depth t :=
  depth_expand_le_of (fun _ he => Nat.le_of_eq (depth_of_mem_definitions he)) h

/-- The text of a document is its source with the references replaced. -/
theorem expand_of_document {source : Text} {width height : Int} {doc : Document}
    (h : (Document.ofText source width height).outcome = .ok doc) :
    (expand (definitions source) source).outcome = .ok doc.text := by
  unfold Document.ofText at h
  obtain ⟨text, ht, h⟩ := Journal.outcome_bind_eq_ok.mp h
  obtain ⟨pixels, _, h⟩ := Journal.outcome_bind_eq_ok.mp h
  obtain ⟨box, _, h⟩ := Journal.outcome_bind_eq_ok.mp h
  have hdoc : doc.text = text := by
    split at h <;> cases h <;> rfl
  rw [hdoc, ht]

/-- The text of a document has no more `>` than the text it was read from. -/
theorem depth_document_le {source : Text} {width height : Int} {doc : Document}
    (h : (Document.ofText source width height).outcome = .ok doc) :
    depth doc.text ≤ depth source :=
  depth_expand_le (expand_of_document h)

/-! ## 3. The inside of a group -/

/-- **What stands before a `</g>` has fewer `>` than the text.** -/
theorem depth_slice_lt {t : Text} {start stop : Nat} (h : ['<', '/', 'g', '>'] <+: t.drop stop) :
    depth (Text.slice t start stop) < depth t := by
  unfold Text.slice
  have h1 := depth_take_add_depth_drop stop t
  have h2 := depth_take_add_depth_drop start (t.take stop)
  obtain ⟨rest, hr⟩ := h
  have h3 : 1 ≤ depth (t.drop stop) := by
    rw [← hr, depth_append]
    exact Nat.le_add_right_of_le (by decide)
  omega

end VectorPaint.Markup
