/-
# Passes go on behind every `>`

Two passes go through a text before its tags are read: one collects the definitions, the other
replaces the references.  Each looks for a mark that starts with `<`, takes what follows up to the
next `>`, and goes on behind it.  No mark holds a `>`, so none lies across one; and a mark that
stands before a `>` has its end there at the latest.  Therefore a pass does behind a `>` what it
would do if the text started there (`Text.BreaksAt`).

It follows that a text can be cut behind any `>`, whatever stands on both sides, malformed or not:
the definitions of the two parts come one after the other, and so do the expanded parts and their
records (`passes_break_behind_tags`).
-/
import VectorPaint.Proofs.Nesting

namespace VectorPaint

/-! ## 1. Cuts and code points that are not there -/

namespace Text

theorem bne_of_not_mem {c : Char} {s : Text} (h : c ∉ s) : ∀ x ∈ s, (x != c) = true := by
  intro x hx
  rw [bne_iff_ne]
  rintro rfl
  exact h hx

/-- A cut through a code point ends at its first occurrence. -/
theorem through?_append_cons {c : Char} {inside : Text} (h : c ∉ inside) (rest : Text) :
    through? c (inside ++ c :: rest) = some (inside ++ [c], rest) := by
  have hdrop : (inside ++ c :: rest).dropWhile (· != c) = c :: rest := by
    rw [List.dropWhile_append_of_pos (bne_of_not_mem h)]
    exact List.dropWhile_cons_of_neg (by simp)
  have htake : (inside ++ c :: rest).takeWhile (· != c) = inside := by
    rw [List.takeWhile_append_of_pos (bne_of_not_mem h), List.takeWhile_cons_of_neg (by simp),
      List.append_nil]
  unfold through?
  rw [hdrop, htake]

/-- A pattern in front of a code point that it does not hold ends before it. -/
theorem prefix_of_prefix_append_cons {c : Char} {pattern s t : Text} (hc : c ∉ pattern)
    (h : pattern <+: s ++ c :: t) : pattern <+: s := by
  induction s generalizing pattern with
  | nil =>
    rcases List.prefix_cons_iff.mp h with rfl | ⟨rest, rfl, _⟩
    · exact List.nil_prefix
    · exact absurd List.mem_cons_self hc
  | cons d s ih =>
    rcases List.prefix_cons_iff.mp h with rfl | ⟨rest, rfl, hrest⟩
    · exact List.nil_prefix
    · rw [List.cons_prefix_cons]
      exact ⟨rfl, ih (fun hm => hc (List.mem_cons_of_mem _ hm)) hrest⟩

/-- Where a text starts does not matter for what is found in it. -/
theorem locate_add (pattern : Text) (i n : Nat) (t : Text) :
    locate pattern (i + n) t = (locate pattern i t).map (· + n) := by
  induction t generalizing i with
  | nil =>
    simp only [locate]
    split <;> rfl
  | cons c rest ih =>
    simp only [locate]
    split
    · rfl
    · rw [← ih, Nat.add_right_comm]

/-- What is found in a text is found in every text that starts with it. -/
theorem locate_append_of_some {pattern s : Text} {i j : Nat} (h : locate pattern i s = some j)
    (t : Text) : locate pattern i (s ++ t) = some j := by
  induction s generalizing i with
  | nil =>
    have hp : pattern = [] := by
      simp only [locate] at h
      split at h
      · rename_i he
        exact List.isEmpty_iff.mp he
      · cases h
    subst hp
    cases h
    cases t <;> rfl
  | cons c rest ih =>
    simp only [locate, List.cons_append] at h ⊢
    split at h
    · rename_i hp
      cases h
      rw [if_pos]
      exact List.isPrefixOf_iff_prefix.mpr
        ((List.isPrefixOf_iff_prefix.mp hp).trans (List.prefix_append (c :: rest) t))
    · rename_i hp
      -- What is found later has room in the rest, so nothing that starts here runs out of it.
      have hfits := (locate_some h).2.2.length_le
      rw [List.length_drop] at hfits
      rw [if_neg, ih h]
      intro hq
      refine hp (List.isPrefixOf_iff_prefix.mpr ?_)
      refine List.prefix_of_prefix_length_le (List.isPrefixOf_iff_prefix.mp hq)
        (List.prefix_append (c :: rest) t) ?_
      rw [List.length_cons]
      omega

/-- What is not found before a code point that it does not hold is found behind it, if at all. -/
theorem locate_append_cons_of_none {c : Char} {pattern s : Text} {i : Nat}
    (h : locate pattern i s = none) (hc : c ∉ pattern) (t : Text) :
    locate pattern i (s ++ c :: t) = locate pattern (i + s.length + 1) t := by
  induction s generalizing i with
  | nil =>
    have hp : ¬ pattern.isPrefixOf (c :: t) = true := by
      intro hq
      rcases List.prefix_cons_iff.mp (List.isPrefixOf_iff_prefix.mp hq) with rfl | ⟨_, rfl, _⟩
      · cases h
      · exact hc List.mem_cons_self
    simp only [List.nil_append, locate]
    rw [if_neg hp]
    rfl
  | cons d s ih =>
    simp only [locate, List.cons_append] at h ⊢
    split at h
    · cases h
    · rename_i hp
      have hq : ¬ pattern.isPrefixOf (d :: (s ++ c :: t)) = true := fun hq =>
        hp (List.isPrefixOf_iff_prefix.mpr
          (prefix_of_prefix_append_cons (s := d :: s) hc (List.isPrefixOf_iff_prefix.mp hq)))
      rw [if_neg hq, ih h, List.length_cons]
      congr 1
      omega

theorem cut?_append_of_some {pattern s before rest : Text}
    (h : cut? pattern s = some (before, rest)) (t : Text) :
    cut? pattern (s ++ t) = some (before, rest ++ t) := by
  unfold cut? at h ⊢
  obtain ⟨i, hi, he⟩ := Option.map_eq_some_iff.mp h
  have hle := (locate_some hi).2.1
  cases he
  rw [locate_append_of_some hi, Option.map_some, List.take_append_of_le_length (by omega),
    List.drop_append_of_le_length (by omega)]

theorem cut?_append_cons_of_none {c : Char} {pattern s : Text} (h : cut? pattern s = none)
    (hc : c ∉ pattern) (t : Text) :
    cut? pattern (s ++ c :: t) =
      (cut? pattern t).map fun sides => (s ++ c :: sides.1, sides.2) := by
  unfold cut? at h ⊢
  have hlength : s ++ c :: t = (s ++ [c]) ++ t := by simp
  rw [locate_append_cons_of_none (Option.map_eq_none_iff.mp h) hc, Nat.add_assoc, locate_add,
    Option.map_map, Option.map_map, hlength]
  congr 1
  funext i
  have hi : i + (s.length + 1) = (s ++ [c]).length + i := by
    rw [List.length_append, List.length_singleton, Nat.add_comm]
  simp only [Function.comp_apply, hi, List.take_length_add_append, List.drop_length_add_append]
  simp

/-! ## 2. Passes that break at a code point -/

section Passes

variable {M : Type}

/-- A pass over texts whose results can be put together, and which does behind a code point what
it does where a text starts. -/
structure BreaksAt (c : Char) (join : M → M → M) (pass : Text → M) : Prop where
  join_assoc : ∀ x y z, join (join x y) z = join x (join y z)
  join_nil : ∀ x, join (pass []) x = x
  /-- The first code point of this kind ends a part of its own. -/
  pass_append_cons : ∀ part rest, c ∉ part →
    pass (part ++ c :: rest) = join (pass (part ++ [c])) (pass rest)

/-- **A pass that breaks at a code point can be cut behind any of them.** -/
theorem BreaksAt.pass_append {c : Char} {join : M → M → M} {pass : Text → M}
    (h : BreaksAt c join pass) {a : Text} (ha : a = [] ∨ [c] <:+ a) (b : Text) :
    pass (a ++ b) = join (pass a) (pass b) := by
  -- The induction takes one part after the other from the front of the left side.
  induction hn : a.length using Nat.strongRecOn generalizing a with
  | _ n ih =>
    rcases ha with rfl | ⟨front, rfl⟩
    · exact (h.join_nil _).symm
    · obtain ⟨part, rest, hpart, hnone⟩ :=
        List.eq_append_cons_of_mem (List.mem_append_right front (List.mem_singleton_self c))
      rw [hpart] at hn ⊢
      have hrest : rest = [] ∨ [c] <:+ rest := by
        rcases List.eq_nil_or_concat rest with rfl | ⟨init, last, rfl⟩
        · exact Or.inl rfl
        · have hlast := congrArg List.getLast? hpart
          simp only [List.concat_eq_append, List.getLast?_append, List.getLast?_cons,
            List.getLast?_nil, Option.getD_none, Option.some_or, Option.getD_some,
            Option.some.injEq] at hlast
          exact Or.inr ⟨init, by rw [hlast, List.concat_eq_append]⟩
      have hless : rest.length < n := by
        rw [List.length_append, List.length_cons] at hn
        omega
      rw [List.append_assoc, List.cons_append, h.pass_append_cons part _ hnone,
        ih rest.length hless hrest rfl, ← h.join_assoc, ← h.pass_append_cons part _ hnone]

end Passes

end Text

/-! ## 3. Definitions -/

namespace Markup

/-- The definitions of a text, from its first tag on. -/
theorem definitions_eq (t : Text) :
    definitions t =
      match t.dropWhile (· != '<') with
      | [] => []
      | c :: rest =>
        match Text.through? '>' (c :: rest) with
        | none => []
        | some (tag, after) => definitionOf tag ++ definitions after := by
  rw [definitions.eq_def]
  split
  · rename_i hOpen
    rw [hOpen]
  · rename_i c rest hOpen
    rw [hOpen]
    dsimp only
    split
    · rename_i hClose
      rw [hClose]
    · rename_i tag after hClose
      rw [hClose]

theorem definitions_nil : definitions [] = [] := by
  rw [definitions_eq]
  rfl

/-- What stands before the first tag defines nothing. -/
theorem definitions_append_of_not_mem {before : Text} (h : '<' ∉ before) (t : Text) :
    definitions (before ++ t) = definitions t := by
  rw [definitions_eq, definitions_eq t, List.dropWhile_append_of_pos (Text.bne_of_not_mem h)]

/-- The first tag's definition comes before those of what follows. -/
theorem definitions_tag {inside : Text} (h : '>' ∉ inside) (rest : Text) :
    definitions ('<' :: (inside ++ '>' :: rest)) =
      definitionOf ('<' :: (inside ++ ['>'])) ++ definitions rest := by
  have hclose : Text.through? '>' ('<' :: (inside ++ '>' :: rest)) =
      some ('<' :: (inside ++ ['>']), rest) := by
    have hall : '>' ∉ '<' :: inside := by simpa using h
    exact Text.through?_append_cons hall rest
  rw [definitions_eq, List.dropWhile_cons_of_neg (by simp)]
  dsimp only
  rw [hclose]

theorem definitions_breaksAt : Text.BreaksAt '>' (· ++ ·) definitions where
  join_assoc := List.append_assoc
  join_nil x := by rw [definitions_nil, List.nil_append]
  pass_append_cons part rest h := by
    by_cases hopen : '<' ∈ part
    · obtain ⟨before, inside, rfl, hbefore⟩ := List.eq_append_cons_of_mem hopen
      have hinside : '>' ∉ inside := fun hm =>
        h (List.mem_append_right _ (List.mem_cons_of_mem _ hm))
      rw [List.append_assoc, List.append_assoc, List.cons_append, List.cons_append,
        definitions_append_of_not_mem hbefore, definitions_append_of_not_mem hbefore,
        definitions_tag hinside, definitions_tag hinside, definitions_nil, List.append_nil]
    · have hpart : '<' ∉ part ++ ['>'] := by simpa using hopen
      have hleft := definitions_append_of_not_mem hpart []
      have hright := definitions_append_of_not_mem hpart rest
      rw [List.append_nil, definitions_nil] at hleft
      rw [List.append_assoc, List.singleton_append] at hright
      rw [hleft, hright, List.nil_append]

/-- Of two lists of definitions the second one counts where both have an id. -/
theorem lookup?_append (defs more : Definitions) (id : Text) :
    Definitions.lookup? (defs ++ more) id = (more.lookup? id).or (defs.lookup? id) := by
  have hfrom : ∀ found : Option Text,
      more.foldl (fun found entry => if entry.1 = id then some entry.2 else found) found =
        (more.lookup? id).or found := by
    unfold Definitions.lookup?
    induction more with
    | nil => exact fun found => rfl
    | cons entry more ih =>
      intro found
      rw [List.foldl_cons, List.foldl_cons, ih, ih (if entry.1 = id then some entry.2 else none),
        Option.or_assoc]
      congr 1
      split <;> rfl
  rw [← hfrom, Definitions.lookup?, Definitions.lookup?, List.foldl_append]

/-! ## 4. References -/

/-- A text with its references replaced, from its first reference on. -/
theorem expand_eq (defs : Definitions) (t : Text) :
    expand defs t =
      match Text.cut? useMark t with
      | none => pure t
      | some (before, rest) =>
        match Text.through? '>' rest with
        | none => pure t
        | some (tag, after) => do
          let inserted ← resolve defs tag
          let tail ← expand defs after
          return before ++ inserted ++ tail := by
  rw [expand.eq_def]
  split
  · rename_i hUse
    rw [hUse]
  · rename_i before rest hUse
    rw [hUse]
    dsimp only
    split
    · rename_i hClose
      rw [hClose]
    · rename_i tag after hClose
      rw [hClose]

/-- Two expanded texts, one after the other. -/
def joinExpanded (j k : Journal Record Text) : Journal Record Text := do
  let s ← j
  let t ← k
  return s ++ t

theorem joinExpanded_assoc (i j k : Journal Record Text) :
    joinExpanded (joinExpanded i j) k = joinExpanded i (joinExpanded j k) := by
  obtain ⟨is, i⟩ := i
  obtain ⟨js, j⟩ := j
  obtain ⟨ks, k⟩ := k
  cases i <;> cases j <;> cases k <;> simp [joinExpanded]

theorem joinExpanded_pure_nil (j : Journal Record Text) : joinExpanded (pure []) j = j := by
  obtain ⟨js, j⟩ := j
  cases j <;> simp [joinExpanded]

theorem expand_nil (defs : Definitions) : expand defs [] = pure [] := by
  rw [expand_eq]
  rfl

/-- A text without a reference stays what it is. -/
theorem expand_of_cut?_eq_none (defs : Definitions) {t : Text} (h : Text.cut? useMark t = none) :
    expand defs t = pure t := by
  rw [expand_eq, h]

/-- What ends with a `>` and holds no reference stays what it is. -/
theorem expand_append_of_cut?_eq_none (defs : Definitions) {part : Text}
    (h : Text.cut? useMark part = none) (rest : Text) :
    expand defs (part ++ '>' :: rest) =
      joinExpanded (pure (part ++ ['>'])) (expand defs rest) := by
  rw [expand_eq, expand_eq defs rest, Text.cut?_append_cons_of_none h (by decide)]
  cases Text.cut? useMark rest with
  | none => simp [joinExpanded]
  | some sides =>
    obtain ⟨before, tag⟩ := sides
    dsimp only [Option.map_some]
    cases Text.through? '>' tag with
    | none =>
      dsimp only
      simp [joinExpanded]
    | some cut =>
      obtain ⟨tag, after⟩ := cut
      dsimp only
      cases resolve defs tag with
      | mk notes inserted =>
        cases expand defs after with
        | mk later tail => cases inserted <;> cases tail <;> simp [joinExpanded]

/-- A reference is replaced, and what follows is expanded behind it. -/
theorem expand_reference (defs : Definitions) {part before tag : Text}
    (h : Text.cut? useMark part = some (before, tag)) (hclose : '>' ∉ tag) (rest : Text) :
    expand defs (part ++ '>' :: rest) =
      joinExpanded (do return before ++ (← resolve defs (tag ++ ['>']))) (expand defs rest) := by
  rw [expand_eq, Text.cut?_append_of_some h]
  dsimp only
  rw [Text.through?_append_cons hclose]
  dsimp only
  cases resolve defs (tag ++ ['>']) with
  | mk notes inserted =>
    cases expand defs rest with
    | mk later tail => cases inserted <;> cases tail <;> simp [joinExpanded]

theorem expand_breaksAt (defs : Definitions) :
    Text.BreaksAt '>' joinExpanded (expand defs) where
  join_assoc := joinExpanded_assoc
  join_nil j := by rw [expand_nil, joinExpanded_pure_nil]
  pass_append_cons part rest h := by
    cases hcut : Text.cut? useMark part with
    | none =>
      rw [expand_append_of_cut?_eq_none defs hcut, expand_append_of_cut?_eq_none defs hcut,
        joinExpanded_assoc, expand_nil, joinExpanded_pure_nil]
    | some sides =>
      obtain ⟨before, tag⟩ := sides
      have htag : '>' ∉ tag := by
        rw [← Text.append_of_cut? hcut] at h
        exact fun hm => h (List.mem_append_right _ hm)
      rw [expand_reference defs hcut htag, expand_reference defs hcut htag, joinExpanded_assoc,
        expand_nil, joinExpanded_pure_nil]

/-- What two joined texts are, where both are there. -/
theorem joinExpanded_of_ok {j k : Journal Record Text} {s t : Text} (hj : j.outcome = .ok s)
    (hk : k.outcome = .ok t) : joinExpanded j k = ⟨j.entries ++ k.entries, .ok (s ++ t)⟩ := by
  obtain ⟨js, j⟩ := j
  obtain ⟨ks, k⟩ := k
  cases hj
  cases hk
  simp [joinExpanded]

end Markup

/-! ## 5. Cutting a text in two -/

open Markup in
/-- **Both passes can be cut behind a `>`.**  Let a text be empty or end with `>`, and let any text
follow.  The definitions of both together are those of the first with those of the second behind
them, so an id means what the second text says it means, and what the first says where the second
does not know it.  And whatever the definitions, both together are expanded to the first expanded
and then the second expanded, with the records of the first and then those of the second. -/
theorem passes_break_behind_tags {a : Text} (ha : a = [] ∨ ['>'] <:+ a) (b : Text) :
    (definitions (a ++ b) = definitions a ++ definitions b ∧
      ∀ id, (definitions (a ++ b)).lookup? id =
        ((definitions b).lookup? id).or ((definitions a).lookup? id)) ∧
    ∀ defs, ∃ s t, (expand defs a).outcome = .ok s ∧ (expand defs b).outcome = .ok t ∧
      expand defs (a ++ b) =
        ⟨(expand defs a).entries ++ (expand defs b).entries, .ok (s ++ t)⟩ := by
  have hdefinitions : definitions (a ++ b) = definitions a ++ definitions b :=
    definitions_breaksAt.pass_append ha b
  refine ⟨⟨hdefinitions, fun id => ?_⟩, fun defs => ?_⟩
  · rw [hdefinitions, lookup?_append]
  · obtain ⟨s, hs⟩ := expand_total defs a
    obtain ⟨t, ht⟩ := expand_total defs b
    refine ⟨s, t, hs, ht, ?_⟩
    rw [(expand_breaksAt defs).pass_append ha b, joinExpanded_of_ok hs ht]

/-- A definition inside of a reference, a reference to nothing at a place that is no number, and a
stray `>`. -/
def brokenFront : Text := "<use<rect id=\"r\"/>a<b <use href=\"#none\" x=\"q\"/>>".toList

/-- Another definition of the same id, a reference to it, and one that is not closed. -/
def brokenBack : Text := "<rect id=\"r\" x=\"1\"/><use href=\"#r\"/><use".toList

open Markup in
/-- The second definition counts, and the records of the first text come first. -/
theorem passes_break_behind_tags_brokenFront :
    ['>'] <:+ brokenFront ∧
    (definitions (brokenFront ++ brokenBack)).lookup? ['r'] =
      some "<rect id=\"r\" x=\"1\"/>".toList ∧
    (expand [] (brokenFront ++ brokenBack)).entries =
      [.unresolvedUse [], .notNumeric ['x'] ['q'], .unresolvedUse "none".toList,
        .unresolvedUse ['r']] := by
  have hfront : ['>'] <:+ brokenFront := by decide
  obtain ⟨⟨_, hlookup⟩, hexpand⟩ := passes_break_behind_tags (Or.inr hfront) brokenBack
  refine ⟨hfront, ?_, ?_⟩
  · rw [hlookup]
    decide +kernel
  · obtain ⟨s, t, _, _, hjoined⟩ := hexpand []
    rw [hjoined]
    change (expand [] brokenFront).entries ++ (expand [] brokenBack).entries = _
    decide +kernel

end VectorPaint
