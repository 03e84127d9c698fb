/-
# The nearest tag is nearest in any order

The next tag is looked for one kind after the other, and the nearer of two stays.  Of two tags that
are equally near the kind that was asked for first stays, so it might matter in which order the
kinds are asked for.

It does not, because two kinds are never found at the same place.  No spelling of a kind is the
start of a spelling of another kind (`kind_of_start`), although names are in each other (`line` in
`polyline`), start alike (`polyline` and `polygon`) and are as short as `g`.  So of the spellings
that stand at one place all are of one kind (`tagPosition?_inj`).

What is found is then the least of the places that the kinds have, with the one kind that has it,
and both are said without an order (`nextTag?_order_free`).
-/
import Mathlib.Order.Bounds.Basic
import VectorPaint.Proofs.Marks

namespace VectorPaint.Markup

/-! ## 1. The least of several places -/

section Least

variable {α : Type} {name : α → Text} {kinds : List α} {t : Text} {start : Int} {p q : Nat}
  {kind other : α}

/-- The nearer of two tags is not behind either of them. -/
theorem nearest_le {found next : Option (Nat × α)} (h : nearest found next = some (p, kind))
    (hq : found = some (q, other) ∨ next = some (q, other)) : p ≤ q := by
  rcases hq with rfl | rfl
  · cases next with
    | none =>
      cases h
      exact Nat.le_refl _
    | some later =>
      obtain ⟨r, last⟩ := later
      simp only [nearest] at h
      split at h <;> cases h <;> omega
  · cases found with
    | none =>
      cases h
      exact Nat.le_refl _
    | some earlier =>
      obtain ⟨r, first⟩ := earlier
      simp only [nearest] at h
      split at h <;> cases h <;> omega

/-- **No kind that was asked for has a tag before the one that is found.** -/
theorem nextTag?_le (h : nextTag? name kinds t start = some (p, kind)) (hother : other ∈ kinds)
    (hq : tagPosition? t start (name other) = some q) : p ≤ q := by
  unfold nextTag? at h
  -- The tag found so far only comes nearer, so the statement is about any tag to start from.
  suffices key : ∀ found : Option (Nat × α), kinds.foldl (fun found kind =>
      nearest found ((tagPosition? t start (name kind)).map fun p => (p, kind))) found =
        some (p, kind) → (∀ r a, found = some (r, a) → p ≤ r) ∧
          ∀ other ∈ kinds, ∀ q, tagPosition? t start (name other) = some q → p ≤ q from
    (key none h).2 other hother q hq
  clear h hother hq
  induction kinds with
  | nil =>
    rintro _ rfl
    refine ⟨?_, fun _ hmem => absurd hmem List.not_mem_nil⟩
    rintro r a ⟨⟩
    exact Nat.le_refl _
  | cons k ks ih =>
    intro found h
    rw [List.foldl_cons] at h
    obtain ⟨hfound, hrest⟩ := ih _ h
    -- What the first kind leaves is behind neither `found` nor the first kind's own tag.
    cases hnear : nearest found ((tagPosition? t start (name k)).map fun p => (p, k)) with
    | none =>
      obtain ⟨rfl, hk⟩ := nearest_eq_none_iff.mp hnear
      refine ⟨fun _ _ hnone => (Option.some_ne_none _ hnone.symm).elim, ?_⟩
      intro other hother q hq
      rcases List.mem_cons.mp hother with rfl | hother
      · rw [Option.map_eq_none_iff.mp hk] at hq
        cases hq
      · exact hrest other hother q hq
    | some near =>
      obtain ⟨r, a⟩ := near
      have hr := hfound r a hnear
      refine ⟨fun s b hs => hr.trans (nearest_le hnear (.inl hs)), ?_⟩
      intro other hother q hq
      rcases List.mem_cons.mp hother with rfl | hother
      · exact hr.trans (nearest_le hnear (.inr (by rw [hq, Option.map_some])))
      · exact hrest other hother q hq

/-- **The tag that is found,** where no two kinds have one at the same place: the least place that
a kind has, and the kind that has it. -/
theorem nextTag?_eq_some_iff
    (hinj : ∀ kind ∈ kinds, ∀ other ∈ kinds, ∀ p, tagPosition? t start (name kind) = some p →
      tagPosition? t start (name other) = some p → kind = other) :
    nextTag? name kinds t start = some (p, kind) ↔
      IsLeast {q | ∃ other ∈ kinds, tagPosition? t start (name other) = some q} p ∧
        kind ∈ kinds ∧ tagPosition? t start (name kind) = some p := by
  constructor
  · intro h
    obtain ⟨hkind, hp⟩ := nextTag?_some h
    refine ⟨⟨⟨kind, hkind, hp⟩, ?_⟩, hkind, hp⟩
    rintro q ⟨other, hother, hq⟩
    exact nextTag?_le h hother hq
  · rintro ⟨⟨-, hleast⟩, hkind, hp⟩
    cases hfound : nextTag? name kinds t start with
    | none =>
      rw [nextTag?_eq_none_iff.mp hfound kind hkind] at hp
      cases hp
    | some found =>
      obtain ⟨q, other⟩ := found
      obtain ⟨hother, hq⟩ := nextTag?_some hfound
      have heq : q = p := Nat.le_antisymm (nextTag?_le hfound hkind hp) (hleast ⟨other, hother, hq⟩)
      subst heq
      rw [hinj other hother kind hkind q hq hp]

end Least

/-! ## 2. Two kinds at one place -/

theorem Kind.mem_all (kind : Kind) : kind ∈ Kind.all := by
  cases kind <;> decide

/-- **No spelling of a kind starts a spelling of another kind.** -/
theorem kind_of_start {kind other : Kind} {mark mark' : Text} (hmark : mark ∈ spellings kind.name)
    (hmark' : mark' ∈ spellings other.name) (h : mark <+: mark') : kind = other := by
  have hall : ∀ kind ∈ Kind.all, ∀ other ∈ Kind.all, ∀ mark ∈ spellings kind.name,
      ∀ mark' ∈ spellings other.name, mark <+: mark' → kind = other := by
    decide +kernel
  exact hall kind kind.mem_all other other.mem_all mark hmark mark' hmark' h

variable {t : Text} {start : Int} {p : Nat} {kind other : Kind}

/-- **Two kinds are never found at the same place.** -/
theorem tagPosition?_inj (h : tagPosition? t start kind.name = some p)
    (h' : tagPosition? t start other.name = some p) : kind = other := by
  obtain ⟨mark, hmark, hstands⟩ := tagPosition?_stands h
  obtain ⟨mark', hmark', hstands'⟩ := tagPosition?_stands h'
  rcases List.prefix_or_prefix_of_prefix hstands hstands' with hprefix | hprefix
  · exact kind_of_start hmark hmark' hprefix
  · exact (kind_of_start hmark' hmark hprefix).symm

/-! ## 3. Any order -/

/-- **The next tag does not depend on the order in which the kinds are asked for.**  Nothing is
found exactly if no kind has a tag from the start on, and otherwise the least of the places that the
kinds have, with the one and only kind that has it.  This holds from every start, also from one
before the beginning. -/
theorem nextTag?_order_free (t : Text) (start : Int) {kinds : List Kind}
    (h : kinds.Perm Kind.all) :
    nextTag? Kind.name kinds t start = nextTag? Kind.name Kind.all t start ∧
    (nextTag? Kind.name kinds t start = none ↔
      ∀ kind : Kind, tagPosition? t start kind.name = none) ∧
    (∀ p kind, nextTag? Kind.name kinds t start = some (p, kind) ↔
      IsLeast {q | ∃ other : Kind, tagPosition? t start other.name = some q} p ∧
        ∀ other : Kind, tagPosition? t start other.name = some p ↔ other = kind) ∧
    ∀ (kind other : Kind) (p : Nat), tagPosition? t start kind.name = some p →
      tagPosition? t start other.name = some p → kind = other := by
  have hmem : ∀ {kinds : List Kind}, kinds.Perm Kind.all → ∀ kind, kind ∈ kinds :=
    fun hperm kind => hperm.mem_iff.mpr kind.mem_all
  have hsome : ∀ {kinds : List Kind}, kinds.Perm Kind.all → ∀ p kind,
      nextTag? Kind.name kinds t start = some (p, kind) ↔
        IsLeast {q | ∃ other : Kind, tagPosition? t start other.name = some q} p ∧
          ∀ other : Kind, tagPosition? t start other.name = some p ↔ other = kind := by
    intro kinds hperm p kind
    rw [nextTag?_eq_some_iff fun _ _ _ _ _ => tagPosition?_inj]
    simp only [hmem hperm, true_and]
    refine and_congr_right fun _ => ⟨fun hp other => ⟨fun hq => tagPosition?_inj hq hp, ?_⟩,
      fun honly => (honly kind).mpr rfl⟩
    rintro rfl
    exact hp
  refine ⟨?_, ?_, hsome h, fun _ _ _ => tagPosition?_inj⟩
  · refine Option.ext fun found => ?_
    rw [hsome h found.1 found.2, hsome (List.Perm.refl _) found.1 found.2]
  · rw [nextTag?_eq_none_iff]
    exact ⟨fun hnone kind => hnone kind (hmem h kind), fun hnone kind _ => hnone kind⟩

/-- Names in names: a line in a polyline, a group's name in front of a path, a polygon in capital
letters. -/
def namesInNames : Text := "of <s:polyline/> <g:path/><POLYGON/><line/>".toList

theorem nextTag?_order_free_namesInNames :
    Kind.all.reverse.Perm Kind.all ∧
      nextTag? Kind.name Kind.all.reverse namesInNames (-7) = some (5, .polyline) ∧
      nextTag? Kind.name Kind.all namesInNames (-7) = some (5, .polyline) ∧
      ∀ other : Kind, tagPosition? namesInNames (-7) other.name = some 5 ↔ other = .polyline := by
  have hperm : Kind.all.reverse.Perm Kind.all := List.reverse_perm _
  have hfound : nextTag? Kind.name Kind.all.reverse namesInNames (-7) = some (5, .polyline) := by
    decide +kernel
  obtain ⟨horder, -, hsome, -⟩ := nextTag?_order_free namesInNames (-7) hperm
  exact ⟨hperm, hfound, horder ▸ hfound, ((hsome 5 .polyline).mp hfound).2⟩

end VectorPaint.Markup
