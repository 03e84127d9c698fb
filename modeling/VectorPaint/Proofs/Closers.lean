/-
# Where containers are closed

A container is opened by any spelling of its name: in lower or in upper case, in a namespace or
not.  It is closed by one spelling only, the plain one in lower case.  Where a container of another
spelling is closed in its own way, its closing tag is read over, and the search for the plain one
takes some later closing tag instead, or the end of the text.

So a container is closed in the spelling it was opened in exactly in three cases: if this is the
plain spelling; if no plain closing tag follows, but nothing follows the container either; or by
chance, if its own closing tag stands right behind the first plain one (`container_closed_iff`).
In all other cases what follows the container is lost (`closers_overlooked`).
-/
import VectorPaint.Proofs.Marks

namespace VectorPaint

namespace Text

/-! ## 1. Texts in brackets -/

/-- A text that starts with `<` and ends with `>`, with neither in between. -/
def IsBracketed (b : Text) : Prop :=
  ∃ inside : Text, '<' ∉ inside ∧ '>' ∉ inside ∧ b = '<' :: (inside ++ ['>'])

variable {b d t : Text} {s r i : Nat}

theorem IsBracketed.length_pos (h : IsBracketed b) : 0 < b.length := by
  obtain ⟨inside, -, -, rfl⟩ := h
  exact Nat.succ_pos _

theorem IsBracketed.getElem?_zero (h : IsBracketed b) : b[0]? = some '<' := by
  obtain ⟨inside, -, -, rfl⟩ := h
  rfl

theorem IsBracketed.getElem?_last (h : IsBracketed b) : b[b.length - 1]? = some '>' := by
  obtain ⟨inside, -, -, rfl⟩ := h
  simp

/-- Only the first code point is `<`. -/
theorem IsBracketed.eq_zero (h : IsBracketed b) (hi : b[i]? = some '<') : i = 0 := by
  obtain ⟨inside, hopen, -, rfl⟩ := h
  cases i with
  | zero => rfl
  | succ i =>
    rw [List.getElem?_cons_succ] at hi
    simpa [hopen] using List.mem_of_getElem? hi

/-- Only the last code point is `>`. -/
theorem IsBracketed.succ_eq_length (h : IsBracketed b) (hi : b[i]? = some '>') :
    i + 1 = b.length := by
  obtain ⟨inside, -, hclose, rfl⟩ := h
  cases i with
  | zero => cases hi
  | succ i =>
    rw [List.getElem?_cons_succ] at hi
    have hbound := (List.getElem?_eq_some_iff.mp hi).1
    have hbehind : inside.length ≤ i := by
      refine Nat.le_of_not_lt fun hlt => hclose ?_
      rw [List.getElem?_append_left hlt] at hi
      exact List.mem_of_getElem? hi
    simp only [List.length_append, List.length_cons, List.length_nil] at hbound ⊢
    omega

theorem getElem?_add_of_prefix_drop (h : b <+: t.drop s) (hi : i < b.length) :
    t[s + i]? = b[i]? := by
  obtain ⟨rest, hrest⟩ := h
  rw [← List.getElem?_drop, ← hrest, List.getElem?_append_left hi]

theorem singleton_prefix_drop {c : Char} (h : t[i]? = some c) : [c] <+: t.drop i := by
  obtain ⟨hi, rfl⟩ := List.getElem?_eq_some_iff.mp h
  rw [List.drop_eq_getElem_cons hi]
  exact ⟨_, rfl⟩

/-- **Texts in brackets do not overlap.**  If one ends inside of another, both are the same. -/
theorem IsBracketed.eq_of_overlap (hb : IsBracketed b) (hd : IsBracketed d)
    (hs : b <+: t.drop s) (hr : d <+: t.drop r) (hlt : s < r + d.length)
    (hle : r + d.length ≤ s + b.length) : s = r ∧ b = d := by
  have hposb := hb.length_pos
  have hposd := hd.length_pos
  -- The last `>` of `d` lies inside of `b`, where it can only be the last again.
  have hend : s + b.length = r + d.length := by
    have hlast : t[r + (d.length - 1)]? = some '>' := by
      rw [getElem?_add_of_prefix_drop hr (by omega), hd.getElem?_last]
    have hinside : b[r + (d.length - 1) - s]? = some '>' := by
      rw [← getElem?_add_of_prefix_drop hs (by omega), ← hlast]
      congr 1
      omega
    have := hb.succ_eq_length hinside
    omega
  -- Whichever starts later, its `<` lies inside of the other, where it can only be the first.
  have hstart : s = r := by
    rcases Nat.le_total s r with hsr | hrs
    · have hfirst : b[r - s]? = some '<' := by
        rw [← getElem?_add_of_prefix_drop hs (by omega), Nat.add_sub_cancel' hsr]
        exact (getElem?_add_of_prefix_drop hr hposd).trans hd.getElem?_zero
      have := hb.eq_zero hfirst
      omega
    · have hfirst : d[s - r]? = some '<' := by
        rw [← getElem?_add_of_prefix_drop hr (by omega), Nat.add_sub_cancel' hrs]
        exact (getElem?_add_of_prefix_drop hs hposb).trans hb.getElem?_zero
      have := hd.eq_zero hfirst
      omega
  subst hstart
  exact ⟨rfl, (List.prefix_of_prefix_length_le hs hr (by omega)).eq_of_length (by omega)⟩

/-- Before the occurrence that a search finds the pattern stands nowhere. -/
theorem find?_first {pattern t : Text} {start j k : Nat} (h : find? pattern t start = some j)
    (hk : start ≤ k) (hkj : k < j) : ¬ pattern <+: t.drop k := by
  unfold find? at h
  split at h
  · have hfirst := locate_first h (k - start) (by omega)
    rwa [List.drop_drop, Nat.add_sub_cancel' hk] at hfirst
  · cases h

end Text

namespace Element

open Markup (Kind)

/-! ## 2. Containers -/

/-- The tag that closes what is opened by a name. -/
def closer (name : Text) : Text := '<' :: '/' :: (name ++ ['>'])

theorem closer_inj {name other : Text} : closer name = closer other ↔ name = other := by
  simp [closer]

theorem isBracketed_closer {name : Text} (hopen : '<' ∉ name) (hclose : '>' ∉ name) :
    Text.IsBracketed (closer name) :=
  ⟨'/' :: name, by simp [hopen], by simp [hclose], rfl⟩

/-- Whether a code point belongs to the name of a namespace. -/
def isSpaceChar (c : Char) : Bool := Markup.isNameChar c && c != '<' && c != ':'

/-- At a position, a tag of a name is written like this: in lower or in upper case, plain or in a
namespace. -/
inductive WrittenAs (t : Text) (p : Nat) (name : Text) : Text → Prop where
  | plain {written : Text} (hwritten : written = name ∨ written = name.upper)
      (hstands : ('<' :: written) <+: t.drop p) : WrittenAs t p name written
  | inNamespace {space written : Text}
      (hspace : space.all isSpaceChar = true) (hfront : ('<' :: space) <:+ t.take p)
      (hwritten : written = name ∨ written = name.upper) (hstands : (':' :: written) <+: t.drop p) :
      WrittenAs t p name (space ++ ':' :: written)

/-- A container is found at a position.  Its name is written in some way, its tag ends at `stop`
and does not close itself, and the tag that closes it follows. -/
structure Container (t : Text) (p : Nat) (kind : Kind) (written : Text) (stop : Nat) : Prop where
  found : ∃ start, Markup.nextTag? Kind.name Kind.all t start = some (p, kind)
  isContainer : kind = .text ∨ kind = .group ∨ kind = .definitions
  writtenAs : WrittenAs t p kind.name written
  ends : Text.find? ['>'] t p = some stop
  isOpen : Markup.closesItself (Text.slice t p (stop + 1)) = false
  closed : ∃ s, stop < s ∧ closer written <+: t.drop s

/-- Where the search for the closing tag starts. -/
def searchStart (p stop : Nat) (kind : Kind) : Nat := if kind = .definitions then stop else p

namespace Container

variable {t written : Text} {p stop : Nat} {kind : Kind}

theorem bracketed_plain (h : Container t p kind written stop) :
    Text.IsBracketed (closer kind.name) := by
  rcases h.isContainer with rfl | rfl | rfl <;> exact isBracketed_closer (by decide) (by decide)

theorem bracketed (h : Container t p kind written stop) : Text.IsBracketed (closer written) := by
  have hname : ∀ {written : Text}, written = kind.name ∨ written = kind.name.upper →
      '<' ∉ written ∧ '>' ∉ written := by
    rintro written (rfl | rfl) <;> rcases h.isContainer with rfl | rfl | rfl <;> decide
  cases h.writtenAs with
  | plain hwritten _ => exact isBracketed_closer (hname hwritten).1 (hname hwritten).2
  | @inNamespace space _ hspace _ hwritten _ =>
    have hopen : '<' ∉ space := fun hmem =>
      absurd (List.all_eq_true.mp hspace '<' hmem) (by decide)
    have hclose : '>' ∉ space := fun hmem =>
      absurd (List.all_eq_true.mp hspace '>' hmem) (by decide)
    exact isBracketed_closer (by simpa [hopen] using (hname hwritten).1)
      (by simpa [hclose] using (hname hwritten).2)

/-- **Reading goes on behind the plain closing tag,** whatever spelling opened the container. -/
theorem resume_eq (h : Container t p kind written stop) :
    resume t p kind = behind (closer kind.name) t (searchStart p stop kind) := by
  rcases h.isContainer with rfl | rfl | rfl
  · rfl
  · rfl
  · simp only [resume, behindDefinitions, h.ends, h.isOpen]
    rfl

/-- Without a plain closing tag reading goes on at the end of the text. -/
theorem resume_of_none (h : Container t p kind written stop)
    (hnone : Text.find? (closer kind.name) t (searchStart p stop kind) = none) :
    resume t p kind = t.length := by
  rw [h.resume_eq, behind, hnone]

theorem le_searchStart (h : Container t p kind written stop) :
    p ≤ searchStart p stop kind := by
  have := (Text.find?_some h.ends).1
  unfold searchStart
  split <;> omega

/-- The first plain closing tag ends behind the tag of the container. -/
theorem stop_lt (h : Container t p kind written stop) {s : Nat}
    (hs : Text.find? (closer kind.name) t (searchStart p stop kind) = some s) :
    stop < s + (closer kind.name).length := by
  have hplain := h.bracketed_plain
  have hpos := hplain.length_pos
  obtain ⟨hle, -, hstands⟩ := Text.find?_some hs
  have hclose : t[s + ((closer kind.name).length - 1)]? = some '>' := by
    rw [Text.getElem?_add_of_prefix_drop hstands (by omega), hplain.getElem?_last]
  have hstart := h.le_searchStart
  refine Nat.lt_of_not_le fun hover => ?_
  exact Text.find?_first h.ends (by omega) (by omega) (Text.singleton_prefix_drop hclose)

/-- A container is closed in its own spelling: reading goes on at the tag that closes it, inside of
this tag, or right behind it. -/
def IsClosed (t : Text) (p : Nat) (kind : Kind) (written : Text) (stop : Nat) : Prop :=
  ∃ s, stop < s ∧ closer written <+: t.drop s ∧ s ≤ resume t p kind ∧
    resume t p kind ≤ s + (closer written).length

/-- Behind a container that no plain closing tag follows. -/
theorem isClosed_iff_of_none (h : Container t p kind written stop)
    (hnone : Text.find? (closer kind.name) t (searchStart p stop kind) = none) :
    IsClosed t p kind written stop ↔ closer written <:+ t := by
  unfold IsClosed
  rw [h.resume_of_none hnone]
  constructor
  · rintro ⟨s, -, hstands, hle, hge⟩
    have hlength := hstands.length_le
    rw [List.length_drop] at hlength
    rw [hstands.eq_of_length (by rw [List.length_drop]; omega)]
    exact List.drop_suffix s t
  · intro hends
    obtain ⟨s, hs, hstands⟩ := h.closed
    have hlength := hstands.length_le
    rw [List.length_drop] at hlength
    have hfits := hends.length_le
    have hpos := h.bracketed.length_pos
    refine ⟨t.length - (closer written).length, by omega, ?_, by omega, by omega⟩
    rw [← List.suffix_iff_eq_drop.mp hends]

/-- Behind a container that a plain closing tag follows. -/
theorem isClosed_iff_of_some (h : Container t p kind written stop) {r : Nat}
    (hr : Text.find? (closer kind.name) t (searchStart p stop kind) = some r) :
    IsClosed t p kind written stop ↔ (written = kind.name ∧ stop < r) ∨
      closer written <+: t.drop (r + (closer kind.name).length) := by
  have hresume : resume t p kind = r + (closer kind.name).length := by
    rw [h.resume_eq, behind, hr]
  obtain ⟨-, -, hplain⟩ := Text.find?_some hr
  unfold IsClosed
  rw [hresume]
  constructor
  · rintro ⟨s, hs, hstands, hle, hge⟩
    rcases Nat.lt_or_eq_of_le hle with hlt | rfl
    · obtain ⟨rfl, heq⟩ := h.bracketed.eq_of_overlap h.bracketed_plain hstands hplain hlt hge
      exact .inl ⟨closer_inj.mp heq, hs⟩
    · exact .inr hstands
  · rintro (⟨rfl, hs⟩ | hstands)
    · exact ⟨r, hs, hplain, by omega, by omega⟩
    · exact ⟨_, h.stop_lt hr, hstands, by omega, by omega⟩

end Container

/-! ## 3. Which containers are closed -/

/-- **Which containers are closed in the spelling they were opened in.**  If no plain closing tag
follows, reading goes on at the end of the text, where nothing is found, and the container is
closed exactly if its own closing tag ends the text.  If one follows, the container is closed
exactly if it was opened in the plain spelling, and the closing tag stands behind its tag, or if
its own closing tag stands right behind the first plain one. -/
theorem container_closed_iff {t written : Text} {p stop : Nat} {kind : Kind}
    (h : Container t p kind written stop) :
    (Text.find? (closer kind.name) t (searchStart p stop kind) = none →
      resume t p kind = t.length ∧
        Markup.nextTag? Kind.name Kind.all t (resume t p kind) = none ∧
        (Container.IsClosed t p kind written stop ↔ closer written <:+ t)) ∧
    ∀ r, Text.find? (closer kind.name) t (searchStart p stop kind) = some r →
      (Container.IsClosed t p kind written stop ↔ (written = kind.name ∧ stop < r) ∨
        closer written <+: t.drop (r + (closer kind.name).length)) := by
  refine ⟨fun hnone => ?_, fun r hr => h.isClosed_iff_of_some hr⟩
  have hresume := h.resume_of_none hnone
  refine ⟨hresume, ?_, h.isClosed_iff_of_none hnone⟩
  rw [hresume]
  exact Markup.nextTag?_length Kind.name Kind.all t

/-- A group in a namespace around a plain one. -/
def nestedGroups : Text := "<svg:g><g></g></svg:g><svg:line/>".toList

/-- The outer group ends right behind the inner one, and so it is closed after all. -/
theorem container_closed_iff_nestedGroups :
    Container nestedGroups 4 .group "svg:g".toList 6 ∧
      Text.find? (closer ['g']) nestedGroups (searchStart 4 6 .group) = some 10 ∧
      Container.IsClosed nestedGroups 4 .group "svg:g".toList 6 := by
  have hspace : "svg".toList.all isSpaceChar = true := by decide
  have hfront : ('<' :: "svg".toList) <:+ nestedGroups.take 4 := by decide
  have hstands : [':', 'g'] <+: nestedGroups.drop 4 := by decide
  have hcontainer : Container nestedGroups 4 .group "svg:g".toList 6 :=
    ⟨⟨0, by decide⟩, .inr (.inl rfl), .inNamespace hspace hfront (.inl rfl) hstands,
      by decide, by decide, ⟨14, by decide, by decide⟩⟩
  have hfind : Text.find? (closer ['g']) nestedGroups (searchStart 4 6 .group) = some 10 := by
    decide
  exact ⟨hcontainer, hfind, ((container_closed_iff hcontainer).2 10 hfind).mpr (.inr (by decide))⟩

/-- A circle in a namespace. -/
def circleBehind : Text := "<svg:circle r=\"2\"/>".toList

/-- An empty group in upper case, and a circle behind it. -/
def upperGroup : Text := "<G></G>".toList ++ circleBehind

/-- **A container need not be closed in the spelling it was opened in.**  What stands behind it is
lost then: a circle that is painted on its own is not behind a group, a text or definitions that
are opened and closed in upper case or in a namespace. -/
theorem closers_overlooked :
    (¬ ∀ t p kind written stop, Container t p kind written stop →
      Container.IsClosed t p kind written stop) ∧
    (Rendering.ofText (.ofSize 4 4 none) circleBehind).map (fun r => r.canvas.get (0, 0)) = .ok 1 ∧
    ∀ front ∈ ["<svg:text></svg:text>".toList, "<G></G>".toList, "<svg:defs></svg:defs>".toList],
      (Rendering.ofText (.ofSize 4 4 none) (front ++ circleBehind)).map
        (fun r => r.canvas.get (0, 0)) = .ok 0 := by
  have hcontainer : Container upperGroup 0 .group ['G'] 2 :=
    ⟨⟨0, by decide⟩, .inr (.inl rfl), .plain (.inr (by decide)) (by decide), by decide, by decide,
      ⟨3, by decide, by decide⟩⟩
  refine ⟨fun h => ?_, by decide +kernel, by decide +kernel⟩
  have hnone : Text.find? (closer ['g']) upperGroup (searchStart 0 2 .group) = none := by decide
  have hends := (hcontainer.isClosed_iff_of_none hnone).mp (h _ _ _ _ _ hcontainer)
  exact absurd hends (by decide)

end Element

end VectorPaint
