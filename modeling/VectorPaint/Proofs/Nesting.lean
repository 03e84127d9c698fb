/-
# How deep groups are nested

The inside of a group is a document of its own: its definitions are collected anew, its
references replaced anew, and the text that results can be longer than the text of the group's
own document.  So the length of a text says nothing about how deep the groups in it can be
nested.  The number of `>` does.  It does not grow when references are replaced, it becomes less
from a document to the inside of a group, and so it bounds the nesting (`nesting_bounded`).

Replacing references never stops early, whatever the text: `expand_total`.  The bound is
therefore one on every text, and not only on those that are read to their end.
-/
import VectorPaint.Scene.Reading

namespace VectorPaint

/-! ## 1. Replacing references has a result -/

namespace Journal

variable {ε α β : Type}

/-- The journal ends with a value. -/
def Succeeds (j : Journal ε α) : Prop := ∃ a, j.outcome = .ok a

/-- A composed computation ends with a value exactly when both parts do. -/
theorem succeeds_bind_iff {j : Journal ε α} {f : α → Journal ε β} :
    (j >>= f).Succeeds ↔ ∃ a, j.outcome = .ok a ∧ (f a).Succeeds := by
  constructor
  · rintro ⟨b, hb⟩
    obtain ⟨a, ha, hb⟩ := outcome_bind_eq_ok.mp hb
    exact ⟨a, ha, b, hb⟩
  · rintro ⟨a, ha, b, hb⟩
    exact ⟨b, outcome_bind_eq_ok.mpr ⟨a, ha, hb⟩⟩

theorem Succeeds.bind {j : Journal ε α} {f : α → Journal ε β} (hj : j.Succeeds)
    (hf : ∀ a, j.outcome = .ok a → (f a).Succeeds) : (j >>= f).Succeeds := by
  obtain ⟨a, ha⟩ := hj
  exact succeeds_bind_iff.mpr ⟨a, ha, hf a ha⟩

theorem succeeds_pure (a : α) : (pure a : Journal ε α).Succeeds := ⟨a, rfl⟩

/-- Behind a value only what follows can fail. -/
theorem succeeds_bind_of_ok {j : Journal ε α} {f : α → Journal ε β} {a : α}
    (h : j.outcome = .ok a) : (j >>= f).Succeeds ↔ (f a).Succeeds := by
  rw [succeeds_bind_iff]
  constructor
  · rintro ⟨b, hb, hf⟩
    cases h.symm.trans hb
    exact hf
  · intro hf
    exact ⟨a, h, hf⟩

theorem succeeds_lift_bind {r : Except Fault α} {f : α → Journal ε β} {a : α} (h : r = .ok a) :
    ((liftM r : Journal ε α) >>= f).Succeeds ↔ (f a).Succeeds :=
  succeeds_bind_of_ok h

theorem succeeds_enter (e : ε) : (enter e).Succeeds := ⟨(), rfl⟩

end Journal

namespace Markup

open Journal

/-- An attribute that is no number is read as a number all the same. -/
theorem attributeNumber_total (tag name : Text) : (attributeNumber tag name).Succeeds := by
  unfold attributeNumber
  dsimp only
  split
  · exact succeeds_pure _
  · split
    · exact (succeeds_enter _).bind fun _ _ => succeeds_pure _
    · exact succeeds_pure _

theorem resolve_total (defs : Definitions) (tag : Text) : (resolve defs tag).Succeeds := by
  simp only [resolve]
  refine (attributeNumber_total _ _).bind fun x _ => (attributeNumber_total _ _).bind ?_
  intro y _
  split
  · exact succeeds_pure _
  · exact (succeeds_enter _).bind fun _ _ => succeeds_pure _

/-- **Every text has its references replaced.** -/
theorem expand_total (defs : Definitions) (t : Text) : (expand defs t).Succeeds := by
  fun_induction expand defs t with
  | case1 t => exact succeeds_pure _
  | case2 t => exact succeeds_pure _
  | case3 t before rest hCut tag after hClose ih =>
    exact (resolve_total _ _).bind fun _ _ => ih.bind fun _ _ => succeeds_pure _

end Markup

/-! ## 2. Groups inside of groups -/

namespace Scene

open Markup (depth)

/-- How many groups there are inside of each other. -/
def nesting : Scene → Nat
  | .done _ => 0
  | .failed _ => 0
  | .act _ rest => rest.nesting
  | .group body rest => max (body.nesting + 1) rest.nesting

/-- What a reading leaves in front of a scene is not nested. -/
theorem nesting_ofReading_le {α : Type} {j : Journal Act α} {next : α → Scene} {n : Nat}
    (h : ∀ a, (next a).nesting ≤ n) : (ofReading j next).nesting ≤ n := by
  obtain ⟨es, r⟩ := j
  simp only [ofReading]
  induction es with
  | nil =>
    cases r with
    | ok a => exact h a
    | error fault => exact Nat.zero_le _
  | cons e es ih => exact ih

/-- Where the inside of each group is nested no deeper than its number of `>`, the document is
not either: a group adds one level, and its inside has one `>` less. -/
theorem nesting_readFrom_le (steps : Int) (doc : Document)
    (readBody : (body : Text) → depth body < depth doc.text → Scene)
    (hbody : ∀ body h, (readBody body h).nesting ≤ depth body) (stacked : Int) (position : Nat) :
    (readFrom steps doc readBody stacked position).nesting ≤ depth doc.text := by
  fun_induction readFrom steps doc readBody stacked position with
  | case1 => exact Nat.zero_le _
  | case2 stacked position p kind hNext hPosition hResume ihBody ihRest =>
    simp only [nesting]
    split
    · rename_i body hBody
      have hDepth : depth body < depth doc.text := by
        split at hBody
        · exact Element.depth_groupBody_lt hBody
        · cases hBody
      refine Nat.max_le.mpr ⟨?_, ihBody body⟩
      exact Nat.lt_of_le_of_lt (hbody body _) hDepth
    · exact nesting_ofReading_le fun stacked => ihRest stacked

theorem nesting_read_le (width height steps : Int) (source : Text) :
    (read width height steps source).nesting ≤ depth source := by
  fun_induction read width height steps source with
  | case1 source fault hDoc => exact nesting_ofReading_le fun _ => Nat.zero_le _
  | case2 source doc hDoc ih =>
    refine nesting_ofReading_le ?_
    intro _
    exact Nat.le_trans (nesting_readFrom_le steps doc _ ih 0 0) (Markup.depth_document_le hDoc)

end Scene

/-! ## 3. The bound -/

/-- **The number of `>` bounds how deep groups are nested.**  Every text has its references
replaced by its own definitions, and the text that results has no more `>` than the text.  The
inside of a group has fewer than the text that the group stands in, wherever in that text it
stands.  So the scene of a text has no more groups inside of each other than the text has
`>`. -/
theorem nesting_bounded (source : Text) :
    (∃ text, (Markup.expand (Markup.definitions source) source).outcome = .ok text ∧
      text.count '>' ≤ source.count '>') ∧
    (∀ (t body : Text) (p : Nat), Element.groupBody? t p = some body →
      body.count '>' < t.count '>') ∧
    ∀ width height steps : Int,
      (Scene.read width height steps source).nesting ≤ source.count '>' := by
  obtain ⟨text, htext⟩ := Markup.expand_total (Markup.definitions source) source
  refine ⟨⟨text, htext, Markup.depth_expand_le htext⟩, ?_, ?_⟩
  · intro t body p h
    exact Element.depth_groupBody_lt h
  · intro width height steps
    exact Scene.nesting_read_le width height steps source

/-- A text whose inner group is closed by fragments.  Its first `<use` is dropped when the text
is read, and the `<use` that is left by this when the inside of the outer group is read. -/
def assembledCloser : Text := "<g><g><<<use>use>/g></g>".toList

/-- A closer that only comes about inside of a group nests the groups twice. -/
theorem nesting_bounded_assembledCloser :
    Element.groupBody? "<g><g><<use>/g></g>".toList 0 = some "<g><<use>/g>".toList ∧
    "<g><<use>/g>".toList.count '>' < "<g><g><<use>/g></g>".toList.count '>' ∧
    (Scene.read 160 120 10 assembledCloser).nesting = 2 ∧ 2 ≤ assembledCloser.count '>' := by
  have hbody : Element.groupBody? "<g><g><<use>/g></g>".toList 0 =
      some "<g><<use>/g>".toList := by decide
  have hnesting : (Scene.read 160 120 10 assembledCloser).nesting = 2 := by decide +kernel
  obtain ⟨_, hinside, hbound⟩ := nesting_bounded assembledCloser
  refine ⟨hbody, hinside _ _ _ hbody, hnesting, ?_⟩
  rw [← hnesting]
  exact hbound 160 120 10

end VectorPaint
