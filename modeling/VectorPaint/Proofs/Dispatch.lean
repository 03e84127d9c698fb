/-
# Reading goes on behind every tag

The reading of a document is a loop from tag to tag.  Where it goes on depends on the kind of the
tag: behind a comma, behind a `>`, behind a closer, or, where none of these follows, at the end of
the text.  Whichever it is, that place lies behind the tag and not behind the end of the text
(`resume_bounds`), and the next tag does not stand before it.

So a document's tags are read in the order in which they stand, none of them twice, and there are
no more of them than the text has code points: `tags_increase`.
-/
import VectorPaint.Proofs.Acts

namespace VectorPaint

/-! ## 1. One step -/

namespace Element

open Markup (Kind)

theorem behind_le (closer t : Text) (p : Nat) : behind closer t p ≤ t.length := by
  simp only [behind]
  split
  · rename_i stop h
    exact Text.find?_add_length_le h
  · exact Nat.le_refl _

theorem behindDefinitions_le (t : Text) (p : Nat) : behindDefinitions t p ≤ t.length := by
  simp only [behindDefinitions]
  split
  · exact Nat.le_refl _
  · rename_i stop h
    split
    · exact Text.find?_add_length_le h
    · exact behind_le _ _ _

theorem tagEnd_le (t : Text) (start : Int) (terminator : Text) :
    Markup.tagEnd t start terminator ≤ t.length := by
  simp only [Markup.tagEnd]
  cases h : Text.find? terminator t (Text.anchor t.length start) with
  | none => exact Nat.le_refl _
  | some q => exact (Text.find?_some h).2.1

/-- Reading goes on inside the text or at its end, whatever the kind of the tag. -/
theorem resume_le (t : Text) (p : Nat) (kind : Kind) : resume t p kind ≤ t.length := by
  cases kind with
  | text => exact behind_le _ _ _
  | group => exact behind_le _ _ _
  | definitions => exact behindDefinitions_le _ _
  | rect | circle | line | ellipse | polyline | polygon | path => exact tagEnd_le _ _ _

/-- **One step goes on.**  The next tag does not stand before the place from which it was looked
for, and reading goes on behind it. -/
theorem resume_bounds {t : Text} {start : Int} {p : Nat} {kind : Kind}
    (h : Markup.nextTag? Kind.name Kind.all t start = some (p, kind)) :
    start ≤ p ∧ p < resume t p kind ∧ resume t p kind ≤ t.length :=
  ⟨(Markup.nextTag?_mark h).1, lt_resume h, resume_le _ _ _⟩

end Element

/-! ## 2. Notes of a document -/

namespace Markup

/-- Replacing references notes nothing about tags that were found. -/
theorem expand_ordinary (defs : Definitions) (t : Text) :
    (expand defs t).All fun r => Act.IsOrdinary (.note r) := by
  have hnumber : ∀ tag name : Text,
      (attributeNumber tag name).All fun r => Act.IsOrdinary (.note r) := by
    intro tag name
    exact Journal.all_mapEntries.mp (Element.number_ordinary tag name)
  fun_induction expand defs t with
  | case1 t => exact Journal.all_pure _
  | case2 t => exact Journal.all_pure _
  | case3 t before rest hCut tag after hClose ih =>
    refine Journal.All.bind ?_ fun _ _ => ih.bind fun _ _ => Journal.all_pure _
    simp only [resolve]
    refine (hnumber _ _).bind fun x _ => (hnumber _ _).bind ?_
    intro y _
    split
    · exact Journal.all_pure _
    · refine Journal.All.bind (Journal.all_enter.mpr ?_) fun _ _ => Journal.all_pure _
      intro _ _ h
      cases h

end Markup

namespace Document

/-- What is noted about a document before its tags are read is not that a tag was found. -/
theorem ofText_ordinary (source : Text) (width height : Int) :
    (ofText source width height).All fun r => Act.IsOrdinary (.note r) := by
  unfold ofText
  refine (Markup.expand_ordinary _ _).bind fun t _ => (Journal.all_lift _).bind fun pixels _ => ?_
  refine Journal.All.bind ?_ fun box _ => ?_
  · unfold Viewport.viewBox?
    split
    · exact Journal.all_pure _
    · split
      · dsimp only
        split
        · exact Journal.all_pure _
        · refine Journal.All.bind (Journal.all_enter.mpr ?_) fun _ _ => Journal.all_pure _
          intro _ _ h
          cases h
      · refine Journal.All.bind (Journal.all_enter.mpr ?_) fun _ _ => Journal.all_pure _
        intro _ _ h
        cases h
  · split <;> exact Journal.all_pure _

end Document

/-! ## 3. The tags of a document -/

namespace Scene

open Markup (Kind)

/-- Where the tags stand that were read, in the order of the reading.  Those inside of groups are
the tags of another document. -/
def positions : Scene → List Nat
  | .done _ => []
  | .failed _ => []
  | .act (.note (.tagFound _ p)) rest => p :: rest.positions
  | .act _ rest => rest.positions
  | .group _ rest => rest.positions

/-- An ordinary act stands for no tag. -/
theorem positions_act {a : Act} (h : a.IsOrdinary) (rest : Scene) :
    (Scene.act a rest).positions = rest.positions := by
  cases a with
  | paint p => rfl
  | note r =>
    cases r with
    | tagFound name p => exact absurd rfl (h name p)
    | _ => rfl

theorem positions_acts {es : List Act} (h : ∀ a ∈ es, a.IsOrdinary) (rest : Scene) :
    (es.foldr Scene.act rest).positions = rest.positions := by
  induction es with
  | nil => rfl
  | cons e es ih =>
    rw [List.foldr_cons, positions_act (h e List.mem_cons_self)]
    exact ih fun e' he' => h e' (List.mem_cons_of_mem _ he')

/-- What an element leaves stands for no tag, so only the scene that follows has some. -/
theorem positions_ofReading {α : Type} {j : Journal Act α} (hj : j.All Act.IsOrdinary)
    (next : α → Scene) :
    (ofReading j next).positions = [] ∨
      ∃ a, j.outcome = .ok a ∧ (ofReading j next).positions = (next a).positions := by
  simp only [ofReading]
  rw [positions_acts hj]
  split
  · rename_i a ha
    exact Or.inr ⟨a, ha, rfl⟩
  · exact Or.inl rfl

/-- Tags in the order in which they stand, all of them in a part of a text. -/
structure AreTagsFrom (ps : List Nat) (start stop : Nat) : Prop where
  /-- Each tag stands behind those before it. -/
  increasing : ps.Pairwise (· < ·)
  /-- All tags stand in the part. -/
  within : ∀ p ∈ ps, start ≤ p ∧ p < stop
  /-- There are no more tags than places. -/
  few : ps.length ≤ stop - start

theorem AreTagsFrom.nil (start stop : Nat) : AreTagsFrom [] start stop :=
  ⟨List.Pairwise.nil, fun _ h => absurd h List.not_mem_nil, Nat.zero_le _⟩

/-- A tag in front of the tags that stand behind it. -/
theorem AreTagsFrom.cons {ps : List Nat} {start p next stop : Nat} (h : AreTagsFrom ps next stop)
    (hstart : start ≤ p) (hnext : p < next) (hstop : next ≤ stop) :
    AreTagsFrom (p :: ps) start stop where
  increasing := by
    refine List.Pairwise.cons ?_ h.increasing
    intro q hq
    exact Nat.lt_of_lt_of_le hnext (h.within q hq).1
  within := by
    intro q hq
    rcases List.mem_cons.mp hq with rfl | hq
    · omega
    · have := h.within q hq
      omega
  few := by
    have := h.few
    rw [List.length_cons]
    omega

/-- **The reading of a document takes its tags in order,** whatever the insides of its groups are
read to be. -/
theorem areTagsFrom_readFrom (steps : Int) (doc : Document)
    (readBody : (body : Text) → Markup.depth body < Markup.depth doc.text → Scene)
    (stacked : Int) (position : Nat) :
    AreTagsFrom (readFrom steps doc readBody stacked position).positions position
      doc.text.length := by
  fun_induction readFrom steps doc readBody stacked position with
  | case1 => exact AreTagsFrom.nil _ _
  | case2 stacked position p kind hNext hPosition hResume ihBody ihRest =>
    have hstep := Element.resume_bounds hNext
    have hstart : position ≤ p := by omega
    simp only [positions]
    refine AreTagsFrom.cons ?_ hstart hstep.2.1 hstep.2.2
    split
    · rename_i body hBody
      exact ihBody body
    · rcases positions_ofReading (Element.read_ordinary doc.viewport steps stacked doc.text p kind)
        (fun stacked => readFrom steps doc readBody stacked (Element.resume doc.text p kind))
        with h | ⟨a, _, h⟩
      · rw [h]
        exact AreTagsFrom.nil _ _
      · rw [h]
        exact ihRest a

/-- The tags of a text's scene are those of its document. -/
theorem areTagsFrom_read {source : Text} {width height : Int} {doc : Document}
    (hdoc : (Document.ofText source width height).outcome = .ok doc) (steps : Int) :
    AreTagsFrom (read width height steps source).positions 0 doc.text.length := by
  have hnotes : ((Document.ofText source width height).mapEntries Act.note).All
      Act.IsOrdinary := Journal.all_mapEntries.mpr (Document.ofText_ordinary _ _ _)
  unfold read
  split
  · rename_i fault hfault
    rw [hdoc] at hfault
    cases hfault
  · rename_i doc' hdoc'
    rw [hdoc] at hdoc'
    cases hdoc'
    rcases positions_ofReading hnotes (fun _ => readFrom steps doc
      (fun body _ => read width height steps body) 0 0) with h | ⟨_, _, h⟩
    · rw [h]
      exact AreTagsFrom.nil _ _
    · rw [h]
      exact areTagsFrom_readFrom steps doc _ 0 0

end Scene

/-! ## 4. The loop -/

/-- **The reading of a document always goes on.**  Whatever tag is found in a text, from wherever
it was looked for, it does not stand before that place, and reading goes on behind it and not
behind the end of the text.  So the tags of a document are read in the order in which they stand,
each of them once, and there are no more of them than code points in the text. -/
theorem tags_increase :
    (∀ (t : Text) (start : Int) (p : Nat) (kind : Markup.Kind),
      Markup.nextTag? Markup.Kind.name Markup.Kind.all t start = some (p, kind) →
      start ≤ p ∧ p < Element.resume t p kind ∧ Element.resume t p kind ≤ t.length) ∧
    ∀ (source : Text) (width height steps : Int) (doc : Document),
      (Document.ofText source width height).outcome = .ok doc →
      let positions := (Scene.read width height steps source).positions
      positions.Pairwise (· < ·) ∧ positions.Nodup ∧ (∀ p ∈ positions, p < doc.text.length) ∧
        positions.length ≤ doc.text.length := by
  refine ⟨fun t start p kind h => Element.resume_bounds h, ?_⟩
  intro source width height steps doc hdoc
  have h := Scene.areTagsFrom_read hdoc steps
  refine ⟨h.increasing, ?_, fun p hp => (h.within p hp).2, h.few⟩
  exact h.increasing.imp fun hlt => Nat.ne_of_lt hlt

/-- A text whose tags lack their ends.  What closes the first overlaps it. -/
def unfinishedTags : Text := "<text</text><rect x=1,<g><circle".toList

/-- Unfinished tags are read once each, in their order. -/
theorem tags_increase_unfinishedTags :
    (Scene.read 160 120 10 unfinishedTags).positions.Pairwise (· < ·) ∧
    (Scene.read 160 120 10 unfinishedTags).positions = [0, 12, 22] := by
  have hp : (Scene.read 160 120 10 unfinishedTags).positions = [0, 12, 22] := by decide +kernel
  have hok : (Document.ofText unfinishedTags 160 120).outcome.toOption.isSome := by
    decide +kernel
  cases hdoc : (Document.ofText unfinishedTags 160 120).outcome with
  | error fault =>
    rw [hdoc] at hok
    cases hok
  | ok doc => exact ⟨(tags_increase.2 unfinishedTags 160 120 10 doc hdoc).1, hp⟩

end VectorPaint
