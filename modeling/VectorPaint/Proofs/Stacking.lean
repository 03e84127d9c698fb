/-
# Stacked texts do not overlap

A document is read by a loop over its tags (`Element.tagsFrom`), and the tags of its text elements
are among them.  The reading carries the height of the stack along.  Each closed text element is
painted below the texts that were stacked before it, or where its own coordinates say, and nothing
else paints a text or changes the stack (`Element.read_leaves`).  So at any element the stack is as
high as the letters of all stacked texts before it: `Scene.readFrom_leaves`.

The letters of each stacked text therefore begin where those of the one before end.  No two
stacked texts share a row of the device, and no row between them is left out.

A group is read as a text of its own, with a stack of its own.  The tags inside of it are none of
the document's tags, and so its texts are not on the document's stack.
-/
import VectorPaint.Proofs.Captions
import VectorPaint.Proofs.Dispatch
import VectorPaint.Proofs.Viewports

namespace VectorPaint

/-! ## 1. The tags of a document -/

namespace Element

open Markup (Kind)

/-- The tags that a reading comes to from a position in a text on: where they stand, and what they
are. -/
def tagsFrom (t : Text) (position : ℕ) : List (ℕ × Kind) :=
  match _hNext : Markup.nextTag? Kind.name Kind.all t position with
  | none => []
  | some (p, kind) => (p, kind) :: tagsFrom t (resume t p kind)
termination_by t.length - position
decreasing_by
  have := resume_bounds _hNext
  omega

theorem tagsFrom_of_none {t : Text} {position : ℕ}
    (hnext : Markup.nextTag? Kind.name Kind.all t position = none) : tagsFrom t position = [] := by
  rw [tagsFrom]
  split
  · rfl
  · rename_i hnext'
    cases hnext.symm.trans hnext'

theorem tagsFrom_of_some {t : Text} {position p : ℕ} {kind : Kind}
    (hnext : Markup.nextTag? Kind.name Kind.all t position = some (p, kind)) :
    tagsFrom t position = (p, kind) :: tagsFrom t (resume t p kind) := by
  rw [tagsFrom]
  split
  · rename_i hnext'
    cases hnext.symm.trans hnext'
  · rename_i hnext'
    cases hnext.symm.trans hnext'
    rfl

/-- The captions among the tags that a reading comes to. -/
def captionsFrom (t : Text) (position : ℕ) : List Caption :=
  (tagsFrom t position).filterMap fun tag => caption? t tag.1 tag.2

theorem captionsFrom_of_some {t : Text} {position p : ℕ} {kind : Kind}
    (hnext : Markup.nextTag? Kind.name Kind.all t position = some (p, kind)) :
    captionsFrom t position = (caption? t p kind).toList ++ captionsFrom t (resume t p kind) := by
  simp only [captionsFrom]
  rw [tagsFrom_of_some hnext]
  cases hcaption : caption? t p kind with
  | none => exact List.filterMap_cons_none hcaption
  | some e => exact List.filterMap_cons_some hcaption

/-! ## 2. The height of a stack -/

variable {v : Viewport} {stacked : ℤ} {e : Caption} {es : List Caption} {p : Paint}
  {ps : List Paint} {i j : ℕ}

/-- The height of the stack with all these captions on it. -/
def height (v : Viewport) (es : List Caption) : ℤ := (es.map (growth v)).sum

theorem height_cons (v : Viewport) (e : Caption) (es : List Caption) :
    height v (e :: es) = growth v e + height v es := by
  simp only [height]
  rw [List.map_cons, List.sum_cons]

theorem height_singleton (v : Viewport) (e : Caption) : height v [e] = growth v e :=
  List.sum_singleton

theorem height_append (v : Viewport) (es es' : List Caption) :
    height v (es ++ es') = height v es + height v es' := by
  simp only [height]
  rw [List.map_append, List.sum_append]

theorem growth_nonneg (v : Viewport) (e : Caption) : 0 ≤ growth v e := by
  simp only [growth]
  split
  · exact (Font.charHeight_ofSize_pos _).le
  · exact le_refl 0

theorem height_nonneg (v : Viewport) (es : List Caption) : 0 ≤ height v es := by
  refine List.sum_nonneg ?_
  intro n hn
  obtain ⟨e, -, rfl⟩ := List.mem_map.mp hn
  exact growth_nonneg v e

/-- Captions that are not stacked have no height together. -/
theorem height_of_not_isStacked (h : ∀ e ∈ es, ¬ IsStacked v e.1) : height v es = 0 := by
  refine List.sum_eq_zero ?_
  intro n hn
  obtain ⟨e, he, rfl⟩ := List.mem_map.mp hn
  exact if_neg (h e he)

/-- The height of the stack at a caption: that of the captions before it. -/
def top (v : Viewport) (es : List Caption) (i : ℕ) : ℤ := height v (es.take i)

theorem top_zero (v : Viewport) (es : List Caption) : top v es 0 = 0 := rfl

theorem top_cons_succ (v : Viewport) (e : Caption) (es : List Caption) (i : ℕ) :
    top v (e :: es) (i + 1) = growth v e + top v es i := height_cons v e (es.take i)

/-- The stack at a caption is the one at an earlier one, with this and those between put on it. -/
theorem top_of_lt (hij : i < j) (hi : es[i]? = some e) :
    top v es j = top v es i + growth v e + height v ((es.take j).drop (i + 1)) := by
  have htake : (es.take j).take (i + 1) = es.take i ++ [e] := by
    rw [List.take_take, min_eq_left hij, List.take_add_one, hi]
    rfl
  calc height v (es.take j)
      = height v ((es.take j).take (i + 1) ++ (es.take j).drop (i + 1)) := by
        rw [List.take_append_drop]
    _ = height v (es.take i) + height v [e] + height v ((es.take j).drop (i + 1)) := by
        rw [height_append, htake, height_append]
    _ = height v (es.take i) + growth v e + height v ((es.take j).drop (i + 1)) := by
        rw [height_singleton]

/-- **Stacked captions are apart.**  The letters of a stacked caption have ended where a later
caption begins, and end there if no caption between them is stacked. -/
theorem IsStacked.apart (h : IsStacked v e.1) (hij : i < j) (hi : es[i]? = some e) :
    top v es i + (fontOf e.1).charHeight ≤ top v es j ∧
      ((∀ b ∈ (es.take j).drop (i + 1), ¬ IsStacked v b.1) →
        top v es j = top v es i + (fontOf e.1).charHeight) := by
  have hgrowth : growth v e = (fontOf e.1).charHeight := if_pos h
  rw [top_of_lt hij hi, hgrowth]
  refine ⟨le_add_of_nonneg_right (height_nonneg _ _), fun hbetween => ?_⟩
  rw [height_of_not_isStacked hbetween, add_zero]

/-! ## 3. Painted captions -/

/-- The paints are the captions in order, each painted below those before it on the stack. -/
inductive ArePrinted (v : Viewport) : ℤ → List Caption → List Paint → Prop
  | nil {stacked : ℤ} : ArePrinted v stacked [] []
  | cons {stacked : ℤ} {e : Caption} {es : List Caption} {p : Paint} {ps : List Paint}
      (hfirst : IsPrinted v stacked e p) (hrest : ArePrinted v (stacked + growth v e) es ps) :
      ArePrinted v stacked (e :: es) (p :: ps)

theorem ArePrinted.length_eq (h : ArePrinted v stacked es ps) : ps.length = es.length := by
  induction h with
  | nil => rfl
  | cons _ _ ih => rw [List.length_cons, List.length_cons, ih]

/-- **Each caption is painted below those before it.** -/
theorem ArePrinted.getElem? (h : ArePrinted v stacked es ps) (he : es[i]? = some e) :
    ∃ p, ps[i]? = some p ∧ IsPrinted v (stacked + top v es i) e p := by
  induction h generalizing i with
  | nil => cases he
  | @cons stacked first es p ps hfirst hrest ih =>
    cases i with
    | zero =>
      cases he
      refine ⟨p, rfl, ?_⟩
      rw [top_zero, add_zero]
      exact hfirst
    | succ i =>
      obtain ⟨q, hq, hprinted⟩ := ih he
      refine ⟨q, hq, ?_⟩
      rw [top_cons_succ, ← add_assoc]
      exact hprinted

end Element

/-! ## 4. Texts of a scene -/

namespace Scene

open Markup (Kind)
open Element (ArePrinted captionsFrom tagsFrom)

variable {width height steps : ℤ} {doc : Document}

/-- The acts of a scene, those of groups left out. -/
def ownActs : Scene → List Act
  | .done _ => []
  | .failed _ => []
  | .act a rest => a :: rest.ownActs
  | .group _ rest => rest.ownActs

/-- The texts that a scene paints, those of groups left out. -/
def ownTexts (s : Scene) : List Paint := s.ownActs.filterMap Act.text?

/-- After a reading that succeeds, its acts are in front of what follows. -/
theorem ofReading_of_ok {α : Type} {j : Journal Act α} {a : α} (h : j.outcome = .ok a)
    (next : α → Scene) : ofReading j next = j.entries.foldr .act (next a) := by
  simp only [ofReading]
  rw [h]

theorem ownTexts_foldr (es : List Act) (rest : Scene) :
    (es.foldr act rest).ownTexts = es.filterMap Act.text? ++ rest.ownTexts := by
  induction es with
  | nil => rfl
  | cons a es ih =>
    simp only [ownTexts] at ih ⊢
    rw [List.foldr_cons, ownActs, List.filterMap_cons, List.filterMap_cons, ih]
    cases a.text? <;> rfl

theorem stacked_foldr (es : List Act) (rest : Scene) :
    (es.foldr act rest).stacked = rest.stacked := by
  induction es with
  | nil => rfl
  | cons a es ih => exact ih

/-- What the reading of a document leaves, from a position on: the tags that it notes, the texts
that it paints, and the stack. -/
structure Leaves (doc : Document) (stacked : ℤ) (position : ℕ) (s : Scene) : Prop where
  positions : s.positions = (tagsFrom doc.text position).map Prod.fst
  texts : ArePrinted doc.viewport stacked (captionsFrom doc.text position) s.ownTexts
  stacked : s.stacked = stacked + Element.height doc.viewport (captionsFrom doc.text position)

theorem leaves_of_none {stacked : ℤ} {position : ℕ}
    (hnext : Markup.nextTag? Kind.name Kind.all doc.text position = none) :
    Leaves doc stacked position (.done stacked) := by
  have htags := Element.tagsFrom_of_none hnext
  have hcaptions : captionsFrom doc.text position = [] := by
    simp only [captionsFrom]
    rw [htags]
    rfl
  refine ⟨?_, ?_, ?_⟩
  · rw [htags]
    rfl
  · rw [hcaptions]
    exact .nil
  · rw [hcaptions]
    exact (add_zero stacked).symm

/-- A group leaves what is left behind it. -/
theorem Leaves.group {stacked : ℤ} {position p : ℕ} {name : Text} {body rest : Scene}
    (hnext : Markup.nextTag? Kind.name Kind.all doc.text position = some (p, .group))
    (hrest : Leaves doc stacked (Element.resume doc.text p .group) rest) :
    Leaves doc stacked position (.act (.note (.tagFound name p)) (.group body rest)) := by
  have hcaptions : captionsFrom doc.text position =
      captionsFrom doc.text (Element.resume doc.text p .group) :=
    Element.captionsFrom_of_some hnext
  refine ⟨?_, ?_, ?_⟩
  · rw [Element.tagsFrom_of_some hnext]
    exact congrArg (p :: ·) hrest.positions
  · rw [hcaptions]
    exact hrest.texts
  · rw [hcaptions]
    exact hrest.stacked

/-- **One step.**  An element that is read leaves its caption, if it has one, and what is left
behind it with the stack as the element leaves it. -/
theorem Leaves.element {stacked n : ℤ} {position p : ℕ} {kind : Kind} {name : Text}
    {next : ℤ → Scene}
    (hnext : Markup.nextTag? Kind.name Kind.all doc.text position = some (p, kind))
    (hread : (Element.read doc.viewport steps stacked doc.text p kind).outcome = .ok n)
    (hrest : Leaves doc n (Element.resume doc.text p kind) (next n)) :
    Leaves doc stacked position (.act (.note (.tagFound name p))
      (.ofReading (Element.read doc.viewport steps stacked doc.text p kind) next)) := by
  have hordinary := Element.read_ordinary doc.viewport steps stacked doc.text p kind
  obtain ⟨hcaption, hnone⟩ := Element.read_leaves hread
  have hcaptions := Element.captionsFrom_of_some hnext
  rw [ofReading_of_ok hread]
  refine ⟨?_, ?_, ?_⟩
  · rw [Element.tagsFrom_of_some hnext, Scene.positions, positions_acts hordinary,
      hrest.positions]
    rfl
  · change ArePrinted _ _ _ (ownTexts (List.foldr _ _ _))
    rw [ownTexts_foldr, hcaptions]
    cases h : Element.caption? doc.text p kind with
    | none =>
      obtain ⟨htexts, rfl⟩ := hnone h
      rw [← Journal.texts, htexts]
      exact hrest.texts
    | some e =>
      obtain ⟨paint, hprinted, htexts, rfl⟩ := hcaption e h
      rw [← Journal.texts, htexts]
      exact .cons hprinted hrest.texts
  · change (List.foldr _ _ _ : Scene).stacked = _
    rw [stacked_foldr, hrest.stacked, hcaptions]
    cases h : Element.caption? doc.text p kind with
    | none =>
      obtain ⟨-, rfl⟩ := hnone h
      rfl
    | some e =>
      obtain ⟨paint, -, -, rfl⟩ := hcaption e h
      rw [add_assoc, ← Element.height_cons]
      rfl

/-- **The reading of a document that comes to its end** paints the captions of the document, one
below the other. -/
theorem readFrom_leaves
    (readBody : (body : Text) → Markup.depth body < Markup.depth doc.text → Scene)
    (stacked : ℤ) (position : ℕ)
    (hfault : (readFrom steps doc readBody stacked position).fault? = none) :
    Leaves doc stacked position (readFrom steps doc readBody stacked position) := by
  fun_induction readFrom steps doc readBody stacked position with
  | case1 stacked position hNext => exact leaves_of_none hNext
  | case2 stacked position p kind hNext hPosition hResume ihBody ihRest =>
    -- The loop goes on with the same stack behind a group, and with the element's behind others.
    rw [fault?_act] at hfault
    revert hfault
    split
    · rename_i body hBody
      intro hfault
      rw [fault?_group, Option.or_eq_none_iff] at hfault
      split at hBody
      · rename_i hkind
        subst hkind
        exact .group hNext (ihBody body hfault.2)
      · cases hBody
    · intro hfault
      obtain ⟨n, hread, hrest⟩ := (fault?_ofReading _ _).mp hfault
      exact .element hNext hread (ihRest n hrest)

/-! ## 5. Readings that come to their end -/

theorem read_of_ok {source : Text}
    (hdoc : (Document.ofText source width height).outcome = .ok doc) :
    read width height steps source =
      ofReading ((Document.ofText source width height).mapEntries .note) fun _ =>
        readFrom steps doc (fun body _ => read width height steps body) 0 0 := by
  rw [read]
  split
  · rename_i fault hdoc'
    cases hdoc.symm.trans hdoc'
  · rename_i doc' hdoc'
    cases hdoc.symm.trans hdoc'
    rfl

/-- **What a text leaves** whose reading comes to its end. -/
theorem read_leaves {source : Text} (hfault : (read width height steps source).fault? = none) :
    ∃ doc, (Document.ofText source width height).outcome = .ok doc ∧
      Leaves doc 0 0 (read width height steps source) := by
  have hdoc : ∃ doc, (Document.ofText source width height).outcome = .ok doc := by
    rw [read] at hfault
    split at hfault
    · obtain ⟨doc, hdoc, -⟩ := (fault?_ofReading _ _).mp hfault
      exact ⟨doc, hdoc⟩
    · exact ⟨_, ‹_›⟩
  obtain ⟨doc, hdoc⟩ := hdoc
  have houtcome : ((Document.ofText source width height).mapEntries Act.note).outcome = .ok doc :=
    hdoc
  refine ⟨doc, hdoc, ?_⟩
  rw [read_of_ok hdoc] at hfault ⊢
  obtain ⟨_, -, hrest⟩ := (fault?_ofReading _ _).mp hfault
  have hleaves := readFrom_leaves _ 0 0 hrest
  have hnotes : ((Document.ofText source width height).mapEntries Act.note).All
      Act.IsOrdinary := Journal.all_mapEntries.mpr (Document.ofText_ordinary _ _ _)
  have htextless : ((Document.ofText source width height).mapEntries Act.note).All
      Act.IsTextless := Journal.all_mapEntries.mpr fun r _ => rfl
  rw [ofReading_of_ok houtcome]
  refine ⟨?_, ?_, ?_⟩
  · rw [positions_acts hnotes]
    exact hleaves.positions
  · rw [ownTexts_foldr, ← Journal.texts, Journal.texts_of_textless htextless]
    exact hleaves.texts
  · rw [stacked_foldr]
    exact hleaves.stacked

/-- A reading that comes to its end does so behind each tag and in each group. -/
theorem fault?_readFrom_of_some
    {readBody : (body : Text) → Markup.depth body < Markup.depth doc.text → Scene}
    {stacked : ℤ} {position p : ℕ} {kind : Kind}
    (hnext : Markup.nextTag? Kind.name Kind.all doc.text position = some (p, kind))
    (hfault : (readFrom steps doc readBody stacked position).fault? = none) :
    (∃ n, (readFrom steps doc readBody n (Element.resume doc.text p kind)).fault? = none) ∧
      ∀ body, kind = .group → Element.groupBody? doc.text p = some body →
        ∃ hdepth, (readBody body hdepth).fault? = none := by
  rw [readFrom] at hfault
  split at hfault
  · rename_i hnext'
    cases hnext.symm.trans hnext'
  · rename_i hnext'
    cases hnext.symm.trans hnext'
    rw [fault?_act] at hfault
    split at hfault
    · rename_i body hbody
      rw [fault?_group, Option.or_eq_none_iff] at hfault
      refine ⟨⟨stacked, hfault.2⟩, ?_⟩
      rintro body' rfl hbody'
      rw [if_pos rfl] at hbody
      cases hbody.symm.trans hbody'
      exact ⟨_, hfault.1⟩
    · rename_i hbody
      obtain ⟨n, -, hrest⟩ := (fault?_ofReading _ _).mp hfault
      refine ⟨⟨n, hrest⟩, ?_⟩
      rintro body' rfl hbody'
      rw [if_pos rfl, hbody'] at hbody
      cases hbody

theorem fault?_of_readsFrom {doc' : Document} {stacked : ℤ} {position p : ℕ} {kind : Kind}
    {t : Text} (h : ReadsFrom width height doc position doc' p kind) (hkind : kind = .group)
    (hbody : Element.groupBody? doc'.text p = some t)
    (hfault : (readFrom steps doc (fun body _ => read width height steps body) stacked
      position).fault? = none) : (read width height steps t).fault? = none := by
  -- The stack is another one behind each tag, and the reading of a group starts with none.
  induction h generalizing stacked with
  | here hnext => exact ((fault?_readFrom_of_some hnext hfault).2 t hkind hbody).2
  | behind hnext hrest ih =>
    obtain ⟨n, hrest⟩ := (fault?_readFrom_of_some hnext hfault).1
    exact ih hkind hbody hrest
  | inside hnext hgroup hinner hrest ih =>
    obtain ⟨-, hfault⟩ := (fault?_readFrom_of_some hnext hfault).2 _ rfl hgroup
    rw [read_of_ok hinner] at hfault
    obtain ⟨_, -, hfault⟩ := (fault?_ofReading _ _).mp hfault
    exact ih hkind hbody hfault

/-- **If the reading of a text comes to its end, then so do those of its groups.** -/
theorem fault?_of_opens {source t : Text} (ht : Opens width height source t)
    (hfault : (read width height steps source).fault? = none) :
    (read width height steps t).fault? = none := by
  rcases ht with rfl | ⟨doc, p, ⟨start, hstart, hfrom⟩, hbody⟩
  · exact hfault
  · rw [read_of_ok hstart] at hfault
    obtain ⟨_, -, hfault⟩ := (fault?_ofReading _ _).mp hfault
    exact fault?_of_readsFrom hfrom rfl hbody hfault

end Scene

/-! ## 6. Renderings -/

open Element in
/-- **Stacked texts do not overlap.**  Where a text can be rendered, take the text itself or the
inside of one of its groups.  Its tags are read in order, and its text elements have captions if a
closer follows.  Each caption is painted, in order: at the left of the device below all captions
before it that are stacked, if both of its coordinates are carried across to zero, and else where
they are carried across to; and nothing else paints a text.  In the end the stack is as high as all
stacked captions together.  Of two stacked captions, the later one begins where the letters of the
earlier one have ended, and exactly there if no caption between them is stacked. -/
theorem texts_stack {letters : Lettering} {frame : Frame} {source : Text} {r : Rendering}
    (h : Rendering.ofTextWith letters frame source = .ok r) :
    r.scene = Scene.read frame.width frame.height frame.steps source ∧
    ∀ t, Scene.Opens frame.width frame.height source t →
      ∃ doc, (Document.ofText t frame.width frame.height).outcome = .ok doc ∧
        let v := doc.viewport
        let scene := Scene.read frame.width frame.height frame.steps t
        let es := captionsFrom doc.text 0
        scene.positions = (tagsFrom doc.text 0).map Prod.fst ∧
        (∀ tag ∈ tagsFrom doc.text 0, (caption? doc.text tag.1 tag.2).isSome ↔
          tag.2 = .text ∧ (Text.find? textCloser doc.text tag.1).isSome) ∧
        scene.ownTexts.length = es.length ∧
        (∀ i e, es[i]? = some e →
          ∃ p, scene.ownTexts[i]? = some p ∧ IsPrinted v (top v es i) e p) ∧
        scene.stacked = height v es ∧
        ∀ i j e e', i < j → es[i]? = some e → es[j]? = some e' → IsStacked v e.1 →
          IsStacked v e'.1 → 0 < (fontOf e.1).charHeight ∧
            top v es i + (fontOf e.1).charHeight ≤ top v es j ∧
            ((∀ b ∈ (es.take j).drop (i + 1), ¬ IsStacked v b.1) →
              top v es j = top v es i + (fontOf e.1).charHeight) := by
  obtain ⟨hscene, hpaint⟩ := Rendering.paintOn_of_ofTextWith h
  refine ⟨hscene, fun t ht => ?_⟩
  rw [hscene] at hpaint
  have hfault := ((Scene.paintOnWith_ok_iff letters _
    (Scene.paints_read_inked _ _ _ _)).mp ⟨_, hpaint⟩).1
  obtain ⟨doc, hdoc, hleaves⟩ := Scene.read_leaves (Scene.fault?_of_opens ht hfault)
  refine ⟨doc, hdoc, hleaves.positions, fun tag _ => isSome_caption?_iff _ _ _,
    hleaves.texts.length_eq, fun i e he => ?_, ?_,
    fun i j e e' hij he _ hstacked _ => ⟨Font.charHeight_ofSize_pos _, hstacked.apart hij he⟩⟩
  · have hprinted := hleaves.texts.getElem? he
    rwa [zero_add] at hprinted
  · rw [hleaves.stacked, zero_add]

/-- The tag and the content of the last text that is closed. -/
def lastText : Element.Caption := ("<text font-size=\"12\">D</text><text>E".toList, ['D'])

/-- A text off the origin, two at the origin with one in a group between them, and one that is not
closed. -/
def mixedTexts : Text :=
  "<text x=\"9\">A</text><text>B</text><g><text>C</text></g>".toList ++ lastText.1

open Element in
/-- Of the texts before the last closed one, only the second is on the stack. -/
theorem texts_stack_mixedTexts :
    ∃ r, Rendering.ofTextWith .blocks (.ofSize 4 4 none) mixedTexts = .ok r ∧
      r.scene.stacked = 20 ∧ r.scene.ownTexts[2]? =
        some ⟨.text ['D'] (.whole 0) (.whole 8) Font.large, fill lastText.1⟩ := by
  obtain ⟨r, hr⟩ := exists_ok_of_isSome
    (r := Rendering.ofTextWith .blocks (.ofSize 4 4 none) mixedTexts) (by decide +kernel)
  obtain ⟨hscene, hstack⟩ := texts_stack hr
  obtain ⟨⟨t, v⟩, hdoc, -, -, -, hprinted, hstacked, -⟩ := hstack mixedTexts (Or.inl rfl)
  have hview : (Document.ofText mixedTexts 4 4).outcome.toOption.map
      (fun doc => (doc.text, doc.viewport)) = some (mixedTexts, ⟨4, 4, 4.0, 4.0⟩) := by
    decide +kernel
  have hdoc' : (Document.ofText mixedTexts 4 4).outcome = .ok ⟨t, v⟩ := hdoc
  rw [hdoc'] at hview
  obtain ⟨rfl, rfl⟩ := Prod.mk.inj (Option.some.inj hview)
  obtain ⟨hlast, htop, hheight⟩ : (captionsFrom mixedTexts 0)[2]? = some lastText ∧
      top ⟨4, 4, 4.0, 4.0⟩ (captionsFrom mixedTexts 0) 2 = 8 ∧
      height ⟨4, 4, 4.0, 4.0⟩ (captionsFrom mixedTexts 0) = 20 := by
    decide +kernel
  obtain ⟨p, hp, hpaint⟩ := hprinted 2 lastText hlast
  refine ⟨r, hr, ?_, ?_⟩
  · rw [hscene, hstacked]
    exact hheight
  · rw [hscene, hp, hpaint.of_isStacked (by decide +kernel), htop]
    decide +kernel

end VectorPaint
