/-
# Distances and places

Where the view box has the size of the device, a path in small letters says the same as a path in
capitals.  A small move or straight line takes its numbers as distances from the pen, and the pen's
coordinates are added to them before they are carried across to the device.  The coordinates are
those of the device already, so in general they are scaled once more.  Here scaling is the identity
on whole numbers: the product with a side up to `2 ^ 12` of a number up to `2 ^ 40` is exact, so is
the quotient, and the half that rounding adds has its place behind it.

So a run of straight commands can be computed in whole numbers, one `Place` after the other
(`interpret_straight`).  Two paths whose commands lead through the same places draw the same lines,
and that is what is left when every distance is replaced by the place it leads to
(`distances_as_places`).
-/
import VectorPaint.Proofs.Numerals
import VectorPaint.Proofs.Continuity
import VectorPaint.Proofs.Detours
import VectorPaint.Proofs.Spellings

namespace VectorPaint

open Number
open Raster (IsWhole)

/-! ## 1. View boxes of the size of the device -/

/-- The largest coordinate of a place. -/
def farthestPlace : ℤ := 2 ^ 40

namespace Viewport

/-- A side of the device up to `2 ^ 12`, and a side of the view box that is just as long. -/
structure IsPixelSide (side : ℤ) (viewSide : Float) : Prop where
  pos : 0 < side
  le : side ≤ 2 ^ 12
  whole : IsWhole viewSide side

/-- A view box of the size of the device. -/
structure IsPixelSized (v : Viewport) : Prop where
  horizontal : IsPixelSide v.width v.viewWidth
  vertical : IsPixelSide v.height v.viewHeight

variable {side n : ℤ} {viewSide x : Float}

theorem isPixelSide_ofWhole (hpos : 0 < side) (hle : side ≤ 2 ^ 12)
    (h : ofWhole side = .ok viewSide) : IsPixelSide side viewSide := by
  obtain ⟨y, hy, hfinite, hvalue⟩ := ofWhole_side hpos (hle.trans (by decide))
  cases hy.symm.trans h
  exact ⟨hpos, hle, hfinite, hvalue⟩

/-- **A viewport without a view box has one of the size of the device.** -/
theorem isPixelSized_of_ofSize {width height : ℤ} {v : Viewport} (hw : 0 < width)
    (hw' : width ≤ 2 ^ 12) (hh : 0 < height) (hh' : height ≤ 2 ^ 12)
    (h : ofSize width height none none = .ok v) : v.IsPixelSized := by
  obtain ⟨x, hx, h⟩ := of_bind_ok h
  obtain ⟨y, hy, h⟩ := of_bind_ok h
  cases h
  exact ⟨isPixelSide_ofWhole hw hw' hx, isPixelSide_ofWhole hh hh' hy⟩

/-- **Whole numbers are carried across unchanged.** -/
theorem IsPixelSide.scale_eq (h : IsPixelSide side viewSide) (hx : IsWhole x n)
    (hn : |n| ≤ farthestPlace) : scale side viewSide (.real x) = .ok (.whole n) := by
  obtain ⟨s, hs, hfinite, hvalue⟩ := ofWhole_side h.pos (h.le.trans (by decide))
  have hproduct : |n * side| ≤ 2 ^ 53 := by
    rw [abs_mul, abs_of_pos h.pos]
    calc |n| * side ≤ farthestPlace * 2 ^ 12 := mul_le_mul hn h.le h.pos.le (by decide)
      _ ≤ 2 ^ 53 := by decide
  have hmul : IsWhole (x * s) (n * side) := hx.mul ⟨hfinite, hvalue⟩ hproduct
  have hside : (side : ℚ) ≠ 0 := by exact_mod_cast h.pos.ne'
  have hview : value viewSide ≠ 0 := by rwa [h.whole.eq]
  have hmoderate : |n| ≤ 2 ^ 53 := hn.trans (by decide)
  -- The quotient is the number again.
  have hquotient : IsWhole (x * s / viewSide) n := by
    have hnear := isNearest_div hmul.finite h.whole.finite hview
    rw [hmul.eq, h.whole.eq, Int.cast_mul, mul_div_cancel_right₀ _ hside] at hnear
    obtain ⟨hfinite', hvalue'⟩ := hnear.within (lt_overflow (by exact_mod_cast hmoderate))
    exact ⟨hfinite', hvalue'.trans (rounded_intCast hmoderate)⟩
  have hzero := not_beq_zero h.whole.finite hview isFinite_zero value_zero
  have hround := Coord.roundHalfUp_of_isWhole hquotient (hn.trans (by decide))
  exact bind_ok (Coord.real_mul hs) (bind_ok (Coord.divideBy_ok rfl hzero)
    (congrArg Except.ok hround))

end Viewport

namespace Path

open Curve (Segment)

/-! ## 2. Straight commands and the places they lead to -/

/-- A move, a straight line or a close, with whole numbers, relative or not. -/
inductive Straight where
  | move (relative : Bool) (x y : ℤ)
  | line (relative : Bool) (x y : ℤ)
  | horizontal (relative : Bool) (x : ℤ)
  | vertical (relative : Bool) (y : ℤ)
  | close (relative : Bool)

/-- Where a path stands, and where its last move went. -/
structure Place where
  x : ℤ
  y : ℤ
  startX : ℤ
  startY : ℤ
  deriving DecidableEq

namespace Place

/-- The place in front of the first command. -/
def origin : Place := ⟨0, 0, 0, 0⟩

/-- The place as a point of the device. -/
def point (p : Place) : Point := (.whole p.x, .whole p.y)

/-- The start as a point of the device. -/
def start (p : Place) : Point := (.whole p.startX, .whole p.startY)

/-- Both coordinates are up to `2 ^ 40`. -/
def IsModerate (p : Place) : Prop := |p.x| ≤ farthestPlace ∧ |p.y| ≤ farthestPlace

instance : DecidablePred IsModerate :=
  fun p => inferInstanceAs (Decidable (|p.x| ≤ farthestPlace ∧ |p.y| ≤ farthestPlace))

/-- The pen at a place, behind straight commands only. -/
def pen (p : Place) (previous : Text) : Pen :=
  ⟨.whole p.x, .whole p.y, .whole p.startX, .whole p.startY, .whole 0, .whole 0, previous⟩

end Place

/-- The coordinate that a number leads to from another. -/
def reached (relative : Bool) (base n : ℤ) : ℤ := if relative then base + n else n

namespace Straight

/-- The command as such. -/
def command : Straight → Command
  | .move _ _ _ => .move
  | .line _ _ _ => .line
  | .horizontal _ _ => .horizontal
  | .vertical _ _ => .vertical
  | .close _ => .close

/-- Whether the letter is a small one. -/
def relative : Straight → Bool
  | .move r _ _ | .line r _ _ | .horizontal r _ | .vertical r _ | .close r => r

/-- The command's numbers. -/
def numbers : Straight → List ℤ
  | .move _ x y | .line _ x y => [x, y]
  | .horizontal _ x => [x]
  | .vertical _ y => [y]
  | .close _ => []

/-- The command's letter. -/
def letter (c : Straight) : Text :=
  if c.relative then [c.command.letter.toLower] else [c.command.letter]

/-- The place behind a command. -/
def next (p : Place) : Straight → Place
  | .move r x y =>
    let x := reached r p.x x
    let y := reached r p.y y
    ⟨x, y, x, y⟩
  | .line r x y => { p with x := reached r p.x x, y := reached r p.y y }
  | .horizontal r x => { p with x := reached r p.x x }
  | .vertical r y => { p with y := reached r p.y y }
  | .close _ => { p with x := p.startX, y := p.startY }

/-- The line that a command draws, unless it is a move. -/
def strokes (p : Place) : Straight → List Segment
  | .move _ _ _ => []
  | c => [⟨p.point, (c.next p).point⟩]

/-- The command with the place it leads to instead of distances.  A close has no distances. -/
def absolute (p : Place) : Straight → Straight
  | .move r x y => .move false (reached r p.x x) (reached r p.y y)
  | .line r x y => .line false (reached r p.x x) (reached r p.y y)
  | .horizontal r x => .horizontal false (reached r p.x x)
  | .vertical r y => .vertical false (reached r p.y y)
  | .close r => .close r

end Straight

/-- The places that commands lead through, the first one included. -/
def places (p : Place) : List Straight → List Place
  | [] => [p]
  | c :: rest => p :: places (c.next p) rest

/-- The lines that commands draw. -/
def strokes (p : Place) : List Straight → List Segment
  | [] => []
  | c :: rest => c.strokes p ++ strokes (c.next p) rest

/-- Commands with every distance replaced by the place that it leads to. -/
def absolute (p : Place) : List Straight → List Straight
  | [] => []
  | c :: rest => c.absolute p :: absolute (c.next p) rest

/-- The place behind the last command. -/
def last (p : Place) (items : List Straight) : Place := items.foldl Straight.next p

/-- The end of a run through commands from a place. -/
def progress (taken : ℕ) (p : Place) (previous : Text) : List Straight → Progress
  | [] => ⟨p.pen previous, taken⟩
  | c :: rest => progress (taken + 1 + c.command.arity) (c.next p) [c.command.letter] rest

variable {p : Place} {c : Straight} {items : List Straight}

/-! ## 3. The same commands without distances -/

namespace Straight

@[simp] theorem next_absolute (p : Place) (c : Straight) : (c.absolute p).next p = c.next p := by
  cases c <;> rfl

@[simp] theorem command_absolute (p : Place) (c : Straight) :
    (c.absolute p).command = c.command := by
  cases c <;> rfl

@[simp] theorem strokes_absolute (p : Place) (c : Straight) :
    (c.absolute p).strokes p = c.strokes p := by
  cases c <;> rfl

end Straight

theorem places_absolute (p : Place) (items : List Straight) :
    places p (absolute p items) = places p items := by
  induction items generalizing p with
  | nil => rfl
  | cons c rest ih => rw [absolute, places, places, Straight.next_absolute, ih]

theorem strokes_absolute (p : Place) (items : List Straight) :
    strokes p (absolute p items) = strokes p items := by
  induction items generalizing p with
  | nil => rfl
  | cons c rest ih =>
    rw [absolute, strokes, strokes, Straight.next_absolute, Straight.strokes_absolute, ih]

theorem progress_absolute (taken : ℕ) (p : Place) (previous : Text) (items : List Straight) :
    progress taken p previous (absolute p items) = progress taken p previous items := by
  induction items generalizing taken p previous with
  | nil => rfl
  | cons c rest ih =>
    rw [absolute, progress, progress, Straight.next_absolute, Straight.command_absolute, ih]

/-- The pen ends at the last place. -/
theorem pen_progress (taken : ℕ) (p : Place) (previous : Text) (items : List Straight) :
    ∃ name, (progress taken p previous items).pen = (last p items).pen name := by
  induction items generalizing taken p previous with
  | nil => exact ⟨previous, rfl⟩
  | cons c rest ih => exact ih _ _ _

/-! ## 4. Tokens -/

/-- A token stands for a whole number: it writes the number in digits, or it is read as the number
for another reason, such as a point with zeros behind it. -/
def StandsFor (token : Text) (n : ℤ) : Prop := Writes token n ∨ IsWhole (read token) n

theorem StandsFor.isWhole_read {token : Text} {n : ℤ} (h : StandsFor token n)
    (hn : |n| ≤ 2 ^ 53) : IsWhole (read token) n :=
  h.elim (fun hwrites => hwrites.isWhole_read hn) id

/-- Tokens spell commands: each is its letter, and behind it its numbers. -/
inductive Spells : List Straight → List Text → Prop
  | nil : Spells [] []
  | cons {c : Straight} {items : List Straight} {args rest : List Text}
    (hargs : List.Forall₂ StandsFor args c.numbers) (hrest : Spells items rest) :
    Spells (c :: items) (c.letter :: (args ++ rest))

namespace Straight

theorem letter_mem_spellings (c : Straight) : c.letter ∈ c.command.spellings := by
  unfold letter
  split
  · exact List.mem_cons_of_mem _ List.mem_cons_self
  · exact List.mem_cons_self

theorem isRelative_letter (c : Straight) : isRelative c.letter = c.relative := by
  have hcase : ∀ command : Command, isRelative [command.letter.toLower] = true ∧
      isRelative [command.letter] = false := by
    intro command
    cases command <;> decide
  unfold letter
  split
  · rename_i h
    rw [h, (hcase c.command).1]
  · rename_i h
    rw [Bool.eq_false_iff.mpr h, (hcase c.command).2]

theorem length_numbers (c : Straight) : c.numbers.length = c.command.arity := by
  cases c <;> rfl

end Straight

/-! ## 5. Runs -/

variable {v : Viewport} {relative : Bool} {base n : ℤ} {side : ℤ} {viewSide : Float}
  {token : Text}

/-- A number that leads from one moderate coordinate to another is moderate. -/
theorem abs_le_of_reached (hbase : |base| ≤ farthestPlace)
    (hreached : |reached relative base n| ≤ farthestPlace) : |n| ≤ 2 ^ 53 := by
  unfold reached farthestPlace at *
  rw [abs_le] at *
  split at hreached <;> constructor <;> omega

/-- **A number is the coordinate it leads to,** as a float. -/
theorem offset_eq (hn : StandsFor token n) (hbase : |base| ≤ farthestPlace)
    (hreached : |reached relative base n| ≤ farthestPlace) :
    ∃ x, offset relative (read token) (.whole base) = .ok (.real x) ∧
      IsWhole x (reached relative base n) := by
  have hread : IsWhole (read token) n := hn.isWhole_read (abs_le_of_reached hbase hreached)
  cases relative with
  | false => exact ⟨_, rfl, hread⟩
  | true =>
    obtain ⟨y, hy, hfinite, hvalue⟩ := Viewport.ofWhole_of_moderate
      (hbase.trans (by decide : farthestPlace ≤ 2 ^ 53))
    have hsum : IsWhole (read token + y) (n + base) := by
      refine hread.add ⟨hfinite, hvalue⟩ ?_
      rw [add_comm]
      exact hreached.trans (by decide)
    rw [add_comm n base] at hsum
    exact ⟨_, bind_ok rfl (bind_ok hy rfl), hsum⟩

/-- The number's coordinate on the device. -/
theorem scale_offset (h : Viewport.IsPixelSide side viewSide) (hn : StandsFor token n)
    (hbase : |base| ≤ farthestPlace) (hreached : |reached relative base n| ≤ farthestPlace) :
    ∃ a, offset relative (read token) (.whole base) = .ok a ∧
      Viewport.scale side viewSide a = .ok (.whole (reached relative base n)) := by
  obtain ⟨x, hoffset, hx⟩ := offset_eq hn hbase hreached
  exact ⟨_, hoffset, h.scale_eq hx hreached⟩

/-- The device point of a command's two numbers. -/
theorem target_eq (hv : v.IsPixelSized) {args : List Text} {x y : ℤ} (rest : List Text)
    (hargs : List.Forall₂ StandsFor args [x, y]) (hp : p.IsModerate)
    (hx : |reached relative p.x x| ≤ farthestPlace) (hy : |reached relative p.y y| ≤ farthestPlace)
    (previous : Text) :
    target v (p.pen previous) relative (argument (args ++ rest) 0) (argument (args ++ rest) 1) =
      .ok (.whole (reached relative p.x x), .whole (reached relative p.y y)) := by
  obtain ⟨a, _, ha, hrest, rfl⟩ := List.forall₂_cons_right_iff.mp hargs
  obtain ⟨b, _, hb, -, rfl⟩ := List.forall₂_cons_right_iff.mp hrest
  obtain ⟨x', hoffset, hscale⟩ := scale_offset hv.horizontal ha hp.1 hx
  obtain ⟨y', hoffset', hscale'⟩ := scale_offset hv.vertical hb hp.2 hy
  exact bind_ok hoffset (bind_ok hoffset' (bind_ok hscale (bind_ok hscale' rfl)))

/-- **A straight command draws to the place it leads to.** -/
theorem Straight.draw_eq (hv : v.IsPixelSized) (steps : ℤ) (c : Straight) {args : List Text}
    (rest : List Text) (hargs : List.Forall₂ StandsFor args c.numbers) (hp : p.IsModerate)
    (hnext : (c.next p).IsModerate) (previous : Text) :
    c.command.draw v steps (p.pen previous) c.relative (argument (args ++ rest)) =
      .ok (c.strokes p, (c.next p).pen previous) := by
  cases c with
  | move r x y => exact bind_ok (target_eq hv rest hargs hp hnext.1 hnext.2 previous) rfl
  | line r x y => exact bind_ok (target_eq hv rest hargs hp hnext.1 hnext.2 previous) rfl
  | horizontal r x =>
    obtain ⟨a, _, ha, hrest, rfl⟩ := List.forall₂_cons_right_iff.mp hargs
    obtain ⟨x', hx, hx'⟩ := scale_offset hv.horizontal ha hp.1 hnext.1
    exact bind_ok hx (bind_ok hx' rfl)
  | vertical r y =>
    obtain ⟨a, _, ha, hrest, rfl⟩ := List.forall₂_cons_right_iff.mp hargs
    obtain ⟨y', hy, hy'⟩ := scale_offset hv.vertical ha hp.2 hnext.2
    exact bind_ok hy (bind_ok hy' rfl)
  | close r => rfl

theorem visible_drawn (segments : List Segment) :
    visible (segments.map .drawn) = segments.map .drawn := by
  induction segments with
  | nil => rfl
  | cons segment rest ih => exact congrArg (Event.drawn segment :: ·) ih

/-- The first place is one of the places. -/
theorem mem_places (p : Place) (items : List Straight) : p ∈ places p items := by
  cases items <;> exact List.mem_cons_self

/-- **A run through straight commands goes from place to place.**  The induction is on the
commands; the pen stays a pen of whole numbers at the place that they have led to so far. -/
theorem interpret_straight (hv : v.IsPixelSized) (steps : ℤ) {tokens : List Text}
    (h : Spells items tokens) (taken : ℕ) (p : Place) (previous : Text)
    (hplaces : ∀ q ∈ places p items, q.IsModerate) :
    let run := interpret v steps taken (p.pen previous) tokens
    visible run.entries = (strokes p items).map .drawn ∧
      run.outcome = .ok (progress taken p previous items) := by
  induction h generalizing taken p previous with
  | nil =>
    rw [interpret_nil]
    exact ⟨rfl, rfl⟩
  | @cons c items args rest hargs hrest ih =>
    have hp := hplaces p (mem_places p _)
    have hplaces' : ∀ q ∈ places (c.next p) items, q.IsModerate :=
      fun q hq => hplaces q (List.mem_cons_of_mem _ hq)
    have hnext := hplaces' _ (mem_places _ items)
    have hupper := upper_of_mem_spellings c.letter_mem_spellings
    have hname : Command.ofName? c.letter.upper = some c.command := by
      rw [hupper, Command.ofName?_singleton]
    have hdraw := c.draw_eq hv steps rest hargs hp hnext previous
    have hdrop : (args ++ rest).drop c.command.arity = rest :=
      List.drop_left' (hargs.length_eq.trans c.length_numbers)
    obtain ⟨hentries, houtcome⟩ := ih (taken + 1 + c.command.arity) (c.next p)
      [c.command.letter] hplaces'
    rw [interpret_command hname, c.isRelative_letter, Command.run_of_draw hdraw, Journal.bind_ok,
      hdrop, hupper]
    refine ⟨?_, houtcome⟩
    dsimp only
    rw [visible_append, visible_append, visible_drawn, strokes, List.map_append, ← hentries]
    exact congrArg (· ++ _) (List.append_nil _)

/-! ## 6. Written commands -/

end Path

namespace Text

variable {separates : Char → Bool} {separator : Char}

theorem words_cons (h : separates separator = true) (rest : Text) :
    words separates (separator :: rest) = words separates rest := by
  cases rest with
  | nil => simp [words, h]
  | cons c rest => rw [words, if_pos h]

/-- A word ends where something separates. -/
theorem words_append (h : separates separator = true) {t : Text} (hne : t ≠ [])
    (ht : ∀ c ∈ t, separates c = false) (rest : Text) :
    words separates (t ++ separator :: rest) = t :: words separates rest := by
  induction t with
  | nil => exact absurd rfl hne
  | cons c t ih =>
    obtain ⟨hc, ht⟩ := List.forall_mem_cons.mp ht
    cases t with
    | nil =>
      rw [List.singleton_append, words, if_neg (by simp [hc]), if_pos h, words_cons h]
    | cons d t =>
      have hd := ht d List.mem_cons_self
      have hword := ih (List.cons_ne_nil d t) ht
      rw [List.cons_append] at hword
      rw [List.cons_append, List.cons_append, words, if_neg (by simp [hc]), if_neg (by simp [hd]),
        hword]

end Text

namespace Path

/-- The tokens of commands, with numbers written as they usually are. -/
def written (items : List Straight) : List Text :=
  items.flatMap fun c => c.letter :: c.numbers.map Text.ofInt

theorem spells_written (items : List Straight) : Spells items (written items) := by
  induction items with
  | nil => exact .nil
  | cons c rest ih =>
    refine .cons ?_ ih
    rw [List.forall₂_map_left_iff]
    exact List.forall₂_same.mpr fun n _ => .inl (writes_ofInt n)

/-- A token that can stand in a text. -/
def IsToken (token : Text) : Prop := token ≠ [] ∧ ∀ c ∈ token, separates c = false

theorem separates_of_isDigit {c : Char} (h : Text.isDigit c = true) : separates c = false := by
  have hcomma : c ≠ ',' := by
    rintro rfl
    revert h
    decide
  rw [separates, Text.isBlank_of_isDigit h, Bool.or_false, beq_eq_false_iff_ne]
  exact hcomma

theorem isToken_of_mem_spellings {command : Command} (h : token ∈ command.spellings) :
    IsToken token := by
  rcases List.mem_pair.mp h with rfl | rfl <;>
    refine ⟨List.cons_ne_nil _ _, List.forall_mem_singleton.mpr ?_⟩ <;>
    cases command <;> decide

theorem isToken_of_writes (h : Writes token n) : IsToken token := by
  cases h with
  | plain hne hdigits => exact ⟨hne, fun c hc => separates_of_isDigit (hdigits c hc)⟩
  | plus _ hdigits | minus _ hdigits =>
    refine ⟨List.cons_ne_nil _ _, ?_⟩
    rw [List.forall_mem_cons]
    exact ⟨by decide, fun c hc => separates_of_isDigit (hdigits c hc)⟩

theorem isToken_of_mem_written (h : token ∈ written items) : IsToken token := by
  obtain ⟨c, -, hc⟩ := List.mem_flatMap.mp h
  rcases List.mem_cons.mp hc with rfl | hc
  · exact isToken_of_mem_spellings c.letter_mem_spellings
  · obtain ⟨n, -, rfl⟩ := List.mem_map.mp hc
    exact isToken_of_writes (writes_ofInt n)

theorem tokens_flatMap {list : List Text} (h : ∀ token ∈ list, IsToken token) :
    tokens (list.flatMap (· ++ [' '])) = list := by
  induction list with
  | nil => rfl
  | cons token rest ih =>
    obtain ⟨⟨hne, htoken⟩, hrest⟩ := List.forall_mem_cons.mp h
    rw [List.flatMap_cons, List.append_assoc, List.singleton_append, tokens,
      Text.words_append (by decide) hne htoken]
    exact congrArg (token :: ·) (ih hrest)

/-- **All straight commands with whole numbers can be written.** -/
theorem exists_data (items : List Straight) : ∃ data, Spells items (tokens data) := by
  refine ⟨(written items).flatMap (· ++ [' ']), ?_⟩
  rw [tokens_flatMap fun _ => isToken_of_mem_written]
  exact spells_written items

/-! ## 7. Distances replaced by places -/

/-- **A path in small letters draws what it draws with its distances replaced by places.**  Let
the view box have the size of the device, which is at most `2 ^ 12` in each direction.  Let the data
of a path spell moves, straight lines and closes with whole numbers, in small letters and capitals,
and let the places that these lead to be no further than `2 ^ 40`.  Then the run draws the lines
from place to place and nothing else, and comes to an end with the pen at the last place and its
start at the start of that place.

There is data that spells the same commands with all distances replaced by the places that they lead
to, and whatever data does so, its run draws the same lines and comes to the same end. -/
theorem distances_as_places (v : Viewport) (hv : v.IsPixelSized) (steps : ℤ)
    (items : List Straight) (hplaces : ∀ p ∈ places .origin items, p.IsModerate) (data : Text)
    (h : Spells items (tokens data)) :
    let first := run v steps data
    visible first.entries = (strokes .origin items).map .drawn ∧
      (∃ p, first.outcome = .ok p ∧ p.pen.position = (last .origin items).point ∧
        p.pen.start = (last .origin items).start) ∧
      (∃ data', Spells (absolute .origin items) (tokens data')) ∧
      ∀ data', Spells (absolute .origin items) (tokens data') →
        visible (run v steps data').entries = visible first.entries ∧
          (run v steps data').outcome = first.outcome := by
  intro first
  obtain ⟨hlines, hend⟩ := interpret_straight hv steps h 0 .origin [] hplaces
  refine ⟨hlines, ?_, exists_data _, fun data' h' => ?_⟩
  · obtain ⟨name, hpen⟩ := pen_progress 0 .origin [] items
    refine ⟨_, hend, ?_⟩
    rw [hpen]
    exact ⟨rfl, rfl⟩
  · obtain ⟨hlines', hend'⟩ := interpret_straight hv steps h' 0 .origin []
      (by rwa [places_absolute])
    rw [strokes_absolute] at hlines'
    rw [progress_absolute] at hend'
    exact ⟨hlines'.trans hlines.symm, hend'.trans hend.symm⟩

/-- A triangle with most of its numbers as distances, and a line back to where it began. -/
def triangle : List Straight :=
  [.move true 5 5, .line true 5 0, .horizontal true (-3), .vertical false 7, .close true,
    .line false 1 1]

/-- The triangle in small letters and in capitals. -/
theorem distances_as_places_triangle :
    let v : Viewport := ⟨160, 120, 160.0, 120.0⟩
    let small : Text := "m 5,5 l 5 0 h -3 V 7 z L 1 1".toList
    let capitals : Text := "M 5,5 L 10 5 H 7 V 7 z L 1 1".toList
    v.IsPixelSized ∧ (∀ p ∈ places .origin triangle, p.IsModerate) ∧
      Spells triangle (tokens small) ∧ Spells (absolute .origin triangle) (tokens capitals) ∧
      visible (run v 2 capitals).entries = visible (run v 2 small).entries ∧
      (run v 2 capitals).outcome = (run v 2 small).outcome := by
  intro v small capitals
  have hsize : Viewport.ofSize 160 120 none none = .ok v := by rfl
  have hv : v.IsPixelSized := Viewport.isPixelSized_of_ofSize (by decide) (by decide) (by decide)
    (by decide) hsize
  have hplaces : ∀ p ∈ places .origin triangle, p.IsModerate := by decide
  have hsmall : tokens small = written triangle := by decide +kernel
  have hcapitals : tokens capitals = written (absolute .origin triangle) := by decide +kernel
  have h : Spells triangle (tokens small) := hsmall ▸ spells_written _
  have h' : Spells (absolute .origin triangle) (tokens capitals) := hcapitals ▸ spells_written _
  obtain ⟨-, -, -, hall⟩ := distances_as_places v hv 2 triangle hplaces small h
  exact ⟨hv, hplaces, h, h', hall capitals h'⟩

end Path

end VectorPaint
