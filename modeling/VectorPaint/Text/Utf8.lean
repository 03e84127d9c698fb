/-
# Text as bytes

Files hold text in UTF-8.  Decoding refuses what is no UTF-8 and says which bytes are at fault:
a byte that starts no code point, a code point that is not continued as it must be, or one that
the end of the file cuts off.  The bytes at fault are those of the code point that were read
before the fault showed.

Line ends are made uniform behind decoding: a carriage return, with or without a line feed behind
it, becomes a line feed.
-/
import VectorPaint.Text.Quoted
import VectorPaint.Text.DecimalDigit

namespace VectorPaint.Text

/-! ## 1. What can be wrong -/

/-- Why bytes are not UTF-8. -/
inductive Utf8Cause where
  | start
  | continuation
  | ending
  deriving DecidableEq, Repr

/-- The bytes at fault: the first of them, its position, and how many there are. -/
structure Utf8Flaw where
  byte : UInt8
  position : Nat
  count : Nat
  cause : Utf8Cause
  deriving DecidableEq, Repr

/-- The reason of a flaw in words. -/
def Utf8Cause.message : Utf8Cause → Text
  | .start => "invalid start byte".toList
  | .continuation => "invalid continuation byte".toList
  | .ending => "unexpected end of data".toList

/-- The message that goes with a flaw. -/
def Utf8Flaw.message (f : Utf8Flaw) : Text :=
  "'utf-8' codec can't decode ".toList ++
    (if f.count = 1 then
      "byte 0x".toList ++ hexadecimal 2 f.byte.toNat ++ " in position ".toList ++ ofNat f.position
    else
      "bytes in position ".toList ++ ofNat f.position ++ '-' :: ofNat (f.position + f.count - 1)) ++
    ": ".toList ++ f.cause.message

/-! ## 2. Decoding -/

/-- What the first byte of a code point says: how many bytes follow, the bounds of the first of
them, and the first bits of the code point. -/
structure Utf8Lead where
  following : Nat
  low : Nat
  high : Nat
  bits : Nat
  deriving DecidableEq, Repr

/-- What a byte says as the first of a code point, unless it starts none. -/
def utf8Lead? (b : Nat) : Option Utf8Lead :=
  if b < 0x80 then some ⟨0, 0x80, 0xBF, b⟩
  else if b < 0xC2 then none
  else if b < 0xE0 then some ⟨1, 0x80, 0xBF, b - 0xC0⟩
  else if b < 0xF0 then
    some ⟨2, if b = 0xE0 then 0xA0 else 0x80, if b = 0xED then 0x9F else 0xBF, b - 0xE0⟩
  else if b < 0xF5 then
    some ⟨3, if b = 0xF0 then 0x90 else 0x80, if b = 0xF4 then 0x8F else 0xBF, b - 0xF0⟩
  else none

/-- The code point that bytes continue, and the bytes behind it; or the cause and the number of
bytes read.  Only the first continuation has bounds of its own. -/
def utf8Follow (low high bits seen : Nat) :
    Nat → List UInt8 → Except (Utf8Cause × Nat) (Nat × List UInt8)
  | 0, rest => .ok (bits, rest)
  | _ + 1, [] => .error (.ending, seen)
  | count + 1, b :: rest =>
    if low ≤ b.toNat ∧ b.toNat ≤ high then
      utf8Follow 0x80 0xBF (bits * 64 + b.toNat % 64) (seen + 1) count rest
    else .error (.continuation, seen)

/-- The bytes behind a code point are no more than those it was read from. -/
theorem length_utf8Follow_le {low high bits seen count : Nat} {bytes rest : List UInt8} {n : Nat}
    (h : utf8Follow low high bits seen count bytes = .ok (n, rest)) :
    rest.length ≤ bytes.length := by
  induction count generalizing low high bits seen bytes with
  | zero =>
    cases h
    exact Nat.le_refl _
  | succ count ih =>
    cases bytes with
    | nil => cases h
    | cons b bytes =>
      rw [utf8Follow] at h
      split at h
      · exact Nat.le_succ_of_le (ih h)
      · cases h

/-- The text of bytes that stand at a position, behind a text that is already decoded and is
given backwards. -/
def decodeUtf8From (decoded : Text) (position : Nat) : List UInt8 → Except Utf8Flaw Text
  | [] => .ok decoded.reverse
  | b :: rest =>
    match utf8Lead? b.toNat with
    | none => .error ⟨b, position, 1, .start⟩
    | some lead =>
      match _hFollow : utf8Follow lead.low lead.high lead.bits 1 lead.following rest with
      | .error (cause, count) => .error ⟨b, position, count, cause⟩
      | .ok (n, behind) =>
        decodeUtf8From (Char.ofNat n :: decoded) (position + 1 + lead.following) behind
termination_by bytes => bytes.length
decreasing_by
  have := length_utf8Follow_le _hFollow
  simp only [List.length_cons]
  omega

/-- The text of bytes. -/
def decodeUtf8 (bytes : List UInt8) : Except Utf8Flaw Text := decodeUtf8From [] 0 bytes

/-- A text with uniform line ends. -/
def uniformLines : Text → Text
  | '\r' :: '\n' :: rest => '\n' :: uniformLines rest
  | '\r' :: rest => '\n' :: uniformLines rest
  | c :: rest => c :: uniformLines rest
  | [] => []

/-- The number of bytes that a text takes. -/
def byteCount (t : Text) : Nat := t.foldl (fun n c => n + c.utf8Size) 0

end VectorPaint.Text
