/-
# Pictures as files

A picture is written as a PNG file with eight bits for each of three colors.  The image data is
stored in blocks that are not compressed, with no filter on any row.
-/
import VectorPaint.Canvas.Picture

namespace VectorPaint.Png

/-! ## 1. Numbers and checks -/

/-- A number in four bytes, the most significant first. -/
def word (n : Nat) : List UInt8 :=
  [(n / 0x1000000 % 256).toUInt8, (n / 0x10000 % 256).toUInt8, (n / 0x100 % 256).toUInt8,
    (n % 256).toUInt8]

/-- A number in two bytes, the least significant first. -/
def halfWord (n : Nat) : List UInt8 := [(n % 256).toUInt8, (n / 256 % 256).toUInt8]

/-- One bit of a cyclic check. -/
def checkBit (r : UInt32) : UInt32 :=
  if r &&& 1 == 1 then (r >>> 1) ^^^ 0xEDB88320 else r >>> 1

/-- One byte of a cyclic check. -/
def checkByte (r : UInt32) (b : UInt8) : UInt32 :=
  (List.range 8).foldl (fun r _ => checkBit r) (r ^^^ b.toUInt32)

/-- The cyclic check of bytes. -/
def cyclicCheck (bytes : List UInt8) : Nat :=
  (bytes.foldl checkByte 0xFFFFFFFF ^^^ 0xFFFFFFFF).toNat

/-- The check of bytes by two sums. -/
def sumCheck (bytes : List UInt8) : Nat :=
  let sums := bytes.foldl (fun (s : Nat × Nat) b =>
    let a := (s.1 + b.toNat) % 65521
    (a, (s.2 + a) % 65521)) (1, 0)
  sums.2 * 65536 + sums.1

/-! ## 2. Blocks and chunks -/

/-- The most bytes in a stored block. -/
def blockSize : Nat := 65535

/-- Bytes as stored blocks, of which the last is marked.  There is one block at least. -/
def storedBlocks (bytes : List UInt8) : List UInt8 :=
  if blockSize < bytes.length then
    0 :: halfWord blockSize ++ halfWord (65535 - blockSize) ++ bytes.take blockSize ++
      storedBlocks (bytes.drop blockSize)
  else 1 :: halfWord bytes.length ++ halfWord (65535 - bytes.length) ++ bytes
termination_by bytes.length
decreasing_by
  simp only [List.length_drop, blockSize] at *
  omega

/-- Bytes as a stream of stored blocks. -/
def stream (bytes : List UInt8) : List UInt8 :=
  [0x78, 0x01] ++ storedBlocks bytes ++ word (sumCheck bytes)

/-- A chunk of a file, with its length in front and its check behind. -/
def chunk (kind : Text) (data : List UInt8) : List UInt8 :=
  let body := kind.map (fun c => c.toNat.toUInt8) ++ data
  word data.length ++ body ++ word (cyclicCheck body)

/-! ## 3. Files -/

/-- What every file starts with. -/
def signature : List UInt8 := [0x89, 0x50, 0x4E, 0x47, 0x0D, 0x0A, 0x1A, 0x0A]

/-- The size of a picture and the kind of its colors. -/
def header (p : Picture) : List UInt8 := word p.width ++ word p.height ++ [8, 2, 0, 0, 0]

/-- The bytes of one row, with the mark of no filter in front. -/
def row (p : Picture) (y : Nat) : List UInt8 :=
  0 :: (p.pixels.extract (y * p.width) ((y + 1) * p.width)).toList.flatMap fun c =>
    [c.red.toNat.toUInt8, c.green.toNat.toUInt8, c.blue.toNat.toUInt8]

/-- The most bytes of rows that are put into a file. -/
def mostBytes : Nat := 0x40000000

/-- Whether a file can hold the rows of a picture. -/
def canHold (p : Picture) : Bool :=
  p.width ≤ mostBytes && p.height * (1 + 3 * p.width) ≤ mostBytes

/-- The file of a picture. -/
def encode (p : Picture) : List UInt8 :=
  signature ++ chunk ['I', 'H', 'D', 'R'] (header p) ++
    chunk ['I', 'D', 'A', 'T'] (stream ((List.range p.height).flatMap (row p))) ++
    chunk ['I', 'E', 'N', 'D'] []

end VectorPaint.Png
