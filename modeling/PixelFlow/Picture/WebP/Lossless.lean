import PixelFlow.Picture.WebP.Reader

/-!
# Pixels without losses in WebP files

The data are a sequence of bits: a mark, the dimensions, transformations of the picture, and
pixels, which may refer to a cache of colors and are compressed with five prefix codes. They are
read up to the codes.

* `readLossless`: the start of the data.
* **`checkLosslessData`**: what is wrong with the data.
-/

namespace PixelFlow.Picture.WebP

/-- The byte with which the data begin. -/
def losslessMark : UInt8 := 0x2f

def badMark (found : UInt8) : Fault :=
  .malformed ("Invalid lossless signature: " ++ shownByte found)

def badVersion (version : Nat) : Fault :=
  .malformed s!"Invalid lossless version number: {version}"

/-- The start of pixels without losses: a mark, and the dimensions with a version. -/
def readLossless : Reader (Size × Bool) := do
  let found := (← take 1).headD 0
  if found ≠ losslessMark then throw (badMark found)
  let header ← number 4
  let version := header >>> 29
  if version ≠ 0 then throw (badVersion version)
  return (⟨side (header + 1), side ((header >>> 14) + 1)⟩, header.testBit 28)

/-- Readers of bits. -/
abbrev BitReader := StateT (List Bool) (Except Fault)

/-- The bits of bytes, each from its lowest bit on. -/
def bitsOf (bytes : List UInt8) : List Bool :=
  bytes.flatMap fun b => (List.range 8).map b.toNat.testBit

/-- What is wrong with data that end too early. -/
def corrupt : Fault := .malformed "Corrupt bitstream"

/-- A number of `n` bits, lowest first. -/
def bits (n : Nat) : BitReader Nat := do
  let rest ← get
  if rest.length < n then throw corrupt
  set (rest.drop n)
  return (rest.take n).foldr (fun b value => b.toNat + 2 * value) 0

/-- The bits of the shortest prefix code that can be wrong for other reasons than ending early. -/
def shortestCode : Nat := 17

/-- The beginning of an image: the size of a cache, and codes, which are looked for only. -/
def checkImage : BitReader Unit := do
  if (← bits 1) = 1 then
    let size ← bits 4
    if size = 0 ∨ 11 < size then throw (.malformed s!"Invalid color cache bits: {size}")
  if (← get).length < shortestCode then throw corrupt
  throw .unread

/-- The transformations, given those that have come already. Each but one kind holds an image. -/
def checkTransformations (seen : List Nat) : Nat → BitReader Unit
  | 0 => throw corrupt
  | fuel + 1 => do
    if (← bits 1) = 0 then checkImage
    else
      let kind ← bits 2
      if kind ∈ seen then throw (.malformed "Invalid transform")
      match kind with
      | 2 => checkTransformations (kind :: seen) fuel
      | 3 =>
        let _ ← bits 8
        checkImage
      | _ =>
        let _ ← bits 3
        checkImage

/-- Check the data from their start on. A side of the greatest length is taken for zero at first and
does not agree with itself then. -/
def checkLosslessData (s : Size) : Reader Unit := do
  let data := bitsOf (← get)
  let check : BitReader Unit := do
    let found := UInt8.ofNat (← bits 8)
    if found ≠ losslessMark then throw (badMark found)
    let width ← bits 14
    let height ← bits 14
    if s ≠ ⟨width + 1, height + 1⟩ then throw (.malformed "Inconsistent image sizes")
    let _ ← bits 1
    let version ← bits 3
    if version ≠ 0 then throw (badVersion version)
    checkTransformations [] (data.length + 1)
  check.run' data

end PixelFlow.Picture.WebP
