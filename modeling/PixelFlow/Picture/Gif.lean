import PixelFlow.Color.Network
import PixelFlow.Picture.Gif.Frame
import Std.Data.HashSet

/-!
# GIF files

A file has a screen, perhaps with a palette, and a sequence of blocks: extensions and frames. The
picture is the first frame on an empty screen.

* `Gif.firstFrame`: the first frame among blocks.
* **`Gif.decode`**: the picture of a file, or the reason why there is none.
* `Gif.kept`: what is left of a raster that is written to a file.
-/

namespace PixelFlow.Picture.Gif

def readScreen : Reader Screen := do
  let mark ← ByteReader.take .endOfFile 6
  if mark ≠ "GIF87a".toUTF8.toList ∧ mark ≠ "GIF89a".toUTF8.toList then
    throw (.malformed "malformed GIF header")
  let width ← half
  let height ← half
  let flags ← byte
  let _ ← ByteReader.take .endOfFile 2
  return ⟨width, height, ← palette? flags⟩

/-- Skip the pieces of data up to an empty one, the first of which has the given size. -/
def skipPieces (size : Nat) : Nat → Reader Unit
  | 0 => throw .endOfFile
  | fuel + 1 => do
    if size = 0 then return
    let _ ← ByteReader.take .endOfFile size
    skipPieces (← byte) fuel

/-- The mark of extensions about the next frame. -/
def controlMark : Nat := 0xf9

/-- The marks of extensions: texts, comments, what belongs to an application, and the next frame. -/
def extensionMarks : List Nat := [0x01, 0xfe, 0xff, controlMark]

/-- Read an extension after its mark, given the transparent color that is known so far. -/
def readExtension (transparent : Option Nat) : Reader (Option Nat) := do
  let kind ← byte
  let size ← byte
  if kind ∉ extensionMarks then throw (.malformed "unknown extension block encountered")
  if kind ≠ controlMark then
    skipPieces size ((← get).length + 1)
    return transparent
  else
    if size ≠ 4 then throw (.malformed "control extension has wrong length")
    let flags ← byte
    let _ ← half
    let place ← byte
    skipPieces (← byte) ((← get).length + 1)
    return if flags % 2 = 1 then some place else none

/-- The first frame, for at most `fuel` blocks, given the mark of the first of them. A block begins
to count with the byte after its mark, but for an end after an extension. -/
def firstFrame (s : Screen) (afterExtension : Bool) (transparent : Option Nat) (mark : Nat) :
    Nat → Reader Frame
  | 0 => throw .endOfFile
  | fuel + 1 => do
    if !(afterExtension ∧ mark = 0x3b) then awaitByte
    match mark with
    | 0x2c => Frame.read s transparent
    | 0x21 =>
      let transparent ← readExtension transparent
      firstFrame s true transparent (← byte) fuel
    | 0x3b => throw .noFrame
    | _ => throw (.malformed "unknown block type encountered")

def decode (file : List UInt8) : Except String Picture :=
  let read : Reader Picture := do
    let s ← readScreen
    let mark ← byte
    if memoryLimit < 4 * s.width * s.height then throw .memory
    let f ← firstFrame s false none mark ((← get).length + 1)
    return (f.raster s).picture
  (read.run' file).mapError Fault.message

/-! ## Writing -/

/-- The color of the first pixel without any opacity, which all such pixels are given. -/
def clearColor? (r : Raster) : Option Pixel := r.pixels.find? (·.alpha = 0)

/-- A raster whose pixels are opaque or clear. -/
def opaqueOrClear (r : Raster) : Raster :=
  let clear := clearColor? r
  r.map fun p => if p.alpha = 0 then clear.getD p else { p with alpha := 255 }

/-- The greatest number of colors of a palette. -/
def greatestPalette : Nat := 256

/-- What is left of a raster that is written to a file: if a palette cannot hold all its colors,
each of them becomes a near one of a palette that is learned. -/
def kept (r : Raster) : Raster :=
  let whole := opaqueOrClear r
  if (Std.HashSet.ofArray whole.pixels).size ≤ greatestPalette then whole
  else
    let palette := LearnedPalette.ofPixels whole.pixels
    let clear := (clearColor? r).map palette.place
    whole.map fun p =>
      let place := palette.place p
      { palette.color place with alpha := if clear = some place then 0 else 255 }

end PixelFlow.Picture.Gif
