import PixelFlow.Picture
import PixelFlow.Picture.Bytes
import PixelFlow.Picture.Gif.Words

/-!
# Frames of GIF files

A frame is a rectangle of pixels on the screen, each a place in a palette. The places are
compressed, in pieces of up to 255 bytes with an empty one at the end, and the rows may be
interlaced.

* `Fault`: why a file cannot be read.
* `Frame.read`: a frame from its description on.
* **`Frame.raster`**: a frame on an empty screen.
-/

namespace PixelFlow.Picture.Gif

/-- Why a file cannot be read. -/
inductive Fault
  | endOfFile
  | memory
  /-- There is no frame. -/
  | noFrame
  | malformed (reason : String)
deriving DecidableEq, Repr

def Fault.message : Fault → String
  | endOfFile => "Format error decoding Gif: Unexpected End of File"
  | memory => "Memory limit exceeded"
  | noFrame => "The end of the image has been reached"
  | malformed reason => "Format error decoding Gif: " ++ reason

/-- Readers of a file. -/
abbrev Reader := ByteReader Fault

def byte : Reader Nat := ByteReader.byte .endOfFile

def half : Reader Nat := littleEndianValue <$> ByteReader.take .endOfFile 2

/-- Fail unless there is another byte. -/
def awaitByte : Reader Unit := do
  if (← get).isEmpty then throw .endOfFile

/-- The colors of a palette. -/
abbrev Palette := Array Pixel

/-- Read a palette if there is one; its size is in the lowest bits of what is said about it. -/
def palette? (flags : Nat) : Reader (Option Palette) := do
  if flags < 128 then return none
  let bytes ← ByteReader.take .endOfFile (3 * (2 <<< (flags % 8)))
  return some ((pieces 3 bytes).map Raster.pixelOfSamples).toArray

structure Screen where
  width : Nat
  height : Nat
  palette : Option Palette

/-! ## Compressed places -/

/-- A decoder with the number of bytes that are left of the piece that it reads. -/
structure Feed where
  decoder : Decoder
  left : Nat

/-- Append `room` bytes to those found, in at most `fuel` runs. A run that takes nothing and finds
nothing drops the rest of its piece; at the end of all pieces it shows that there are too few. -/
def filled (f : Feed) (room : Nat) (found : Array UInt8) : Nat → Reader (Feed × Array UInt8)
  | 0 => throw .endOfFile
  | fuel + 1 => do
    if room = 0 then return (f, found)
    awaitByte
    let bytes ← get
    if f.left = 0 ∧ bytes.headD 0 ≠ 0 then
      set bytes.tail
      filled { f with left := (bytes.headD 0).toNat } room found fuel
    else
      let piece := bytes.take f.left
      let some r := f.decoder.run? piece room | throw (.malformed "invalid code in LZW stream")
      if f.left = 0 ∧ r.out.isEmpty then throw (.malformed "image truncated")
      let idle := r.input.length = piece.length ∧ r.out.isEmpty
      let consumed := if idle then piece.length else piece.length - r.input.length
      set (bytes.drop consumed)
      filled ⟨r.decoder, f.left - consumed⟩ r.room (found ++ r.out) fuel

/-- Append bytes for each of some parts of a picture, none of which may be empty. -/
def filledParts (f : Feed) (found : Array UInt8) : List Nat → Reader (Array UInt8)
  | [] => return found
  | room :: rest => do
    if room = 0 then throw (.malformed "odd-sized buffer")
    let (f, found) ← filled f room found ((← get).length + room + 1)
    filledParts f found rest

/-! ## Frames -/

/-- A rectangle of pixels on the screen. -/
structure Frame where
  left : Nat
  top : Nat
  width : Nat
  height : Nat
  interlaced : Bool
  palette : Palette
  /-- The place of the transparent color in the palette. -/
  transparent : Option Nat
  /-- The places of the pixels in the palette. -/
  places : Array UInt8

namespace Frame

/-- The greatest number of bits of the words of one byte. -/
def greatestRootBits : Nat := 11

/-- Whether a frame takes whole lines of the screen, so that it needs no memory of its own. -/
def takesLines (s : Screen) (left top width height : Nat) : Bool :=
  left = 0 ∧ width = s.width ∧ top + height ≤ s.height

/-- Read a frame after its mark. -/
def read (s : Screen) (transparent : Option Nat) : Reader Frame := do
  let left ← half
  let top ← half
  let width ← half
  let height ← half
  let flags ← byte
  let own ← palette? flags
  let rootBits ← byte
  let left0 ← byte
  if rootBits = 0 ∨ greatestRootBits < rootBits then
    throw (.malformed "invalid minimal code size")
  let some palette := own <|> s.palette
    | throw (.malformed "no color table available for current frame")
  if !takesLines s left top width height ∧
      memoryLimit < 4 * s.width * s.height + 4 * width * height then
    throw .memory
  let interlaced := flags / 64 % 2 = 1
  let parts := if interlaced then List.replicate height width else [width * height]
  let places ← filledParts ⟨.initial rootBits, left0⟩ #[] parts
  return ⟨left, top, width, height, interlaced, palette, transparent, places⟩

/-- The place of a row in the order in which an interlaced frame of a height is stored: every
eighth row, then those half-way between, and so on. -/
def storedRow (height row : Nat) : Nat :=
  let count (first step : Nat) := (height - first + step - 1) / step
  if row % 8 = 0 then row / 8
  else if row % 8 = 4 then count 0 8 + row / 8
  else if row % 4 = 2 then count 0 8 + count 4 8 + row / 4
  else count 0 8 + count 4 8 + count 2 4 + row / 2

/-- The pixel in column `x` of row `y`; clear black if its color is not in the palette. -/
def pixel (f : Frame) (x y : Nat) : Pixel :=
  let row := if f.interlaced then storedRow f.height y else y
  let place := (f.places.getD (row * f.width + x) 0).toNat
  match f.palette[place]? with
  | some c => if f.transparent = some place then { c with alpha := 0 } else c
  | none => ⟨0, 0, 0, 0⟩

/-- The frame on an empty screen. -/
def raster (f : Frame) (s : Screen) : Raster :=
  .ofFn s.width s.height fun x y =>
    if f.left ≤ x ∧ x < f.left + f.width ∧ f.top ≤ y ∧ y < f.top + f.height then
      f.pixel (x - f.left) (y - f.top)
    else ⟨0, 0, 0, 0⟩

end Frame

end PixelFlow.Picture.Gif
