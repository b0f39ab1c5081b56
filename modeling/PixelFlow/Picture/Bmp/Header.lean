import PixelFlow.Picture
import PixelFlow.Picture.Bytes

/-!
# Headers of BMP files

A file begins with a mark and the place of its pixels; a description of the picture follows, which
comes in six sizes. The smallest one has its own form, the others only add to each other.

* `Fault`: why a file cannot be read.
* `Mask`: the bits of a number that make up a channel.
* `Layout`: how pixels are stored.
* **`Header.read`**: the header of a file.
-/

namespace PixelFlow.Picture.Bmp

/-- Why a file cannot be read. -/
inductive Fault
  | endOfFile
  /-- The file ends within a list of pixels. -/
  | cutShort
  | memory
  /-- Something is wrong with the format. -/
  | malformed (reason : String)
  /-- The format has something that is not supported. -/
  | unsupported (feature : String)
deriving DecidableEq, Repr

namespace Fault

def message : Fault → String
  | endOfFile => "failed to fill whole buffer"
  | cutShort => "unexpected end of file"
  | memory => "Memory limit exceeded"
  | malformed reason => "Format error decoding Bmp: " ++ reason
  | unsupported feature => "The decoder for Bmp does not support the format features " ++ feature

/-- A number of bits that pixels of a kind cannot have. -/
def pixelSize (kind : String) (bits : Nat) : Fault :=
  .malformed s!"Invalid channel bit count for {kind}: {bits}"

end Fault

/-- Readers of a file. -/
abbrev Reader := ByteReader Fault

namespace Reader

/-- The next number of the given width. -/
def number (width : Nat) : Reader Nat := littleEndianValue <$> ByteReader.take .endOfFile width

def half : Reader Nat := number 2

def word : Reader Nat := number 4

def signedWord : Reader Int := littleEndianInt <$> ByteReader.take .endOfFile 4

end Reader

/-! ## Masks -/

/-- Bits of a number that stand next to each other; a mask without bits stands for no channel. -/
structure Mask where
  shift : Nat
  length : Nat
deriving DecidableEq, Repr

namespace Mask

/-- The mask of the bits that are set in a number of at most `bits` bits, of which the highest
eight count. -/
def ofNumber (bits number : Nat) : Except Fault Mask :=
  let places := (List.range 32).filter number.testBit
  let shift := places.headD 0
  let length := places.length
  if places ≠ (List.range length).map (shift + ·) then
    throw (.malformed "Non-contiguous bitfield mask")
  else if bits < shift + length then throw (.malformed "Invalid bitfield mask")
  else return ⟨shift + (length - 8), min length 8⟩

/-- The channel in a number, stretched to eight bits. -/
def channel (m : Mask) (number : Nat) : UInt8 :=
  let greatest := (1 <<< m.length) - 1
  let value := (number >>> m.shift) % (1 <<< m.length)
  .ofNat ((2 * 255 * value + greatest) / (2 * greatest))

end Mask

/-- The masks of the channels of a pixel. -/
structure Masks where
  red : Mask
  green : Mask
  blue : Mask
  alpha : Mask
deriving DecidableEq, Repr

namespace Masks

/-- Three channels of equal length, blue lowest. -/
def even (length : Nat) : Masks := ⟨⟨2 * length, length⟩, ⟨length, length⟩, ⟨0, length⟩, ⟨0, 0⟩⟩

/-- The pixel that a number stands for; it is opaque if there is no opacity. -/
def pixel (m : Masks) (number : Nat) : Pixel :=
  ⟨m.red.channel number, m.green.channel number, m.blue.channel number,
    if m.alpha.length = 0 then 255 else m.alpha.channel number⟩

/-- Read the masks of pixels of `bits` bits, with one for opacity or not. -/
def read (bits : Nat) (withAlpha : Bool) : Reader Masks := do
  let red ← .word
  let green ← .word
  let blue ← .word
  let alpha ← if withAlpha then .word else pure 0
  let mask (n : Nat) : Reader Mask := liftM (Mask.ofNumber bits n)
  let masks : Masks := ⟨← mask red, ← mask green, ← mask blue, ← mask alpha⟩
  if red = 0 ∨ green = 0 ∨ blue = 0 then
    throw (.malformed s!"Missing {bits}-bit bitfield mask")
  return masks

end Masks

/-! ## Layouts -/

/-- How pixels are stored. -/
inductive Layout
  /-- As places in a palette, in lines. -/
  | indexed (bits : Nat)
  /-- As places in a palette, in runs of equal ones. -/
  | runs (bits : Nat)
  /-- As numbers with a mask for each channel, in lines. -/
  | direct (bits : Nat) (masks : Masks)
deriving DecidableEq, Repr

/-- The bits of a place in the palette, if there is one. -/
def Layout.paletteBits? : Layout → Option Nat
  | indexed bits | runs bits => some bits
  | direct _ _ => none

/-- The sizes of descriptions. -/
inductive Description
  /-- Twelve bytes. -/
  | core
  /-- Forty bytes, or more if the masks for three or four channels are part of it. -/
  | info
  | infoMasks3
  | infoMasks4
  /-- All that and the meaning of the colors. -/
  | meaning4
  | meaning5
deriving DecidableEq, Repr

namespace Description

def size : Description → Nat
  | core => 12
  | info => 40
  | infoMasks3 => 52
  | infoMasks4 => 56
  | meaning4 => 108
  | meaning5 => 124

def ofSize? (n : Nat) : Option Description :=
  [core, info, infoMasks3, infoMasks4, meaning4, meaning5].find? fun d => d.size = n

/-- Whether masks come with one for opacity. -/
def hasAlpha (d : Description) : Bool := d = infoMasks4 ∨ d = meaning4 ∨ d = meaning5

/-- The bytes of a color in the palette. -/
def colorSize (d : Description) : Nat := if d = core then 3 else 4

end Description

structure Header where
  width : Nat
  height : Nat
  /-- Whether the highest line is stored first. -/
  fromTop : Bool
  layout : Layout
  /-- The colors of the palette in order. -/
  palette : List Pixel
  /-- The place of the pixels in the file. -/
  dataOffset : Nat
deriving DecidableEq, Repr

/-- The dimensions and the layout in a description, and the number of colors in the palette unless
it is the greatest one. -/
structure Shape where
  width : Nat
  height : Nat
  fromTop : Bool
  layout : Layout
  colors : Nat

/-- What dimensions that leave nothing to show are called. -/
def checkDimensions (width height : Nat) : Reader Unit := do
  if width = 0 ∨ height = 0 then
    throw (.unsupported s!"Image dimensions ({width}x{height} w/3 channels) are too large")

def checkPlanes : Reader Unit := do
  if (← .half) ≠ 1 then throw (.malformed "More than one plane")

/-- The smallest description after its size. -/
def readCore : Reader Shape := do
  let width ← .half
  let height ← .half
  checkDimensions width height
  checkPlanes
  let bits ← .half
  let layout : Layout ←
    if bits ∈ [1, 4, 8] then pure (.indexed bits)
    else if bits = 24 then pure (.direct 24 (.even 8))
    else throw (.pixelSize "RGB" bits)
  return ⟨width, height, false, layout, 0⟩

/-- The layout by the number of the compression and the bits of a pixel; masks are read later. -/
def layoutOf (compression bits : Nat) : Except Fault Layout :=
  match compression with
  | 0 =>
    if bits ∈ [1, 2, 4, 8] then return .indexed bits
    else if bits = 16 then return .direct 16 (.even 5)
    else if bits = 24 ∨ bits = 32 then return .direct bits (.even 8)
    else throw (.pixelSize "RGB" bits)
  | 1 => if bits = 8 then return .runs 8 else throw (.pixelSize "RLE8" bits)
  | 2 => if bits = 4 then return .runs 4 else throw (.pixelSize "RLE4" bits)
  | 3 =>
    if bits = 16 ∨ bits = 32 then return .direct bits (.even 8)
    else throw (.pixelSize "bitfields" bits)
  | 4 => throw (.unsupported "JPEG compression")
  | 5 => throw (.unsupported "PNG compression")
  | 11 | 12 | 13 => throw (.unsupported "CMYK format")
  | n => throw (.malformed s!"Unknown image compression type {n}")

/-- The greatest width and height. -/
def greatestSide : Nat := 65535

/-- The other descriptions after their size, up to the masks. -/
def readInfo (d : Description) : Reader Shape := do
  let width ← .signedWord
  let height ← .signedWord
  if width < 0 then throw (.malformed s!"Negative width ({width})")
  if greatestSide < width ∨ greatestSide < height then
    throw (.malformed
      s!"Image too large (one of ({width}, {height}) > soft limit of {greatestSide})")
  if height = -0x80000000 then throw (.malformed "Invalid height")
  checkDimensions width.toNat height.natAbs
  checkPlanes
  let bits ← .half
  let compression ← .word
  if height < 0 ∧ compression ≠ 0 ∧ compression ≠ 3 then
    throw (.malformed s!"Invalid image type {compression} for top-down image.")
  let layout ← liftM (layoutOf compression bits)
  let _ ← ByteReader.take .endOfFile 12
  let colors ← .word
  let _ ← Reader.word
  let layout ←
    if compression = 3 then (.direct bits ·) <$> Masks.read bits d.hasAlpha else pure layout
  return ⟨width.toNat, height.natAbs, height < 0, layout, colors⟩

/-- The color of three bytes or four, blue first. -/
def paletteColor (bytes : List UInt8) : Pixel :=
  match bytes with
  | b :: g :: r :: _ => ⟨r, g, b, 255⟩
  | _ => .black

/-- Read a palette of the given number of colors, or of as many as there can be if that is zero. -/
def readPalette (bits colors colorSize : Nat) : Reader (List Pixel) := do
  if 1 <<< bits < colors then
    throw (.malformed
      s!"Palette size {colors} exceeds maximum size for BMP with bit count of {bits}")
  let n := if colors = 0 then 1 <<< bits else colors
  return (pieces colorSize (← ByteReader.take .endOfFile (colorSize * n))).map paletteColor

/-- Read what comes first in a file: the place of its pixels. -/
def readDataOffset : Reader Nat := do
  let mark ← ByteReader.take .endOfFile 2
  if mark ≠ [0x42, 0x4d] then throw (.malformed "BMP signature not found")
  let _ ← ByteReader.take .endOfFile 8
  .word

/-- The header of a file. -/
def Header.read (file : List UInt8) : Except Fault Header := do
  let start : Reader (Nat × Description × Shape) := do
    let offset ← readDataOffset
    let size ← .word
    match Description.ofSize? size with
    | some d => return (offset, d, ← if d = .core then readCore else readInfo d)
    | none =>
      if size < Description.core.size then
        throw (.malformed s!"Bitmap header too small ({size} bytes)")
      else throw (.unsupported s!"Unknown bitmap header type (size={size})")
  let (offset, d, s) ← start.run' file
  let palette ← match s.layout.paletteBits? with
    | none => pure []
    | some bits => (readPalette bits s.colors d.colorSize).run' (file.drop (14 + d.size))
  return ⟨s.width, s.height, s.fromTop, s.layout, palette, offset⟩

end PixelFlow.Picture.Bmp
