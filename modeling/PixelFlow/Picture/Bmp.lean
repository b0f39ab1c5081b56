import PixelFlow.Picture.Bmp.Runs

/-!
# BMP files

A file has a header, perhaps a palette, and lines of pixels, as a rule from the lowest to the
highest, each padded to a multiple of four bytes. The writer keeps opacity.

* `Bmp.decode`: the picture of a file, or the reason why there is none.
* `Bmp.encode`: the file of a raster.
-/

namespace PixelFlow.Picture.Bmp

namespace Header

/-- The color model in which pixels are handed out. -/
def model (h : Header) : ColorModel :=
  match h.layout with
  | .direct _ masks => if masks.alpha.length = 0 then .rgb8 else .rgba8
  | _ => .rgb8

/-- The bytes of a line whose pixels have the given number of bits, with its padding. -/
def lineSize (h : Header) (bits : Nat) : Nat := (bits * h.width + 31) / 32 * 4

/-- The raster of lines of pixels. -/
def ofLines (h : Header) (bits : Nat) (pixels : List UInt8 → List Pixel) (bytes : List UInt8) :
    Except Fault Raster := do
  let size := h.lineSize bits
  let data := bytes.take (size * h.height)
  if data.length < size * h.height then throw .endOfFile
  let lines := (pieces size data).map fun line => (pixels line).take h.width
  let lines := if h.fromTop then lines else lines.reverse
  return .ofPixels h.width h.height lines.flatten.toArray

/-- The raster in the bytes from the place of the pixels on. -/
def raster (h : Header) (bytes : List UInt8) : Except Fault Raster :=
  match h.layout with
  | .indexed bits =>
    h.ofLines bits (fun line => (unpacked bits line).map fun i => h.palette.getD i .black) bytes
  | .runs bits => painted h bits bytes
  | .direct bits masks =>
    h.ofLines bits
      (fun line => (pieces (bits / 8) line).map fun p => masks.pixel (littleEndianValue p)) bytes

end Header

def decode (file : List UInt8) : Except String Picture :=
  Except.mapError Fault.message do
    let h ← Header.read file
    if memoryLimit < h.width * h.height * h.model.bytesPerPixel then throw .memory
    return ⟨← h.raster (file.drop h.dataOffset), h.model⟩

/-! ## Writing -/

/-- The description of a picture with four bytes a pixel: its dimensions, and the places of the
channels in a pixel. -/
def description (r : Raster) : List UInt8 :=
  let word := littleEndianBytes 4
  word Description.meaning4.size ++ word r.width ++ word r.height ++ littleEndianBytes 2 1 ++
    littleEndianBytes 2 32 ++ word 3 ++ word (4 * r.width * r.height) ++
    word 0 ++ word 0 ++ word 0 ++ word 0 ++
    word 0xff0000 ++ word 0xff00 ++ word 0xff ++ word 0xff000000 ++ word 0x73524742 ++
    List.replicate 48 0

def encode (r : Raster) : List UInt8 :=
  let lines := (pieces r.width r.pixels.toList).reverse.flatten.flatMap fun p =>
    [p.blue, p.green, p.red, p.alpha]
  [0x42, 0x4d] ++ littleEndianBytes 4 (122 + lines.length) ++ littleEndianBytes 4 0 ++
    littleEndianBytes 4 122 ++ description r ++ lines

end PixelFlow.Picture.Bmp
