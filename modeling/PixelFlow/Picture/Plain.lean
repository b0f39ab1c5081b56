import PixelFlow.Picture.Png

/-!
# Files of plain pixels

Formats that hold pixels as they are, behind a short header.

* `Tga.encode`, `Pam.encode`, `Qoi.encode`, `Tiff.encode`: the files of a raster.
* `Ico.encode`: a file that holds another one.
-/

namespace PixelFlow.Picture

/-- The channels of all pixels with blue first. -/
def blueFirst (r : Raster) : List UInt8 :=
  r.pixels.toList.flatMap fun p => [p.blue, p.green, p.red, p.alpha]

/-- Colors of 32 bits, of which eight are opacity, with the highest line first. -/
def Tga.encode (r : Raster) : List UInt8 :=
  [0, 0, 2] ++ List.replicate 9 0 ++ littleEndianBytes 2 r.width ++ littleEndianBytes 2 r.height ++
    [32, 0x28] ++ blueFirst r

def Pam.encode (r : Raster) : List UInt8 :=
  let header := s!"P7\nWIDTH {r.width}\nHEIGHT {r.height}\nDEPTH 4\nMAXVAL 255\n" ++
    "TUPLTYPE RGB_ALPHA\nENDHDR\n"
  header.toUTF8.toList ++ r.bytes

/-- Each pixel is written in full. -/
def Qoi.encode (r : Raster) : List UInt8 :=
  "qoif".toUTF8.toList ++ bigEndian 4 r.width ++ bigEndian 4 r.height ++ [4, 0] ++
    (r.pixels.toList.flatMap fun p => (0xff : UInt8) :: p.channels) ++ [0, 0, 0, 0, 0, 0, 0, 1]

/-- An entry of a directory: a tag and one number, of two bytes or of four. -/
def Tiff.entry (tag kind value : Nat) : List UInt8 :=
  littleEndianBytes 2 tag ++ littleEndianBytes 2 kind ++ littleEndianBytes 4 1 ++
    littleEndianBytes 4 value

/-- One strip of pixels behind the directory. The bits of the four channels stand between them. -/
def Tiff.encode (r : Raster) : List UInt8 :=
  let short := 3
  let long := 4
  let directory := 8
  let bits := directory + 2 + 11 * 12 + 4
  let entries := [
    entry 256 long r.width, entry 257 long r.height,
    littleEndianBytes 2 258 ++ littleEndianBytes 2 short ++ littleEndianBytes 4 4 ++
      littleEndianBytes 4 bits,
    entry 259 short 1, entry 262 short 2, entry 273 long (bits + 8), entry 277 short 4,
    entry 278 long r.height, entry 279 long (4 * r.width * r.height), entry 284 short 1,
    entry 338 short 2]
  [0x49, 0x49, 42, 0] ++ littleEndianBytes 4 directory ++ littleEndianBytes 2 entries.length ++
    entries.flatten ++ littleEndianBytes 4 0 ++ [8, 0, 8, 0, 8, 0, 8, 0] ++ r.bytes

/-- One picture in the form of a PNG file; 256 pixels are written as none. -/
def Ico.encode (r : Raster) : List UInt8 :=
  let picture := Png.encode r
  [0, 0, 1, 0, 1, 0, .ofNat r.width, .ofNat r.height, 0, 0, 1, 0, 32, 0] ++
    littleEndianBytes 4 picture.length ++ littleEndianBytes 4 22 ++ picture

end PixelFlow.Picture
