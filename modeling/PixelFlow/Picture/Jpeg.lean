import PixelFlow.Picture
import PixelFlow.Picture.Jpeg.Frame
import PixelFlow.Picture.Jpeg.Note

/-!
# JPEG files

A file is a sequence of segments, each with a marker and, as a rule, a length. It is read up to
the data of the picture; pixels are not.

* `Jpeg.segment`: what one segment comes to.
* **`Jpeg.decode`**: why there is no picture.
-/

namespace PixelFlow.Picture.Jpeg

/-- The fault of a segment that cannot be read. -/
def unsupported (kind : String) : Fault :=
  .malformed s!"Parsing of the following header \x60{kind}\x60 is not supported,cannot continue"

/-- Act on a marker, given the description of the picture if it has come. Those of frames that are
compressed in another way are not known. Data follow after the marker of a scan. -/
def segment (frame : Option Frame) (marker : Nat) : Reader (Option Frame) := do
  match marker with
  | 0xc0 | 0xc1 | 0xc2 => return some (← Frame.read frame)
  | 0xc4 => readCodes
  | 0xcc => throw (unsupported "DAC")
  | 0xd9 => throw (.malformed "Premature End of image")
  | 0xda =>
    Frame.readScan frame
    throw .unread
  | 0xdb => readWeights
  | 0xdc => throw (unsupported "DNL")
  | 0xdd =>
    if (← number 2) ≠ 4 then throw (.malformed "Bad DRI length, Corrupt JPEG")
    let _ ← number 2
  | 0xfe => skipOther
  | _ =>
    if 0xe0 ≤ marker ∧ marker < 0xf0 then readNote (marker - 0xe0)
    else if 0xd0 ≤ marker ∧ marker < 0xd9 then skipOther
    else skipUnknown
  return frame

/-- Look for markers, given the byte before the next one, for at most `fuel` bytes. A marker is a
byte other than 0 and 255 right after one that is 255. -/
def segments (frame : Option Frame) (last : Nat) : Nat → Reader Unit
  | 0 => throw .unread
  | fuel + 1 => do
    let next ← number 1
    let frame ←
      if last = 0xff ∧ next ≠ 0xff ∧ next ≠ 0 then segment frame next else pure frame
    segments frame next fuel

def check : Reader Unit := do
  let mark ← number 2
  if mark ≠ 0xffd8 then throw (.start mark)
  segments none 0 ((← get).length + 1)

def decode (file : List UInt8) : Except String Picture :=
  Except.mapError Fault.message do
    check.run' file
    throw .unread

end PixelFlow.Picture.Jpeg
