import PixelFlow.Picture.Jpeg.Reader

/-!
# Notes in JPEG files

Segments that have nothing to do with pixels. Some of them are known by how they begin; of those
the bytes have to be there, while other ones are skipped without looking.

* `Jpeg.skipOther`: a segment that is not known.
* **`Jpeg.readNote`**: a segment for an application, by its number.
-/

namespace PixelFlow.Picture.Jpeg

/-- Skip a segment of a known kind that means nothing here. -/
def skipOther : Reader Unit := do
  skip (← bodyLength fun n => s!"Found a marker with invalid length:{n}\n")

/-- Skip a segment of a kind that is not known. -/
def skipUnknown : Reader Unit := do
  skip (← bodyLength fun n => s!"Found a marker with invalid length : {n}")

/-- A kind of note: how it begins, the length of its body from which it is looked for, and how many
bytes follow its beginning before those that are kept. -/
structure NoteKind where
  mark : String
  least : Nat
  gap : Nat

namespace NoteKind

/-- A kind that is looked for in any body longer than its mark. -/
def plain (mark : String) : NoteKind := ⟨mark, mark.utf8ByteSize + 1, 0⟩

def camera : NoteKind := .plain "Exif\x00\x00"

def packet : NoteKind := .plain "http://ns.adobe.com/xap/1.0/"

/-- A part of a color profile. Its number and the number of all parts come before it. -/
def profile : NoteKind := ⟨"ICC_PROFILE\x00", 15, 2⟩

def gainMap : NoteKind := .plain "urn:iso:std:iso:ts:21496:-1\x00"

def pictures : NoteKind := .plain "MPF\x00"

def press : NoteKind := .plain "Photoshop 3.0"

end NoteKind

/-- Skip the body of a note, after a look for the kinds that it may have. -/
def skipNote (length : Nat) : List NoteKind → Reader Unit
  | [] => skip length
  | kind :: rest => do
    let mark := kind.mark.toUTF8.toList
    if length < kind.least then skipNote length rest
    else if (← peek mark.length) ≠ mark then skipNote length rest
    else
      skip (mark.length + kind.gap)
      let _ ← take (length - mark.length - kind.gap)

/-- A note that may be of some kinds. -/
def noteOf (reason : String) (kinds : List NoteKind) : Reader Unit := do
  let length ← halfOrZero
  if length < 2 then throw (.malformed reason)
  skipNote (length - 2) kinds

/-- A note whose first five bytes have to be there if it has more. -/
def headNote : Reader Unit := do
  let length ← bodyLength fun n => s!"Found a marker with invalid length:{n}\n"
  if 3 < length then
    let _ ← take 5
    skip (length - 5)
  else skip length

/-- A note about the colors of the picture: three of their transformations are known. -/
def colorNote : Reader Unit := do
  let length ← halfOrZero
  if length < 2 then throw (.malformed "Too small APP14 length")
  if length < 14 then throw (.malformed "Too short of a length for App14 segment")
  if (← peek 5) ≠ "Adobe".toUTF8.toList then skip (length - 2)
  else
    skip 11
    let transformation := ((← get).headD 0).toNat
    skip 1
    if 2 < transformation then throw (.malformed s!"Unknown Adobe colorspace {transformation}")
    skip (length - 14)

/-- Read the note with a number. -/
def readNote : Nat → Reader Unit
  | 0 => headNote
  | 1 => noteOf "Too small app1 length" [.camera, .packet]
  | 2 => noteOf "Too small app2 segment" [.profile, .gainMap, .pictures]
  | 13 => noteOf "Too small APP13 length" [.press]
  | 14 => colorNote
  | _ => skipOther

end PixelFlow.Picture.Jpeg
