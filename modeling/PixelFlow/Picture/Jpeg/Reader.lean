import PixelFlow.Picture.Bytes
import PixelFlow.Text.Quoted

/-!
# Reading JPEG files

* `Fault`: why a file cannot be read.
* `Reader`: readers of the parts of a file.
* `peek`: a look at bytes that are not read yet.
-/

namespace PixelFlow.Picture.Jpeg

/-- Why a file cannot be read. -/
inductive Fault
  | tooFewBytes (expected found : Nat)
  /-- The file does not begin with the mark of its kind. -/
  | start (mark : Nat)
  | malformed (reason : String)
  /-- Something is wrong with a table of weights. -/
  | weights (reason : String)
  /-- Something is wrong with a prefix code. -/
  | code (reason : String)
  /-- Something is wrong with the description of the picture. -/
  | frame (reason : String)
  /-- Something is wrong with the description of a run of data. -/
  | scan (reason : String)
  /-- The picture has no pixels. -/
  | empty
  /-- There are pixels, but they are not read. -/
  | unread
deriving DecidableEq, Repr

namespace Fault

/-- What is wrong with the format of a file; `none` if nothing is. -/
def formatError? : Fault → Option String
  | tooFewBytes expected found =>
    some s!"I/O errors Not enough bytes, expected {expected} but found {found}\n"
  | start mark =>
    some ("Error parsing image. Illegal start bytes:" ++
      String.ofList ((Nat.toDigits 16 mark).map Char.toUpper))
  | malformed reason => some (Text.quoted reason)
  | weights reason => some ("Error parsing DQT segment. Reason:" ++ reason)
  | code reason => some ("Error decoding huffman values: " ++ reason)
  | frame reason => some ("Error parsing SOF segment. Reason:" ++ reason)
  | scan reason => some ("Error parsing SOS Segment. Reason:" ++ reason)
  | empty => some "Image width or height is set to zero, cannot continue"
  | unread => none

def message (f : Fault) : String :=
  match f.formatError? with
  | some reason => "Format error decoding Jpeg: " ++ reason
  | none => "The image format Jpeg is not supported"

end Fault

/-- Readers of a file. -/
abbrev Reader := ByteReader Fault

/-- The next `n` bytes. -/
def take (n : Nat) : Reader (List UInt8) := do
  ByteReader.take (.tooFewBytes n (← get).length) n

/-- The next `n` bytes as a number. -/
def number (n : Nat) : Reader Nat := bigEndianValue <$> take n

/-- The next number of two bytes, or zero if they are not there. -/
def halfOrZero : Reader Nat := do
  if (← get).length < 2 then return 0 else number 2

/-- The next `n` bytes without reading them. -/
def peek (n : Nat) : Reader (List UInt8) := do
  let bytes ← get
  let taken ← take n
  set bytes
  return taken

/-- Skip bytes, of which there need not be so many. -/
def skip (n : Nat) : Reader Unit := modify (·.drop n)

/-- The length of a segment, which counts its own two bytes; those are taken off. -/
def bodyLength (reason : Nat → String) : Reader Nat := do
  let length ← number 2
  if length < 2 then throw (.malformed (reason length))
  return length - 2

end PixelFlow.Picture.Jpeg
