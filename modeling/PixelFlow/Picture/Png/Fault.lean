import PixelFlow.Picture
import PixelFlow.Picture.Inflate
import PixelFlow.Picture.Png.Chunk
import PixelFlow.Picture.Png.Header

/-!
# Faults of PNG files

* `Fault`: why a file cannot be read.
* `Fault.failure`: the reason in words.
-/

namespace PixelFlow.Picture.Png

/-- Why a file cannot be read. -/
inductive Fault
  | endOfFile
  /-- The picture takes more memory than is allowed. -/
  | memory
  | signature
  | beforeHeader (kind : ChunkType)
  | check (stored computed : UInt32) (kind : ChunkType)
  | repeated (kind : ChunkType)
  /-- The size of a chunk is none for its type. -/
  | wrongSize (kind : ChunkType)
  | unknownCritical (kind : ChunkType)
  /-- Data of a frame in front of any frame. -/
  | strayData (kind : ChunkType)
  /-- The number of a frame is not the next one. -/
  | frameOrder (expected found : Nat)
  | disposal (n : Nat)
  | blending (n : Nat)
  /-- The first frame is not the whole picture. -/
  | frameBounds
  | dimensions
  | bitDepth (n : Nat)
  | colorType (n : Nat)
  | combination (color : ColorType) (depth : BitDepth)
  | compressionMethod (n : Nat)
  | filterMethod (n : Nat)
  | interlaceMethod (n : Nat)
  | noData
  | noPalette
  /-- The last color of the palette has so many bytes. -/
  | paletteCut (bytes : Nat)
  | corrupt (fault : DeflateFault)
  /-- The data hold fewer lines than the picture. -/
  | tooFewLines
deriving DecidableEq, Repr

namespace Fault

/-- What is wrong with the format of a file; `none` if nothing is. -/
def formatError? : Fault → Option String
  | endOfFile | memory | paletteCut _ => none
  | signature => some "Invalid PNG signature."
  | beforeHeader kind => some (kind.description ++ " chunk appeared before IHDR chunk")
  | check stored computed kind =>
    let hex (n : UInt32) := "0x" ++ String.ofList (Nat.toDigits 16 n.toNat)
    some (s!"CRC error: expected {hex stored} have {hex computed} while decoding " ++
      kind.description ++ " chunk.")
  | repeated kind => some ("Chunk " ++ kind.description ++ " must appear at most once.")
  | wrongSize kind => some ("Chunk length wrong: " ++ kind.description)
  | unknownCritical kind => some ("Unrecognized critical chunk: " ++ kind.description)
  | strayData kind => some ("Unexpected restart of " ++ kind.description ++ " chunk sequence")
  | frameOrder expected found =>
    some s!"Sequence is not in order, expected #{expected} got #{found}."
  | disposal n => some s!"Invalid dispose op: {n}"
  | blending n => some s!"Invalid blend op: {n}"
  | frameBounds => some "Sub frame is out-of-bounds."
  | dimensions => some "Invalid image dimensions"
  | bitDepth n => some s!"Invalid bit depth {n}."
  | colorType n => some s!"Invalid color type {n}."
  | combination color depth =>
    some s!"Invalid color/depth combination in header: {color.name}/{depth.name}"
  | compressionMethod n => some s!"Unknown compression method {n}."
  | filterMethod n => some s!"Unknown filter method {n}."
  | interlaceMethod n => some s!"Unknown interlace method {n}."
  | noData => some "IDAT or fdAT chunk is missing."
  | noPalette => some "Missing palette of indexed image."
  | corrupt fault => some ("Corrupt deflate stream. " ++ fault.name)
  | tooFewLines => some "IDAT or fDAT chunk does not have enough data for image."

/-- What comes of a fault. A palette that is cut off breaks the reader. -/
def failure (f : Fault) : Failure :=
  match f, f.formatError? with
  | paletteCut n, _ => .panic s!"range end index 3 out of range for slice of length {n}"
  | memory, _ => .unreadable "Memory limit exceeded"
  | _, some reason => .unreadable ("Format error decoding Png: " ++ reason)
  | _, none => .unreadable "unexpected end of file"

end Fault

end PixelFlow.Picture.Png
