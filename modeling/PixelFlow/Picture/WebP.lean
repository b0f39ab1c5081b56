import PixelFlow.Picture.WebP.Lossless

/-!
# WebP files

A file is a chunk of chunks. The first one tells how pixels are stored: with losses, without, or
among further chunks, which are then looked through. A file is read up to the data of its pixels;
those are not.

* `ChunkHeader`: the mark and the size of a chunk.
* `Extended.read`: the chunks that belong to a picture.
* **`WebP.decode`**: why there is no picture.
-/

namespace PixelFlow.Picture.WebP

/-! ## Chunks -/

/-- The mark of a kind of chunk. -/
structure Mark where
  bytes : List UInt8
deriving DecidableEq, Repr

namespace Mark

def ofName (name : String) : Mark := ⟨name.toUTF8.toList⟩

def file : Mark := ofName "RIFF"

def picture : Mark := ofName "WEBP"

def lossy : Mark := ofName "VP8 "

def lossless : Mark := ofName "VP8L"

def extended : Mark := ofName "VP8X"

def animation : Mark := ofName "ANIM"

def frame : Mark := ofName "ANMF"

def profile : Mark := ofName "ICCP"

def camera : Mark := ofName "EXIF"

def packet : Mark := ofName "XMP "

/-- The fault of a chunk that has another mark. -/
def fault (m : Mark) : Fault := .malformed ("Invalid Chunk header: " ++ shown m.bytes)

end Mark

/-- The mark and the size of a chunk. -/
structure ChunkHeader where
  mark : Mark
  size : Nat
deriving DecidableEq, Repr

namespace ChunkHeader

def read : Reader ChunkHeader := do return ⟨⟨← take 4⟩, ← number 4⟩

/-- The size with the byte that makes it even. -/
def roundedSize (c : ChunkHeader) : Nat := c.size + c.size % 2

end ChunkHeader

/-! ## Pixels with losses -/

/-- The start of pixels with losses: a tag, a mark and the dimensions. Gives the size of the part
with which the data begin. -/
def readLossy : Reader (Nat × Size) := do
  let tag ← number 3
  if tag % 2 = 1 then throw (.malformed "Unsupported feature: Non-keyframe frames")
  let found ← take 3
  if found ≠ [0x9d, 0x01, 0x2a] then throw (.malformed ("Invalid VP8 magic: " ++ shown found))
  let width ← number 2
  let height ← number 2
  if side width = 0 ∨ side height = 0 then throw (.malformed "Inconsistent image sizes")
  return (tag / 32, ⟨side width, side height⟩)

/-- The first part of the data has to be there. -/
def checkLossyData : Reader Unit := do
  let (size, _) ← readLossy
  let _ ← take size
  if size = 0 then throw (.malformed "Not enough VP8 init data")
  throw .unread

/-! ## Pictures of several chunks -/

/-- What the first chunk says about the others. -/
structure Extended where
  size : Size
  alpha : Bool
  animated : Bool
  /-- The marks of chunks that are promised. -/
  promised : List Mark

namespace Extended

def read : Reader Extended := do
  let flags ← number 1
  let _ ← take 3
  let width := (← number 3) + 1
  let height := (← number 3) + 1
  if UInt32.size ≤ width * height then
    throw (.malformed
      "Image is too large, either for the platform's pointer size or generally")
  let promised := [(5, Mark.profile), (3, .camera), (2, .packet), (1, .animation), (1, .frame)]
  return { size := ⟨width, height⟩
           alpha := flags.testBit 4
           animated := flags.testBit 1
           promised := (promised.filter fun (bit, _) => flags.testBit bit).map (·.2) }

/-- A frame of an animation has to be large enough, and its beginning has to be there. -/
def checkFrame (c : ChunkHeader) : Reader Unit := do
  if c.size < 24 then throw (.malformed "Invalid chunk size")
  let bytes ← get
  let _ ← take 16
  let _ ← ChunkHeader.read
  set bytes

/-- The chunks up to a limit, for at most `fuel` of them, each with the bytes from its body on. -/
def chunks (limit : Nat) : Nat → Reader (List (ChunkHeader × List UInt8))
  | 0 => return []
  | fuel + 1 => do
    if limit = 0 ∨ (← get).length < 8 then return []
    let c ← ChunkHeader.read
    if c.mark = .frame then checkFrame c
    let body ← get
    set (body.drop c.roundedSize)
    return (c, body) :: (← chunks (limit - (8 + c.roundedSize)) fuel)

/-- Check that the chunks are there that should be, and the data in the one with the pixels. -/
def check (e : Extended) (found : List (ChunkHeader × List UInt8)) : Reader Unit := do
  let chunk? (m : Mark) := found.find? fun (c, _) => c.mark = m
  let missing := Fault.malformed "An expected chunk was missing"
  if e.promised.any fun m => (chunk? m).isNone then throw missing
  if e.animated then throw .unread
  match chunk? .lossy, chunk? .lossless with
  | some (c, body), none =>
    checkMemory e.size e.alpha
    set (body.take c.size)
    checkLossyData
  | none, some (c, body) =>
    checkMemory e.size e.alpha
    set (body.take c.size)
    checkLosslessData e.size
  | _, _ => throw missing

end Extended

def check : Reader Unit := do
  let file ← ChunkHeader.read
  if file.mark ≠ .file then throw Mark.file.fault
  let kind ← take 4
  if kind ≠ Mark.picture.bytes then throw (.malformed ("Invalid WebP signature: " ++ shown kind))
  let c ← ChunkHeader.read
  let body ← get
  if c.mark = .lossy then
    let (_, size) ← readLossy
    checkMemory size false
    set (body.take c.size)
    checkLossyData
  else if c.mark = .lossless then
    let (size, alpha) ← readLossless
    checkMemory size alpha
    set (body.take c.size)
    checkLosslessData size
  else if c.mark = .extended then
    let e ← Extended.read
    set (body.drop c.roundedSize)
    e.check (← Extended.chunks (file.size - 12) (body.length + 1))
  else throw c.mark.fault

def decode (file : List UInt8) : Except String Picture :=
  Except.mapError Fault.message do
    check.run' file
    throw .unread

end PixelFlow.Picture.WebP
