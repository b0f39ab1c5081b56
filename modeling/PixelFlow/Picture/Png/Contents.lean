import PixelFlow.Picture
import PixelFlow.Picture.Png.Fault

/-!
# Contents of PNG files

A file begins with its header. The chunks that follow are looked at in order up to the first one
with data; the data go on for as long as there are such chunks.

* `Header.read`: a header from the body of its chunk.
* `FrameControl.read`: what is said about a frame.
* `DataRun`: the data, and what is wrong after them.
* **`Contents.ofChunks`**: all that a file says about its picture.
-/

namespace PixelFlow.Picture.Png

/-- Read a header; its parts are checked one by one as they are read. -/
def Header.read : ByteReader Fault Header := do
  let byte := ByteReader.byte (.wrongSize .header)
  let word := bigEndianValue <$> ByteReader.take (.wrongSize .header) 4
  let width ← word
  let height ← word
  if width = 0 ∨ height = 0 then throw .dimensions
  let bits ← byte
  let some depth := BitDepth.ofBits? bits | throw (.bitDepth bits)
  let number ← byte
  let some color := ColorType.ofNumber? number | throw (.colorType number)
  if !depth.suits color then throw (.combination color depth)
  let compression ← byte
  if compression ≠ 0 then throw (.compressionMethod compression)
  let filter ← byte
  if filter ≠ 0 then throw (.filterMethod filter)
  let interlace ← byte
  if 1 < interlace then throw (.interlaceMethod interlace)
  return ⟨width, height, depth, color, interlace = 1⟩

/-- The place of a frame in a picture. -/
structure FrameControl where
  width : Nat
  height : Nat
  left : Nat
  top : Nat
deriving DecidableEq, Repr

/-- Read the place of a frame, which should be the one with the given number. How long it is shown
does not matter, but how it gives way to the next one has to make sense. -/
def FrameControl.read (number : Nat) : ByteReader Fault FrameControl := do
  let value (width : Nat) :=
    bigEndianValue <$> ByteReader.take (.wrongSize .frameControl) width
  let found ← value 4
  if found ≠ number then throw (.frameOrder number found)
  let width ← value 4
  let height ← value 4
  let left ← value 4
  let top ← value 4
  let _ ← value 4
  let disposal ← value 1
  if 2 < disposal then throw (.disposal disposal)
  let blending ← value 1
  if 1 < blending then throw (.blending blending)
  return ⟨width, height, left, top⟩

/-- Whether a chunk is looked at, by its type and its size. Critical chunks and those about frames
have to make sense; other ones that do not are skipped. -/
def Chunk.admitted (c : Chunk) : Except Fault Bool :=
  match c.kind.sizes with
  | none => if c.kind.isCritical then throw (.unknownCritical c.kind) else return false
  | some (least, greatest) =>
    if least ≤ c.size ∧ c.size ≤ greatest then return true
    else if c.kind.isCritical ∨ c.kind = .frameControl then throw (.wrongSize c.kind)
    else return false

/-- Whether a chunk is whole. A critical chunk must be; another one that is not is skipped. -/
def Chunk.intact (c : Chunk) : Except Fault Bool :=
  match c.check with
  | none => throw .endOfFile
  | some stored =>
    if stored = c.computedCheck then return true
    else if c.kind.isCritical then throw (.check stored c.computedCheck c.kind)
    else return false

/-- The compressed data of a picture, as they are divided among chunks. -/
structure DataRun where
  parts : List (List UInt8)
  /-- What is wrong after the last byte of the data. -/
  fault : Option Fault

/-- The data of the chunks up to one of another type, which has to begin. -/
def DataRun.ofChunks : List Chunk → DataRun
  | [] => ⟨[], some .endOfFile⟩
  | c :: rest =>
    if c.kind ≠ .data then ⟨[], none⟩
    else match c.intact with
      | .error fault => ⟨[c.body], some fault⟩
      | .ok _ =>
        let run := ofChunks rest
        { run with parts := c.body :: run.parts }

/-- What a file says about its picture. -/
structure Contents where
  header : Header
  /-- The colors of an indexed picture, three bytes each. -/
  palette : Option (List UInt8)
  /-- What is said about transparent pixels. -/
  transparency : Option (List UInt8)
  /-- The number of frames that the picture is said to be. -/
  frames : Nat
  data : DataRun

namespace Contents

/-- The least number of bytes of what is said about transparent pixels; `none` if nothing can be
said, as long as the palette that it is about has not come. -/
def leastTransparency? (c : Contents) : Option Nat :=
  match c.header.color with
  | .gray => some 2
  | .rgb => some 6
  | .indexed => c.palette.map fun _ => 0
  | .grayAlpha | .rgba => none

/-- The frame in front of the data has to be the whole picture. -/
def checkFrame (c : Contents) (f : FrameControl) : Except Fault Unit :=
  if f.width = 0 ∨ f.height = 0 then throw .dimensions
  else if f ≠ ⟨c.header.width, c.header.height, 0, 0⟩ then throw .frameBounds
  else return ()

/-- Take in a chunk. What is said about transparent pixels is skipped if it is no use. -/
def add (c : Contents) (k : Chunk) : Except Fault Contents :=
  if k.kind = .header then throw (.repeated k.kind)
  else if k.kind = .palette then
    if c.palette.isSome then throw (.repeated k.kind) else return { c with palette := k.body }
  else if k.kind = .transparency then
    match c.transparency, c.leastTransparency? with
    | none, some least =>
      return if least ≤ k.body.length then { c with transparency := k.body } else c
    | _, _ => return c
  else if k.kind = .frameControl then do
    c.checkFrame (← (FrameControl.read c.frames).run' k.body)
    return { c with frames := c.frames + 1 }
  else if k.kind = .fileEnd then throw .noData
  else return c

/-- Take in the chunks from the one after the header to the data. -/
def addAll (c : Contents) : List Chunk → Except Fault Contents
  | [] => throw .endOfFile
  | k :: rest =>
    if k.kind = .data then return { c with data := .ofChunks (k :: rest) }
    else if k.kind = .frameData then throw (.strayData k.kind)
    else do
      let admitted ← k.admitted
      let intact ← k.intact
      if admitted ∧ intact then (← c.add k).addAll rest else c.addAll rest

/-- The bytes of the pixels in eight or sixteen bits a channel. -/
def outputSize (c : Contents) : Nat :=
  (c.header.model c.transparency.isSome).bytesPerPixel * c.header.width * c.header.height

/-- The contents of a file with the given chunks. -/
def ofChunks : List Chunk → Except Fault Contents
  | [] => throw .endOfFile
  | k :: rest => do
    if k.kind ≠ .header then throw (.beforeHeader k.kind)
    let _ ← k.admitted
    let _ ← k.intact
    let header ← Header.read.run' k.body
    let c : Contents := ⟨header, none, none, 0, ⟨[], none⟩⟩
    if UInt64.size ≤ c.outputSize then throw .memory
    let c ← c.addAll rest
    if memoryLimit < c.outputSize then throw .memory
    return c

end Contents

end PixelFlow.Picture.Png
