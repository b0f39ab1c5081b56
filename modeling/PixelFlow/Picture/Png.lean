import PixelFlow.Picture
import PixelFlow.Picture.Png.Scanline

/-!
# PNG files

A file is a signature and a sequence of chunks. The pixels are lines of bytes, each filtered by
its neighbours, and compressed as a whole. The writer stores lines as they are.

* `Png.decode`: the picture of a file, or the reason why there is none.
* `Png.encode`: the file of a raster.
-/

namespace PixelFlow.Picture.Png

def signature : List UInt8 := [0x89, 0x50, 0x4e, 0x47, 0x0d, 0x0a, 0x1a, 0x0a]

/-- What follows the signature, which is looked at four bytes at a time. -/
def unsigned (bytes : List UInt8) : Except Fault (List UInt8) :=
  if bytes.length < 4 then throw .endOfFile
  else if bytes.take 4 ≠ signature.take 4 then throw .signature
  else if bytes.length < 8 then throw .endOfFile
  else if bytes.take 8 ≠ signature then throw .signature
  else return bytes.drop 8

/-- A grid of pixels and its lines. -/
abbrev PassLines := Pass × Array (List Pixel)

/-- What is wrong with the palette of an indexed picture. -/
def Contents.paletteFault? (c : Contents) : Option Fault :=
  match c.header.color, c.palette with
  | .indexed, none => some .noPalette
  | .indexed, some bytes =>
    let rest := bytes.length % 3
    if rest = 0 then none else some (.paletteCut rest)
  | _, _ => none

/-- The pixels of the grids of a picture. An indexed picture needs a palette as soon as there is a
line. -/
def passLines (c : Contents) : List Pass → ByteReader Fault (List PassLines)
  | [] => return []
  | p :: rest => do
    let h := c.header
    let columns := p.columns h.width
    let size := h.lineSize columns
    let read := lines h.filterDistance size #[]
    if let some fault := c.paletteFault? then
      let _ ← read 1
      throw fault
    let done ← read (p.rows h.height)
    return (p, (done.map (c.linePixels columns)).toArray) :: (← passLines c rest)

/-- The pixel in column `x` of row `y`. -/
def pixelAt (passes : List (Pass × Array (Array Pixel))) (x y : Nat) : Pixel :=
  match passes.find? fun (p, _) => p.covers x y with
  | some (p, rows) => (rows.getD (y / p.rowStep) #[]).getD (x / p.columnStep) default
  | none => default

/-- The number of bytes of all lines, each behind the number of its filter. -/
def Header.rawSize (h : Header) : Nat :=
  h.passes.foldl (fun size p => size + (h.lineSize (p.columns h.width) + 1) * p.rows h.height) 0

/-- The bytes of a compressed sequence that comes part by part, given what is known after the parts
so far. A part with a fault adds nothing, and once there are enough bytes no further part is looked
at. -/
def inflateParts (wanted : Nat) (known : Inflation) (sofar : ByteArray) :
    List (List UInt8) → Inflation
  | [] => known
  | part :: rest =>
    if wanted ≤ known.bytes.size then known
    else
      let sofar := sofar ++ ⟨part.toArray⟩
      let next := inflate wanted sofar
      match next.fault with
      | none | some .exhausted => inflateParts wanted next sofar rest
      | some fault => ⟨known.bytes, some fault⟩

/-- Why the data hold no more lines. What is wrong after them comes first, unless they are corrupt
themselves. -/
def Contents.shortage (c : Contents) : Option DeflateFault → Fault
  | none => c.data.fault.getD .tooFewLines
  | some .exhausted => c.data.fault.getD (.corrupt .exhausted)
  | some fault => .corrupt fault

/-- The picture of the contents of a file. What is wrong with the lines that are there comes before
what is wrong with the data that they are made of. -/
def Contents.picture (c : Contents) : Except Fault Picture := do
  let data := inflateParts c.header.rawSize ⟨.empty, some .exhausted⟩ .empty c.data.parts
  let passes ← match (passLines c c.header.passes).run' data.bytes.toList with
    | .ok passes => pure passes
    | .error .tooFewLines => throw (c.shortage data.fault)
    | .error fault => throw fault
  match c.data.fault with
  | some fault => throw fault
  | none =>
    let rows := passes.map fun (p, lines) => (p, lines.map List.toArray)
    return ⟨.ofFn c.header.width c.header.height (pixelAt rows),
      c.header.model c.transparency.isSome⟩

def decode (bytes : List UInt8) : Except Failure Picture :=
  (do (← Contents.ofChunks (chunks (← unsigned bytes))).picture).mapError Fault.failure

/-! ## Writing -/

/-- The blocks of bytes that are stored as they are. -/
def stored (data : List UInt8) : List UInt8 :=
  let parts := pieces 65535 data
  let parts := if parts = [] then [[]] else parts
  (parts.zipIdx 1).flatMap fun (part, i) =>
    (if i = parts.length then (1 : UInt8) else 0) :: littleEndianBytes 2 part.length ++
      littleEndianBytes 2 (65535 - part.length) ++ part

def encode (r : Raster) : List UInt8 :=
  let lines := (pieces r.width r.pixels.toList).flatMap fun line =>
    (0 : UInt8) :: line.flatMap Color.channels
  signature ++
    Chunk.encode .header (bigEndian 4 r.width ++ bigEndian 4 r.height ++ [8, 6, 0, 0, 0]) ++
    Chunk.encode .data
      ([0x78, 0x01] ++ stored lines ++ bigEndian 4 (adler32 lines).toNat) ++
    Chunk.encode .fileEnd []

end PixelFlow.Picture.Png
