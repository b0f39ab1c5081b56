import PixelFlow.Picture.Png.Contents
import PixelFlow.Raster

/-!
# Lines of pixels in PNG files

Each line starts with the number of a filter, by which its bytes are differences to their
neighbours; a sample takes some bits of a byte, a byte, or two.

* `unfiltered`: the bytes of a line.
* **`linePixels`**: the pixels of a line.
-/

namespace PixelFlow.Picture.Png

/-! ## Filters -/

/-- The neighbour that is nearest to a linear guess. -/
def paeth (left above corner : Nat) : Nat :=
  let guess : Int := (left : Int) + above - corner
  let far (n : Nat) := (guess - n).natAbs
  if far left ≤ far above ∧ far left ≤ far corner then left
  else if far above ≤ far corner then above
  else corner

/-- What a filter adds to a byte, by its neighbours to the left, above, and above to the left. -/
def prediction? (filter : Nat) (left above corner : Nat) : Option Nat :=
  match filter with
  | 0 => some 0
  | 1 => some left
  | 2 => some above
  | 3 => some ((left + above) / 2)
  | 4 => some (paeth left above corner)
  | _ => none

/-- Undo the filter of a line, given the line above and how far back the filter looks. -/
def unfiltered (filter distance : Nat) (above line : Array UInt8) : Except Fault (Array UInt8) :=
  (List.range line.size).foldlM (fun out i => do
    let byte (a : Array UInt8) (j : Nat) := (a.getD j 0).toNat
    let before (a : Array UInt8) := if distance ≤ i then byte a (i - distance) else 0
    match prediction? filter (before out) (byte above i) (before above) with
    | some p => return out.push (.ofNat ((line.getD i 0).toNat + p))
    | none => throw (.filterMethod filter)) #[]

/-- The next lines of `size` bytes, given the line above them; what is not there of it is zero. -/
def lines (distance size : Nat) (above : Array UInt8) :
    Nat → ByteReader Fault (List (Array UInt8))
  | 0 => return []
  | n + 1 => do
    let filter ← ByteReader.byte .tooFewLines
    let line ← ByteReader.take .tooFewLines size
    let line ← unfiltered filter distance above line.toArray
    return line :: (← lines distance size line n)

/-! ## Samples -/

/-- The samples in a line, the first one in the highest bits. -/
def lineSamples (depth : BitDepth) (line : List UInt8) : List Nat :=
  match depth with
  | .sixteen => (pieces 2 line).map bigEndianValue
  | d => unpacked d.bits line

/-- A sample in eight bits. -/
def sampleByte (depth : BitDepth) (sample : Nat) : UInt8 :=
  match depth with
  | .sixteen => Raster.narrowed sample
  | d => .ofNat (sample * (255 / ((1 <<< d.bits) - 1)))

/-- The samples of the transparent pixels, of two bytes each. If samples have no more than eight
bits only the second byte counts. -/
def keySamples (depth : BitDepth) (n : Nat) (body : List UInt8) : List Nat :=
  match depth with
  | .sixteen => (pieces 2 body).map bigEndianValue
  | _ => ((pieces 2 body).take n).map fun s => bigEndianValue (s.drop 1)

/-- The color at a place of a palette; black beyond its end. A list of opacities counts unless it
is longer than the palette. -/
def paletteColor (palette opacities : List UInt8) (i : Nat) : Pixel :=
  let opacities := if 3 * opacities.length ≤ palette.length then opacities else []
  match (palette.drop (3 * i)).take 3 with
  | [r, g, b] => ⟨r, g, b, opacities.getD i 255⟩
  | _ => .black

/-- The pixel of the given samples. -/
def Contents.pixel (c : Contents) (samples : List Nat) : Pixel :=
  let h := c.header
  match h.color with
  | .indexed => paletteColor (c.palette.getD []) (c.transparency.getD []) (samples.headD 0)
  | _ =>
    let p := Raster.pixelOfSamples (samples.map (sampleByte h.depth))
    if c.transparency.map (keySamples h.depth h.color.samples) = some samples then
      { p with alpha := 0 }
    else p

/-- The pixels of a line of `n` pixels. -/
def Contents.linePixels (c : Contents) (n : Nat) (line : Array UInt8) : List Pixel :=
  let k := c.header.color.samples
  (pieces k ((lineSamples c.header.depth line.toList).take (k * n))).map c.pixel

end PixelFlow.Picture.Png
