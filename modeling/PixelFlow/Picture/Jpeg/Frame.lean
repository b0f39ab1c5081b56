import PixelFlow.Picture.Jpeg.Table

/-!
# Frames and scans of JPEG files

A frame describes the picture: its dimensions and its channels. A scan describes the data that
follow it: the channels that they hold and the prefix codes for them.

* **`Frame.read`**: the description of a picture.
* **`Frame.readScan`**: the description of data.
-/

namespace PixelFlow.Picture.Jpeg

/-- A number that is a power of two. -/
def isPowerOfTwo (n : Nat) : Bool := n ≠ 0 ∧ n = 1 <<< n.log2

/-- The description of a picture, as far as scans refer to it. -/
structure Frame where
  /-- The names of the channels. -/
  channels : List Nat
deriving DecidableEq, Repr

namespace Frame

/-- Read a channel in the given position: its name, how often it is sampled, and the place of its
weights. -/
def readChannel (position : Nat) : Reader Nat := do
  let name ← number 3
  if places ≤ position then
    throw (.malformed
      s!"Unknown component id found,{position}, expected value between 1 and {places}")
  let across := name / 4096 % 16
  let down := name / 256 % 16
  let table := name % 256
  if places ≤ table then
    throw (.malformed
      s!"Too large quantization number :{table}, expected value between 0 and {places}")
  if !isPowerOfTwo across then
    throw (.malformed s!"Horizontal sample is not a power of two({across}) cannot decode")
  if !isPowerOfTwo down then
    throw (.malformed s!"Vertical sub-sample is not power of two({down}) cannot decode")
  return name / 65536

/-- Read the description of a picture, of which there may be but one. -/
def read (earlier : Option Frame) : Reader Frame := do
  if earlier.isSome then throw (.frame "Two Start of Frame Markers")
  let length ← number 2
  let precision ← number 1
  if precision ≠ 8 then
    throw (.frame (s!"The library can only parse 8-bit images, the image has {precision} bits " ++
      "of precision"))
  let height ← number 2
  let width ← number 2
  if width = 0 ∨ height = 0 then throw .empty
  let count ← number 1
  if count = 0 then throw (.frame "Number of components cannot be zero.")
  if length ≠ 8 + 3 * count then
    throw (.frame (s!"Length of start of frame differs from expected {8 + 3 * count},value is " ++
      s!"{length}"))
  return ⟨← (List.range count).mapM readChannel⟩

/-- Read the names of the channels of a scan, each with the places of its codes. -/
def readChannels (f : Frame) (seen : List Nat) : Nat → Reader Unit
  | 0 => return
  | n + 1 => do
    let name ← number 1
    if name ∈ seen then
      throw (.frame s!"Duplicate ID {name} seen twice in the same component")
    let _ ← number 1
    if name ∉ f.channels then
      throw (.frame
        s!"Invalid component id {name}, expected a value between 0 and {f.channels.length}")
    f.readChannels (name :: seen) n

/-- Read the description of data: the channels, and the range of frequencies and of bits that the
data tell. -/
def readScan (frame : Option Frame) : Reader Unit := do
  let length ← number 2
  let count ← number 1
  if length ≠ 6 + 2 * count then throw (.scan s!"Bad SOS length {length},corrupt jpeg")
  if count = 0 ∨ places < count then
    throw (.scan s!"Invalid number of components in start of scan {count}, expected in range 1..5")
  let some f := frame
    | throw (.malformed "Error decoding SOF Marker, Number of components cannot be zero.")
  f.readChannels [] count
  let first ← number 1
  let last ← number 1
  let bits ← number 1
  if 63 < last then throw (.scan s!"Invalid Se parameter {last}, range should be 0-63")
  if 63 < first then throw (.scan s!"Invalid Ss parameter {first}, range should be 0-63")
  if 13 < bits / 16 then throw (.scan "Invalid Ah parameter 0, range should be 0-13")
  if 13 < bits % 16 then throw (.scan s!"Invalid Al parameter {bits % 16}, range should be 0-13")

end Frame

end PixelFlow.Picture.Jpeg
