import PixelFlow.Picture.Jpeg.Reader

/-!
# Tables in JPEG files

Two kinds of tables come before the data: weights, by which frequencies were divided, and prefix
codes. A segment holds any number of tables of one kind, and each table has one of four places.

* **`readWeights`**: a segment of weights.
* **`readCodes`**: a segment of prefix codes.
-/

namespace PixelFlow.Picture.Jpeg

/-- The number of places for tables of a kind, and the greatest number of channels. -/
def places : Nat := 4

/-! ## Weights -/

/-- Read tables of weights that take `length` bytes, for at most `fuel` of them. The number of bytes
of a weight and the place of the table come first. -/
def weightTables (length : Nat) : Nat → Reader Unit
  | 0 => return
  | fuel + 1 => do
    if length = 0 then return
    let description ← number 1
    let precision := description / 16
    let place := description % 16
    let size := 64 * (precision + 1)
    if length < size + 1 then
      throw (.weights (s!"Invalid QT table bytes left :{length}. Too small to construct a valid " ++
        s!"qt table which should be {size + 1} long"))
    match precision with
    | 0 => let _ ← take 64
    | 1 => for _ in List.range 64 do let _ ← number 2
    | p => throw (.weights s!"Expected QT precision value of either 0 or 1, found {p}")
    if places ≤ place then
      throw (.weights
        s!"Too large table position for QT :{place}, expected between 0 and {places - 1}")
    weightTables (length - (size + 1)) fuel

def readWeights : Reader Unit := do
  let length ← bodyLength fun _ => "Invalid DQT length. Length should be greater than 2"
  weightTables length length

/-! ## Prefix codes -/

/-- Whether words can be given in order to so many symbols of each length from `length` on, so that
none is made of ones alone; `next` is the first word of that length. -/
def wordsFit (next : Nat) (length : Nat) : List Nat → Bool
  | [] => true
  | count :: rest =>
    let after := next + count
    (count = 0 || after < 1 <<< length) && wordsFit (2 * after) (length + 1) rest

/-- Check a prefix code by the number of its words of each length and by its symbols, which are
below sixteen unless they stand for runs. -/
def checkCode (ofRuns : Bool) (counts symbols : List UInt8) : Reader Unit := do
  if !wordsFit 0 1 (counts.map UInt8.toNat) ∨ (!ofRuns ∧ symbols.any (15 < ·)) then
    throw (.code "Bad Huffman Table")

/-- Read prefix codes that take `length` bytes, for at most `fuel` of them. -/
def codeTables (length : Nat) : Nat → Reader Unit
  | 0 => return
  | fuel + 1 => do
    if length ≤ 16 then
      if 0 < length then throw (.malformed "Bogus Huffman table definition")
    else
      let description ← number 1
      let kind := description / 16
      let place := description % 16
      if places ≤ place then
        throw (.code s!"Invalid DHT index {place}, expected between 0 and {places - 1}")
      if 1 < kind then throw (.code s!"Invalid DHT position {kind}, should be 0 or 1")
      let counts ← take 16
      let left := length - 17
      let size := (counts.map UInt8.toNat).sum
      if 256 < size then
        throw (.malformed "Encountered Huffman table with excessive length in DHT")
      if left < size then
        throw (.code
          s!"Excessive Huffman table of length {size} found when header length is {left}")
      checkCode (kind = 1) counts (← take size)
      codeTables (left - size) fuel

def readCodes : Reader Unit := do
  let length ← bodyLength fun _ => "Invalid Huffman length in image"
  codeTables length (length + 1)

end PixelFlow.Picture.Jpeg
