import PixelFlow.Picture.Bmp.Header

/-!
# Runs of pixels in BMP files

Places in a palette may be stored as runs: a count and a value, or a mark with which lists of
values, jumps and ends of lines begin. The lowest line comes first; what is jumped over is black.

* `steps`: what the bytes of a file say, step by step.
* **`painted`**: the raster that steps paint.
-/

namespace PixelFlow.Picture.Bmp

/-- A step of painting. -/
inductive Step
  /-- A run of pixels to the right, each by its place in the palette. What reaches beyond the line
  does not count. -/
  | run (places : List Nat)
  /-- A list of pixels to the right. One that reaches beyond the line ends the picture. -/
  | list (places : List Nat)
  | lineEnd
  | pictureEnd
  /-- Go to the right and up. -/
  | jump (right up : Nat)
  /-- The file ends within a step. -/
  | cut (fault : Fault)
deriving DecidableEq, Repr

/-- The bytes of a list of `n` places, with one more if they are odd in number. -/
def listSize (bits n : Nat) : Nat :=
  let size := (n * bits + 7) / 8
  size + size % 2

/-- What is wrong with steps that lead out of the picture, or that there are too few of. -/
def corruptRuns : Fault := .malformed "Corrupt RLE data"

/-- The steps in a sequence of bytes. They have to be whole; a list of which the bytes are not all
there is a fault of its own. -/
def steps (bits : Nat) : List UInt8 → List Step
  | 0 :: 0 :: rest => .lineEnd :: steps bits rest
  | 0 :: 1 :: _ => [.pictureEnd]
  | 0 :: 2 :: right :: up :: rest => .jump right.toNat up.toNat :: steps bits rest
  | 0 :: 2 :: _ => [.cut corruptRuns]
  | 0 :: n :: rest =>
    let size := listSize bits n.toNat
    if rest.length < size then [.cut .cutShort]
    else .list ((unpacked bits (rest.take size)).take n.toNat) :: steps bits (rest.drop size)
  | n :: value :: rest =>
    .run ((unpacked bits (.replicate n.toNat value)).take n.toNat) :: steps bits rest
  | _ => [.cut corruptRuns]
termination_by bytes => bytes.length
decreasing_by all_goals simp only [List.length_cons, List.length_drop]; omega

/-- Pixels to the right of a place, each by its place in the palette. -/
structure Stroke where
  x : Nat
  y : Nat
  places : List Nat
deriving DecidableEq, Repr

/-- Follow the steps from column `x` of row `y` on, up to the end of the picture or of its last
line. -/
def follow (width height x y : Nat) : List Step → Except Fault (List Stroke)
  | [] => return []
  | step :: rest =>
    if height ≤ y then return []
    else match step with
      | .run places => do
        let next := min (x + places.length) width
        return ⟨x, y, places⟩ :: (← follow width height next y rest)
      | .list places => do
        if width < x + places.length then return [⟨x, y, places⟩]
        return ⟨x, y, places⟩ :: (← follow width height (x + places.length) y rest)
      | .lineEnd => follow width height 0 (y + 1) rest
      | .pictureEnd => return []
      | .jump right up =>
        if width < x + right ∨ height ≤ y + up then throw corruptRuns
        else follow width height (x + right) (y + up) rest
      | .cut fault => throw fault

/-- Draw a stroke, up to the end of its line, on lines of the given width from the lowest one on. -/
def Stroke.draw (color : Nat → Pixel) (width : Nat) (pixels : Array Pixel) (s : Stroke) :
    Array Pixel :=
  ((s.places.take (width - s.x)).zipIdx (s.y * width + s.x)).foldl
    (fun pixels (place, i) => pixels.setIfInBounds i (color place)) pixels

/-- The raster that a sequence of bytes paints in the colors of a palette. -/
def painted (h : Header) (bits : Nat) (bytes : List UInt8) : Except Fault Raster := do
  let strokes ← follow h.width h.height 0 0 (steps bits bytes)
  let blank : Array Pixel := .replicate (h.width * h.height) .black
  let pixels := strokes.foldl (Stroke.draw (fun i => h.palette.getD i .black) h.width) blank
  return .ofFn h.width h.height fun x y =>
    pixels.getD ((h.height - 1 - y) * h.width + x) .black

end PixelFlow.Picture.Bmp
