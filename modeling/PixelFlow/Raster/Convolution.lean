import PixelFlow.Raster

/-!
# Convolution filters

All filters clamp coordinates to the edge of the raster and compute in single precision, adding
the terms of a kernel from left to right and from top to bottom.

* `separable`: a horizontal pass over all four channels, cut down to bytes, then a vertical one.
* `gaussianKernel`: the bell curve of a given deviation, scaled to sum one.
* `sharpen`: a 3×3 kernel over the color channels; the alpha channel is kept.
* `sobel`: the magnitude of the luminance gradient, as an opaque gray raster.
-/

namespace PixelFlow.Raster

/-- A weighted sum cut down to a byte. -/
def truncated (x : Float32) : UInt8 :=
  if x < 255 then if 0 < x then x.toUInt8 else 0 else 255

/-- A sum rounded to the nearest byte, halves upwards: half of the whole doubles, rounded up. -/
def nearestByte (x : Float32) : UInt8 :=
  if 255 < x then 255 else if 0 < x then .ofNat (((x + x).toUInt16.toNat + 1) / 2) else 0

/-- The sum of samples times weights. -/
def weighted (kernel : List Float32) (samples : List UInt8) : Float32 :=
  (kernel.zip samples).foldl (fun sum (w, s) => sum + s.toFloat32 * w) 0

/-- The four channels of a weighted sum of pixels. -/
def weightedPixel (kernel : List Float32) (pixels : List Pixel) : Pixel :=
  let channel (f : Pixel → UInt8) := truncated (weighted kernel (pixels.map f))
  ⟨channel (·.red), channel (·.green), channel (·.blue), channel (·.alpha)⟩

/-- The distances of the places under a kernel from its middle. -/
def offsets (length : Nat) : List Int :=
  (List.range length).map fun (i : Nat) => (i : Int) - (length / 2 : Nat)

def horizontal (kernel : List Float32) (r : Raster) : Raster :=
  ofFn r.width r.height fun x y =>
    weightedPixel kernel ((offsets kernel.length).map fun d => r.clamped (x + d) y)

def vertical (kernel : List Float32) (r : Raster) : Raster :=
  ofFn r.width r.height fun x y =>
    weightedPixel kernel ((offsets kernel.length).map fun d => r.clamped x (y + d))

def separable (kernel : List Float32) (r : Raster) : Raster := vertical kernel (horizontal kernel r)

/-! ## Kernels -/

def boxKernel : List Float32 := [1 / 3, 1 / 3, 1 / 3]

def binomial3 : List Float32 := [0.25, 0.5, 0.25]

def binomial5 : List Float32 := [1 / 16, 4 / 16, 6 / 16, 4 / 16, 1 / 16]

/-- The weight of the bell curve at a distance from its middle. -/
def bell (sigma : Float32) (distance : Nat) : Float32 :=
  let x := Float32.ofNat distance
  let circle : Float32 := Float32.ofBits 0x40c90fdb
  1 / (circle.sqrt * sigma) * (-(x * x) / (2 * (sigma * sigma))).exp

/-- The distance up to which the bell curve is followed. -/
def gaussianRadius (sigma : Float32) : Nat := (2 * sigma).ceil.toUInt64.toNat

def gaussianKernel (sigma : Float32) : List Float32 :=
  let half := (List.range (gaussianRadius sigma + 1)).map (bell sigma)
  let curve := half.tail.reverse ++ half
  let sum := curve.foldl (· + ·) 0
  curve.map (· / sum)

/-! ## Sharpening -/

/-- The weights of the sharpening kernel, row by row. -/
def sharpenKernel : List (List Float32) := [[0, -1, 0], [-1, 5, -1], [0, -1, 0]]

/-- The samples of one channel under a 3×3 kernel around a place, with their weights. -/
def taps {α : Type} (kernel : List (List α)) (r : Raster) (channel : Pixel → UInt8) (x y : Nat) :
    List (UInt8 × α) :=
  kernel.zipIdx.flatMap fun (row, j) => row.zipIdx.map fun (w, i) =>
    (channel (r.clamped ((x : Int) + i - 1) ((y : Int) + j - 1)), w)

/-- A sum with one more sample, times its weight. -/
def tapped (sum : Float32) (tap : UInt8 × Float32) : Float32 := sum + tap.1.toFloat32 * tap.2

/-- The sum of a 3×3 kernel around a place, over one channel. -/
def convolved (kernel : List (List Float32)) (r : Raster) (channel : Pixel → UInt8) (x y : Nat) :
    Float32 :=
  (taps kernel r channel x y).foldl tapped 0

def convolve3x3 (kernel : List (List Float32)) (r : Raster) : Raster :=
  ofFn r.width r.height fun x y =>
    let rounded (channel : Pixel → UInt8) := nearestByte (convolved kernel r channel x y)
    ⟨rounded (·.red), rounded (·.green), rounded (·.blue), (r.pixel x y).alpha⟩

def sharpen (r : Raster) : Raster := convolve3x3 sharpenKernel r

/-! ## Edges -/

/-- A sample as a part of the greatest one. -/
def fraction (sample : UInt8) : Float32 := sample.toFloat32 * (1 / 255)

/-- The luminance of a pixel, rounded to the nearest byte. The weights are those by which the
primaries (0.64, 0.33), (0.3, 0.6) and (0.15, 0.06) add up to the white (0.31272, 0.32903). -/
def luma (p : Pixel) : UInt8 :=
  let part : Float32 :=
    0.21264784 * fraction p.red + 0.7151792 * fraction p.green + 0.07217304 * fraction p.blue
  nearestByte (part * 255)

def sobelKernel : List (List Int) := [[-1, 0, 1], [-2, 0, 2], [-1, 0, 1]]

/-- The gradient of the luminance at a place, by a kernel. -/
def gradient (weight : Nat → Nat → Int) (r : Raster) (x y : Nat) : Int :=
  let terms := (List.range 3).flatMap fun (j : Nat) => (List.range 3).map fun (i : Nat) =>
    weight i j * (luma (r.clamped ((x : Int) + i - 1) ((y : Int) + j - 1))).toNat
  terms.foldr (· + ·) 0

def sobelWeight (i j : Nat) : Int := (sobelKernel.getD j []).getD i 0

def sobel (r : Raster) : Raster :=
  ofFn r.width r.height fun x y =>
    let dx := gradient sobelWeight r x y
    let dy := gradient (fun i j => sobelWeight j i) r x y
    let magnitude := (Float32.ofNat (dx * dx + dy * dy).toNat).sqrt.toUInt32
    let v := UInt8.ofNat (min magnitude.toNat 255)
    ⟨v, v, v, 255⟩

end PixelFlow.Raster
