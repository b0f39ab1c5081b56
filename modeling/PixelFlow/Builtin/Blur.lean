import PixelFlow.Builtin.Access
import PixelFlow.Raster.Convolution
import PixelFlow.Text.Lowercase

/-!
# Blurring

The blur variant convolves an image with one of several kernels.

* `BlurMethod.ofName`: a method by its name in any case of the letters A to Z.
* `BlurMethod.filtered`: the filter of a method; the bell curve needs a positive deviation.
* `Builtin.blur`: the variant.
-/

namespace PixelFlow

inductive BlurMethod
  /-- The mean of 3×3 pixels. -/
  | box
  | gaussian3
  | gaussian5
  /-- A 3×3 cross that stresses the middle. -/
  | sharpen
  /-- The magnitude of the gradient. -/
  | sobel
  /-- The bell curve of a given deviation. -/
  | gaussian
deriving DecidableEq, Repr

namespace BlurMethod

def all : List BlurMethod := [box, gaussian3, gaussian5, sharpen, sobel, gaussian]

def name : BlurMethod → String
  | box => "box"
  | gaussian3 => "gaussian3"
  | gaussian5 => "gaussian5"
  | sharpen => "sharpen"
  | sobel => "sobel"
  | gaussian => "gaussian"

/-- The method of a name, or the name in lower case if there is none. -/
def ofName (s : String) : Except String BlurMethod :=
  match Text.asciiLowercase s with
  | "box" => .ok box
  | "gaussian3" => .ok gaussian3
  | "gaussian5" => .ok gaussian5
  | "sharpen" => .ok sharpen
  | "sobel" => .ok sobel
  | "gaussian" => .ok gaussian
  | other => .error other

def unknown (name : String) : String := s!"unknown blur method '{name}'"

/-- The number of the weights of a bell curve, counted in a word of 64 bits. -/
def weightCount (radius : Nat) : Nat := (2 * radius + 1) % UInt64.size

/-- What is wrong with a deviation: it is not positive, the weights, of four bytes each, fill half
of an address space of 64 bits, or there is none in the middle. -/
def sigmaFault? (sigma : Float32) : Option String :=
  let radius := Raster.gaussianRadius sigma
  let count := weightCount radius
  if !(0 < sigma) then some "sigma must be > 0.0"
  else if UInt64.size / 2 ≤ 4 * count then some "capacity overflow"
  else if count ≤ radius then
    some s!"index out of bounds: the len is {count} but the index is {radius}"
  else none

/-- Apply a method. A deviation that is no use for the bell curve makes a panic of the message. -/
def filtered (sigma : Float32) (r : Raster) : BlurMethod → Except String Raster
  | box => .ok (r.separable Raster.boxKernel)
  | gaussian3 => .ok (r.separable Raster.binomial3)
  | gaussian5 => .ok (r.separable Raster.binomial5)
  | sharpen => .ok r.sharpen
  | sobel => .ok r.sobel
  | gaussian =>
    match sigmaFault? sigma with
    | some message => .error message
    | none => .ok (r.separable (Raster.gaussianKernel sigma))

end BlurMethod

namespace Builtin

def blurCompute : Compute Unit := do
  let method ← methodParameter BlurMethod.ofName BlurMethod.unknown
  let sigma ← Compute.ask (·.number "sigma")
  let r ← inputRaster "image"
  match method.filtered sigma.toFloat.toFloat32 r with
  | .ok filtered => outputRaster "result" filtered
  | .error message => Compute.panic (some message)

def blur : Variant where
  metadata :=
    { id := "blur"
      name := "Blur"
      category := .filter
      description := "Convolve an image with a blur, sharpen or edge kernel"
      ports := [.sink "image" .image "Input image", .source "result" .image "Filtered image"]
      parameters :=
        [⟨"method", .text "box", "Kernel to apply", [.oneOf (BlurMethod.all.map (·.name))]⟩,
         ⟨"sigma", .number 2, "Standard deviation for the 'gaussian' method",
          [.range (.ofDecimal false 1 (-1)) 50]⟩]
      execution := .asynchronous
      cacheable := true }
  compute := blurCompute

end Builtin

end PixelFlow
