import PixelFlow.Variant

/-!
# What built-in computes read and write

* `inputRaster`, `outputRaster`: the pixels of an input, and a new image for an output.
* `methodParameter`: the method that the parameter `method` names.
-/

namespace PixelFlow.Builtin

/-- The pixels of the image at an input. -/
def inputRaster (name : String) : Compute Raster := do
  let image ← Compute.ask (·.inputImage name)
  match image.raster with
  | some r => return r
  | none => Compute.ask fun c => throw (c.processingError "Image has no data")

/-- Set an output to a new image. -/
def outputRaster (name : String) (r : Raster) : Compute Unit := do
  Compute.setOutput name (.image (← Compute.newImage r.picture none))

/-- The method that a parameter names. -/
def methodParameter {α : Type} (ofName : String → Except String α) (unknown : String → String) :
    Compute α :=
  Compute.ask fun c => do
    match ofName (← c.text "method") with
    | .ok m => return m
    | .error other => throw (c.invalidParameter "method" (unknown other))

end PixelFlow.Builtin
