import PixelFlow.Picture.Format
import PixelFlow.Text.Lowercase
import PixelFlow.Variant

/-!
# Reading and showing pictures

* `Builtin.supportedExtensions`: the extensions of files that may be read.
* `Builtin.imageSourceOf`: the variant that reads pictures in a given way.
* `Builtin.imageSource`, `Builtin.imageOutput`: the variants.
-/

namespace PixelFlow.Builtin

def supportedExtensions : List String :=
  ["png", "jpg", "jpeg", "gif", "bmp", "tiff", "tif", "webp"]

def imageSourceCompute (load : Picture.Loader) : Compute Unit := do
  let path ← Compute.ask (·.text "path")
  let extension := Text.lowercase ((Path.extension? path).getD "")
  if extension ∉ supportedExtensions then
    Compute.ask fun c => throw (c.invalidParameter "path"
      s!"unsupported image format '{extension}'")
  let c ← get
  match load c.files path with
  | .error (.unreadable reason) => Compute.fail (.resource c.node path reason)
  | .error (.panic message) => Compute.panic (some message)
  | .ok p => Compute.setOutput "image" (.image (← Compute.newImage p (some path)))

/-- Reads a picture; since the file may change under its path, results are not remembered. -/
def imageSourceOf (load : Picture.Loader) : Variant where
  metadata :=
    { id := "image_source"
      name := "Image Source"
      category := .input
      description := "Load an image from a file path"
      ports := [.source "image" .image "The loaded image"]
      parameters := [⟨"path", .text "", "Path to the image file", [.notEmpty]⟩]
      execution := .asynchronous
      cacheable := false }
  compute := imageSourceCompute load

def imageSource : Variant := imageSourceOf Picture.load

/-- Passes its image on as a preview. -/
def imageOutput : Variant where
  metadata :=
    { id := "image_output"
      name := "Image Output"
      category := .output
      description := "Display the final image"
      ports :=
        [.sink "image" .image "Image to display", .source "preview" .image "Displayed image"]
      parameters := []
      execution := .synchronous
      cacheable := true }
  compute := do Compute.setOutput "preview" (.image (← Compute.ask (·.inputImage "image")))

end PixelFlow.Builtin
