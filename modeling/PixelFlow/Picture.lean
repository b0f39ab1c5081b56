import PixelFlow.Color.Model
import PixelFlow.Raster

/-!
# Pictures

A picture is a raster together with the color model in which its pixels are kept. A raster that
was computed keeps colors and opacity in eight bits each.
-/

namespace PixelFlow

structure Picture where
  raster : Raster
  model : ColorModel
deriving DecidableEq, Repr

/-- The most bytes that the pixels of a picture in a file may take. -/
def Picture.memoryLimit : Nat := 512 * 1024 * 1024

/-- Why no picture comes of a file. -/
inductive Picture.Failure
  /-- The file cannot be read, or there is no picture in it. -/
  | unreadable (reason : String)
  /-- The reader breaks off over what it finds. -/
  | panic (message : String)
deriving DecidableEq, Repr

/-- A raster as a picture. -/
def Raster.picture (r : Raster) : Picture := ⟨r, .rgba8⟩

end PixelFlow
