import PixelFlow.Picture
import PixelFlow.Uuid

/-!
# Images

An image is a picture with its dimensions, the file it came from and a revision. Each newly made
image has a revision of its own and copies share it, so that the revision stands for the pixels.
An image that was read from its description alone has no pixels.

* `Image.sameRevision`: the equality of images that programs see.
-/

namespace PixelFlow

structure ImageMetadata where
  width : UInt32
  height : UInt32
  /-- The path of the file that the image was read from. -/
  origin : Option String
deriving DecidableEq, Repr

structure Image where
  metadata : ImageMetadata
  revision : Uuid
  picture : Option Picture
deriving DecidableEq, Repr

namespace Image

def ofPicture (revision : Uuid) (p : Picture) (origin : Option String) : Image where
  metadata := ⟨.ofNat p.raster.width, .ofNat p.raster.height, origin⟩
  revision := revision
  picture := some p

def ofRaster (revision : Uuid) (r : Raster) (origin : Option String) : Image :=
  ofPicture revision r.picture origin

/-- The pixels of an image, if it has any. -/
def raster (i : Image) : Option Raster := i.picture.map (·.raster)

def sameRevision (a b : Image) : Bool := a.revision == b.revision

/-- The image without its pixels. -/
def described (i : Image) : Image := { i with picture := none }

end Image

end PixelFlow
