/-!
# Colors

A color has four channels of eight bits; the fourth is its opacity.
-/

namespace PixelFlow

structure Color where
  red : UInt8
  green : UInt8
  blue : UInt8
  alpha : UInt8
deriving DecidableEq, Hashable, Repr

namespace Color

/-- An opaque color. -/
def opaqueRGB (r g b : UInt8) : Color := ⟨r, g, b, 255⟩

def white : Color := opaqueRGB 255 255 255

def black : Color := opaqueRGB 0 0 0

/-- The brown of old photographs. -/
def sepia : Color := opaqueRGB 112 66 20

instance : Inhabited Color := ⟨black⟩

def channels (c : Color) : List UInt8 := [c.red, c.green, c.blue, c.alpha]

end Color

end PixelFlow
