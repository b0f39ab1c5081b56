/-!
# Color models

A color model says which channels the pixels of a picture have and how wide they are.

* `ColorModel.name`: the name of a model.
-/

namespace PixelFlow

structure ColorModel where
  /-- Whether there is one channel of gray in place of three colors. -/
  gray : Bool
  /-- Whether there is a channel of opacity. -/
  alpha : Bool
  /-- Whether channels have sixteen bits in place of eight. -/
  wide : Bool
deriving DecidableEq, Repr

namespace ColorModel

/-- Three colors of eight bits. -/
def rgb8 : ColorModel := ⟨false, false, false⟩

/-- Three colors and opacity of eight bits. -/
def rgba8 : ColorModel := ⟨false, true, false⟩

/-- Three colors and opacity of sixteen bits. -/
def rgba16 : ColorModel := ⟨false, true, true⟩

instance : Inhabited ColorModel := ⟨rgba8⟩

def name (m : ColorModel) : String :=
  (if m.gray then "L" else "Rgb") ++ (if m.alpha then "a" else "") ++
    (if m.wide then "16" else "8")

def channels (m : ColorModel) : Nat := (if m.gray then 1 else 3) + (if m.alpha then 1 else 0)

def bytesPerPixel (m : ColorModel) : Nat := if m.wide then 2 * m.channels else m.channels

end ColorModel

end PixelFlow
