import PixelFlow.Color

/-!
# Rasters

A raster is a rectangle of pixels with eight bits a channel, stored row by row.

* `Raster.pixel`, `Raster.clamped`: the pixel at a place, or at the nearest place in the raster.
* `Raster.ofFn`, `Raster.map`: rasters from a function of the place or of the pixel.
* `Raster.pixel_ofFn`: a raster from a function has the function's pixels.
-/

namespace PixelFlow

abbrev Pixel := Color

structure Raster where
  width : Nat
  height : Nat
  pixels : Array Pixel
  size_pixels : pixels.size = width * height
deriving DecidableEq, Repr

namespace Raster

instance : Inhabited Raster := ⟨⟨0, 0, #[], rfl⟩⟩

theorem index_lt {w h x y : Nat} (hx : x < w) (hy : y < h) : y * w + x < w * h := by
  have : (y + 1) * w ≤ h * w := Nat.mul_le_mul_right _ hy
  rw [Nat.mul_comm w h]
  rw [Nat.add_mul, Nat.one_mul] at this
  omega

/-- The pixel in column `x` of row `y`; black outside of the raster. -/
def pixel (r : Raster) (x y : Nat) : Pixel :=
  if h : x < r.width ∧ y < r.height then
    have := r.size_pixels ▸ index_lt h.1 h.2
    r.pixels[y * r.width + x]
  else default

/-- The pixel at the place of the raster that is nearest to the given one. -/
def clamped (r : Raster) (x y : Int) : Pixel :=
  r.pixel (min x.toNat (r.width - 1)) (min y.toNat (r.height - 1))

/-- The raster with the given pixel at each place. -/
def ofFn (width height : Nat) (f : Nat → Nat → Pixel) : Raster where
  width := width
  height := height
  pixels := Array.ofFn fun i : Fin (width * height) => f (i % width) (i / width)
  size_pixels := by simp

theorem pixel_ofFn (f : Nat → Nat → Pixel) {w h x y : Nat} (hx : x < w) (hy : y < h) :
    (ofFn w h f).pixel x y = f x y := by
  have hw : 0 < w := Nat.lt_of_le_of_lt (Nat.zero_le _) hx
  simp only [Raster.pixel, ofFn, hx, hy, and_self, dite_true, Array.getElem_ofFn]
  rw [Nat.add_comm, Nat.add_mul_mod_self_right, Nat.mod_eq_of_lt hx,
    Nat.add_mul_div_right _ _ hw, Nat.div_eq_of_lt hx, Nat.zero_add]

def map (f : Pixel → Pixel) (r : Raster) : Raster where
  width := r.width
  height := r.height
  pixels := r.pixels.map f
  size_pixels := by simp [r.size_pixels]

/-- The raster without its opacity. -/
def opaqueCopy (r : Raster) : Raster := r.map fun p => { p with alpha := 255 }

/-- The channels of all pixels, in order. -/
def bytes (r : Raster) : List UInt8 := r.pixels.toList.flatMap Color.channels

/-- The raster of a list of pixels; missing ones are black and surplus ones are dropped. -/
def ofPixels (width height : Nat) (pixels : Array Pixel) : Raster :=
  ofFn width height fun x y => pixels.getD (y * width + x) default

/-! ## Pixels from samples -/

/-- The bytes that stand for one pixel in a picture with `n` channels of eight bits: gray, gray
with alpha, three colors, or three colors with alpha. -/
def pixelOfSamples : List UInt8 → Pixel
  | [l] => ⟨l, l, l, 255⟩
  | [l, a] => ⟨l, l, l, a⟩
  | [r, g, b] => ⟨r, g, b, 255⟩
  | [r, g, b, a] => ⟨r, g, b, a⟩
  | _ => default

/-- A sixteen-bit sample in eight bits. -/
def narrowed (sample : Nat) : UInt8 := .ofNat ((sample + 128) / 257)

end Raster

end PixelFlow
