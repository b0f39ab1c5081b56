import PixelFlow.Color.Model

/-!
# Headers of PNG files

* `Header`: the dimensions of a picture and how a pixel is made up of samples.
* `Header.passes`: the grids of pixels that follow each other in a file.
-/

namespace PixelFlow.Picture.Png

/-- What the samples of a pixel are. -/
inductive ColorType
  | gray
  | rgb
  /-- A place in a palette. -/
  | indexed
  | grayAlpha
  | rgba
deriving DecidableEq, Repr

namespace ColorType

/-- The color type with a number. -/
def ofNumber? : Nat → Option ColorType
  | 0 => some gray
  | 2 => some rgb
  | 3 => some indexed
  | 4 => some grayAlpha
  | 6 => some rgba
  | _ => none

def name : ColorType → String
  | gray => "Grayscale"
  | rgb => "Rgb"
  | indexed => "Indexed"
  | grayAlpha => "GrayscaleAlpha"
  | rgba => "Rgba"

/-- The number of samples of a pixel. -/
def samples : ColorType → Nat
  | gray | indexed => 1
  | grayAlpha => 2
  | rgb => 3
  | rgba => 4

end ColorType

/-- The number of bits of a sample. -/
inductive BitDepth
  | one
  | two
  | four
  | eight
  | sixteen
deriving DecidableEq, Repr

namespace BitDepth

def bits : BitDepth → Nat
  | one => 1
  | two => 2
  | four => 4
  | eight => 8
  | sixteen => 16

def name : BitDepth → String
  | one => "One"
  | two => "Two"
  | four => "Four"
  | eight => "Eight"
  | sixteen => "Sixteen"

def ofBits? (n : Nat) : Option BitDepth :=
  [one, two, four, eight, sixteen].find? fun d => d.bits = n

/-- Whether samples of a color type may have this many bits. -/
def suits (d : BitDepth) : ColorType → Bool
  | .gray => true
  | .indexed => d ≠ sixteen
  | _ => d = eight ∨ d = sixteen

end BitDepth

structure Header where
  width : Nat
  height : Nat
  depth : BitDepth
  color : ColorType
  interlaced : Bool
deriving DecidableEq, Repr

namespace Header

def bitsPerPixel (h : Header) : Nat := h.depth.bits * h.color.samples

/-- The bytes of `n` pixels in a line. -/
def lineSize (h : Header) (n : Nat) : Nat := (n * h.bitsPerPixel + 7) / 8

/-- How far back filters look in a line. -/
def filterDistance (h : Header) : Nat := max 1 (h.bitsPerPixel / 8)

/-- The color model in which pixels are handed out, with an alpha channel if some pixels are
transparent. -/
def model (h : Header) (transparent : Bool) : ColorModel where
  gray := h.color = .gray ∨ h.color = .grayAlpha
  alpha := transparent ∨ h.color = .grayAlpha ∨ h.color = .rgba
  wide := h.depth = .sixteen

end Header

/-! ## Passes -/

/-- A grid of pixels: its first column and row, and the distances between columns and rows. -/
structure Pass where
  left : Nat
  top : Nat
  columnStep : Nat
  rowStep : Nat
deriving DecidableEq, Repr

namespace Pass

/-- The one grid of all pixels. -/
def full : Pass := ⟨0, 0, 1, 1⟩

/-- The seven grids of interlaced pictures. -/
def interlaced : List Pass :=
  [⟨0, 0, 8, 8⟩, ⟨4, 0, 8, 8⟩, ⟨0, 4, 4, 8⟩, ⟨2, 0, 4, 4⟩, ⟨0, 2, 2, 4⟩, ⟨1, 0, 2, 2⟩, ⟨0, 1, 1, 2⟩]

/-- The number of columns in a picture of a width. -/
def columns (p : Pass) (width : Nat) : Nat := (width - p.left + p.columnStep - 1) / p.columnStep

/-- The number of rows in a picture of a height. -/
def rows (p : Pass) (height : Nat) : Nat := (height - p.top + p.rowStep - 1) / p.rowStep

/-- Whether the pixel in column `x` of row `y` is in the grid. -/
def covers (p : Pass) (x y : Nat) : Bool := x % p.columnStep == p.left && y % p.rowStep == p.top

end Pass

/-- The grids in which the pixels of a picture are stored; those without pixels are left out. -/
def Header.passes (h : Header) : List Pass :=
  (if h.interlaced then Pass.interlaced else [.full]).filter fun p =>
    0 < p.columns h.width ∧ 0 < p.rows h.height

end PixelFlow.Picture.Png
