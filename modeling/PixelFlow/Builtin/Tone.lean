import PixelFlow.Builtin.Access

/-!
# Brightness and toning

* `Raster.brightened`: add a whole number to every color channel.
* `Raster.toned`: map the luminance onto a tone, blended with the untoned color.
* `Builtin.brightness`, `Builtin.sepia`: the variants.
-/

namespace PixelFlow

namespace Raster

/-- A channel plus a whole number, kept within a byte. -/
def shifted (amount : Int) (channel : UInt8) : UInt8 :=
  .ofNat (min 255 (channel.toNat + amount).toNat)

def brightened (amount : Int) : Raster → Raster :=
  map fun p => ⟨shifted amount p.red, shifted amount p.green, shifted amount p.blue, p.alpha⟩

/-- A value kept between zero and 255. -/
def limited (x : Float32) : Float32 := if x < 0 then 0 else if 255 < x then 255 else x

/-- The factors of a tone: its channels by their mean, or zero for black. -/
def toneScale (tone : Color) : Float32 × Float32 × Float32 :=
  let r := tone.red.toFloat32
  let g := tone.green.toFloat32
  let b := tone.blue.toFloat32
  let mean := (r + g + b) / 3
  if 0 < mean then (r / mean, g / mean, b / mean) else (0, 0, 0)

/-- A channel blended with the luminance times the factor of its tone. -/
def blended (intensity luma scale : Float32) (channel : UInt8) : UInt8 :=
  let untoned := channel.toFloat32
  let toned := limited (luma * scale)
  (limited (untoned + (toned - untoned) * intensity).round).toUInt8

def toned (tone : Color) (intensity : Float32) : Raster → Raster :=
  let (r, g, b) := toneScale tone
  map fun p =>
    let luma := 0.299 * p.red.toFloat32 + 0.587 * p.green.toFloat32 + 0.114 * p.blue.toFloat32
    ⟨blended intensity luma r p.red, blended intensity luma g p.green,
     blended intensity luma b p.blue, p.alpha⟩

end Raster

namespace Builtin

/-- The greatest change of brightness. -/
def greatestAmount : Int := 255

def brightnessCompute : Compute Unit := do
  let amount ← Compute.ask fun c =>
    if c.hasInput "amount" then c.inputNumber "amount" else c.number "amount"
  match amount.round? with
  | none => Compute.ask fun c => throw (c.invalidParameter "amount" "must be finite")
  | some n =>
    let r ← inputRaster "image"
    outputRaster "result" (r.brightened (max (-greatestAmount) (min greatestAmount n)))

def brightness : Variant where
  metadata :=
    { id := "brightness"
      name := "Brightness"
      category := .color
      description := "Adjust the brightness of an image"
      ports :=
        [.sink "image" .image "Input image",
         (PortSpec.sink "amount" .number
          "Overrides the amount parameter when connected").optional,
         .source "result" .image "Adjusted image"]
      parameters :=
        [⟨"amount", .number 0, "Value added to each channel (-255 to 255)",
          [.range (.ofInt (-greatestAmount)) (.ofInt greatestAmount)]⟩]
      execution := .asynchronous
      cacheable := true }
  compute := brightnessCompute

/-- A number kept between zero and one; NaN stays. -/
def unitInterval (x : Number) : Number := if x.lt 0 then 0 else if Number.lt 1 x then 1 else x

def sepiaCompute : Compute Unit := do
  let tone ← Compute.ask fun c => if c.hasInput "tone" then c.inputColor "tone" else .ok .sepia
  let intensity ← Compute.ask (·.number "intensity")
  let r ← inputRaster "image"
  outputRaster "result" (r.toned tone (unitInterval intensity).toFloat.toFloat32)

def sepia : Variant where
  metadata :=
    { id := "sepia"
      name := "Sepia"
      category := .color
      description := "Tone an image with a color, classic sepia by default"
      ports :=
        [.sink "image" .image "Input image",
         (PortSpec.sink "tone" .color "Tone color").withDefault (.color .sepia),
         .source "result" .image "Toned image"]
      parameters :=
        [⟨"intensity", .number 1, "Blend between original (0) and fully toned (1)",
          [.range 0 1]⟩]
      execution := .asynchronous
      cacheable := true }
  compute := sepiaCompute

end Builtin

end PixelFlow
