import PixelFlow.Variant

/-!
# Constants

The variants whose only output is the value of their only parameter.

* `Builtin.number`, `Builtin.color`: the variants.
-/

namespace PixelFlow.Builtin

def number : Variant where
  metadata :=
    { id := "number"
      name := "Number"
      category := .constant
      description := "Output a constant number"
      ports := [.source "value" .number ""]
      parameters := [⟨"value", .number 0, "The number", []⟩]
      execution := .synchronous
      cacheable := true }
  compute := do Compute.setOutput "value" (.number (← Compute.ask (·.number "value")))

def color : Variant where
  metadata :=
    { id := "color"
      name := "Color"
      category := .constant
      description := "Output a constant color"
      ports := [.source "color" .color ""]
      parameters := [⟨"color", .color .white, "The color", []⟩]
      execution := .synchronous
      cacheable := true }
  compute := do Compute.setOutput "color" (.color (← Compute.ask (·.color "color")))

end PixelFlow.Builtin
