import PixelFlow.Image
import PixelFlow.Color.Hex
import PixelFlow.Decimal.Layout

/-!
# Values

A value is what a port carries: an image, a number or a color. Its tag is its port type, so a link
needs to be checked only once, when it is made.

* `Value.type`, `PortType.accepts`: the type of a value.
* `Value.agrees`: equality as values, by which `0` is `-0` and NaN differs from itself.
-/

namespace PixelFlow

/-- The type of a port. Two ports are compatible iff their types are equal. -/
inductive PortType
  | image
  | number
  | color
deriving DecidableEq, Repr

inductive Value
  | image (image : Image)
  | number (number : Number)
  | color (color : Color)
deriving DecidableEq, Repr

namespace PortType

def name : PortType → String
  | image => "Image"
  | number => "Number"
  | color => "Color"

instance : ToString PortType := ⟨name⟩

end PortType

namespace Value

instance : Inhabited Value := ⟨number 0⟩

def type : Value → PortType
  | image _ => .image
  | number _ => .number
  | color _ => .color

def image? : Value → Option Image
  | image i => some i
  | _ => none

def number? : Value → Option Number
  | number x => some x
  | _ => none

def color? : Value → Option Color
  | color c => some c
  | _ => none

/-- Equality of values; images are equal iff their revisions are. -/
def agrees : Value → Value → Bool
  | image i, image j => i.sameRevision j
  | number x, number y => x.ieeeEq y
  | color c, color d => c == d
  | _, _ => false

def display : Value → String
  | image i => s!"Image({i.metadata.width}x{i.metadata.height})"
  | number x => Decimal.Layout.plain.write x
  | color c => c.hex

end Value

/-- Whether a value is of a port type. -/
def PortType.accepts (t : PortType) (v : Value) : Bool := v.type == t

end PixelFlow
