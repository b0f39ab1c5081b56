import PixelFlow.Json.Record
import PixelFlow.Port

/-!
# Values and identifiers as JSON

* `Uuid.toJson`: an identifier is its hyphenated text.
* `Image.toJson`: an image is its dimensions, origin and revision; its pixels are not written.
* **`Value.toJson`**, **`Value.ofJson?`**: a value is a tag beside its data.
-/

namespace PixelFlow

open Json (Fields)

namespace Uuid

def toJson (u : Uuid) : Json := .text u.text

def ofJson? (j : Json) : Option Uuid := j.text? >>= ofText?

end Uuid

namespace NodeId

def toJson (n : NodeId) : Json := n.uuid.toJson

def ofJson? (j : Json) : Option NodeId := (Uuid.ofJson? j).map mk

end NodeId

namespace PortId

def toJson (p : PortId) : Json := p.uuid.toJson

def ofJson? (j : Json) : Option PortId := (Uuid.ofJson? j).map mk

end PortId

namespace Color

def channelToJson (c : UInt8) : Json := .integer c.toNat

def channelOfJson? (j : Json) : Option UInt8 := (j.below? 256).map .ofNat

def toJson (c : Color) : Json := .object [
  ("r", channelToJson c.red), ("g", channelToJson c.green), ("b", channelToJson c.blue),
  ("a", channelToJson c.alpha)]

def ofJson? (j : Json) : Option Color := do
  let f ← j.record? ["r", "g", "b", "a"] []
  return { red := ← f.field? "r" channelOfJson?, green := ← f.field? "g" channelOfJson?
           blue := ← f.field? "b" channelOfJson?, alpha := ← f.field? "a" channelOfJson? }

end Color

namespace ImageMetadata

def sideToJson (n : UInt32) : Json := .integer n.toNat

def sideOfJson? (j : Json) : Option UInt32 := (j.below? UInt32.size).map .ofNat

def toJson (m : ImageMetadata) : Json := .object [
  ("width", sideToJson m.width), ("height", sideToJson m.height),
  ("origin", Json.ofOption .text m.origin)]

def ofJson? (j : Json) : Option ImageMetadata := do
  let f ← j.record? ["width", "height", "origin"] []
  return { width := ← f.field? "width" sideOfJson?, height := ← f.field? "height" sideOfJson?
           origin := ← f.optional? "origin" (·.text?) }

end ImageMetadata

namespace Image

def toJson (i : Image) : Json := .object [
  ("metadata", i.metadata.toJson), ("revision", i.revision.toJson)]

/-- The image without pixels. -/
def ofJson? (j : Json) : Option Image := do
  let f ← j.record? ["metadata", "revision"] []
  return { metadata := ← f.field? "metadata" ImageMetadata.ofJson?
           revision := ← f.field? "revision" Uuid.ofJson?
           picture := none }

end Image

namespace PortType

def all : List PortType := [image, number, color]

def toJson (t : PortType) : Json := .text t.name

def ofJson? : Json → Option PortType := Json.choice? all name

end PortType

namespace Value

def toJson (v : Value) : Json := Json.ofTagged "type" "data" v.type.name <|
  match v with
  | image i => i.toJson
  | number x => .ofNumber x
  | color c => c.toJson

def ofJson? (j : Json) : Option Value := do
  let (tag, data) ← j.tagged? "type" "data"
  let data ← data
  match tag with
  | "Image" => (Image.ofJson? data).map image
  | "Number" => data.number?.map number
  | "Color" => (Color.ofJson? data).map color
  | _ => none

end Value

end PixelFlow
