import PixelFlow.Json.Parameter
import PixelFlow.Metadata
import PixelFlow.Node

/-!
# Ports, nodes and variants as JSON

* `Port.toJson`, `PortSpec.toJson`, `Link.toJson`: ports and links.
* `NodeState.toJson`: the state of a node.
* **`NodeMetadata.toJson`**, **`NodeMetadata.ofJson?`**: the metadata of a variant, in which
  `cacheable` may be missing.
-/

namespace PixelFlow

open Json (Fields)

namespace PortKind

def all : List PortKind := [source, sink]

def toJson (k : PortKind) : Json := .text k.name

def ofJson? : Json → Option PortKind := Json.choice? all name

end PortKind

namespace PortSpec

def toJson (s : PortSpec) : Json := .object [
  ("name", .text s.name), ("kind", s.kind.toJson), ("port_type", s.type.toJson),
  ("optional", .boolean s.isOptional), ("default_value", Json.ofOption Value.toJson s.default),
  ("description", .text s.description)]

def ofJson? (j : Json) : Option PortSpec := do
  let f ← j.record? ["name", "kind", "port_type", "optional", "default_value", "description"] []
  return { name := ← f.field? "name" (·.text?)
           kind := ← f.field? "kind" PortKind.ofJson?
           type := ← f.field? "port_type" PortType.ofJson?
           isOptional := ← f.field? "optional" (·.boolean?)
           default := ← f.optional? "default_value" Value.ofJson?
           description := ← f.field? "description" (·.text?) }

end PortSpec

namespace Port

def toJson (p : Port) : Json := .object [
  ("id", p.id.toJson), ("node_id", p.node.toJson), ("name", .text p.name),
  ("kind", p.kind.toJson), ("port_type", p.type.toJson), ("optional", .boolean p.isOptional),
  ("default_value", Json.ofOption Value.toJson p.default)]

def ofJson? (j : Json) : Option Port := do
  let f ← j.record?
    ["id", "node_id", "name", "kind", "port_type", "optional", "default_value"] []
  return { id := ← f.field? "id" PortId.ofJson?
           node := ← f.field? "node_id" NodeId.ofJson?
           name := ← f.field? "name" (·.text?)
           kind := ← f.field? "kind" PortKind.ofJson?
           type := ← f.field? "port_type" PortType.ofJson?
           isOptional := ← f.field? "optional" (·.boolean?)
           default := ← f.optional? "default_value" Value.ofJson? }

end Port

namespace Link

def toJson (l : Link) : Json := .object [("source", l.source.toJson), ("sink", l.sink.toJson)]

def ofJson? (j : Json) : Option Link := do
  let f ← j.record? ["source", "sink"] []
  return ⟨← f.field? "source" PortId.ofJson?, ← f.field? "sink" PortId.ofJson?⟩

end Link

namespace NodeState

def toJson : NodeState → Json
  | clean => .text "Clean"
  | dirty => .text "Dirty"
  | computing generation => Json.ofCase "Computing" (.integer generation)
  | waiting => .text "Waiting"
  | error => .text "Error"

def ofJson? (j : Json) : Option NodeState := do
  match ← j.case? with
  | ("Computing", some generation) => (generation.below? UInt64.size).map computing
  | (name, none) | (name, some .null) =>
    match name with
    | "Clean" => some clean
    | "Dirty" => some dirty
    | "Waiting" => some waiting
    | "Error" => some error
    | _ => none
  | _ => none

end NodeState

namespace Category

def all : List Category := [input, output, filter, color, constant, math, custom]

/-- The name of a category in documents. -/
def key : Category → String
  | input => "input"
  | output => "output"
  | filter => "filter"
  | color => "color"
  | constant => "constant"
  | math => "math"
  | custom => "custom"

def toJson (c : Category) : Json := .text c.key

def ofJson? : Json → Option Category := Json.choice? all key

end Category

namespace Execution

def all : List Execution := [synchronous, asynchronous]

/-- The name of a mode of execution in documents. -/
def key : Execution → String
  | synchronous => "synchronous"
  | asynchronous => "asynchronous"

def toJson (e : Execution) : Json := .text e.key

def ofJson? : Json → Option Execution := Json.choice? all key

end Execution

namespace NodeMetadata

def toJson (m : NodeMetadata) : Json := .object [
  ("id", .text m.id), ("name", .text m.name), ("category", m.category.toJson),
  ("description", .text m.description), ("ports", Json.ofList PortSpec.toJson m.ports),
  ("parameters", Json.ofList ParameterDefinition.toJson m.parameters),
  ("execution", m.execution.toJson), ("cacheable", .boolean m.cacheable)]

/-- Results may be remembered unless the document denies it. -/
def ofJson? (j : Json) : Option NodeMetadata := do
  let f ← j.record?
    ["id", "name", "category", "description", "ports", "parameters", "execution"] ["cacheable"]
  return { id := ← f.field? "id" (·.text?)
           name := ← f.field? "name" (·.text?)
           category := ← f.field? "category" Category.ofJson?
           description := ← f.field? "description" (·.text?)
           ports := ← f.field? "ports" (Json.list? PortSpec.ofJson?)
           parameters := ← f.field? "parameters" (Json.list? ParameterDefinition.ofJson?)
           execution := ← f.field? "execution" Execution.ofJson?
           cacheable := ← f.defaulted? "cacheable" true (·.boolean?) }

end NodeMetadata

end PixelFlow
