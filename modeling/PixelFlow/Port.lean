import PixelFlow.Value

/-!
# Ports

A port is an endpoint of a node. A source produces values and a sink consumes them. A `PortSpec`
is what a variant declares; a `Port` is the endpoint of one node that was made from it.

* `connectable`: whether a source may feed a sink.
* `Link`: a directed edge from a source to a sink.
-/

namespace PixelFlow

structure NodeId where
  uuid : Uuid
deriving DecidableEq, Hashable, Repr, Inhabited

structure PortId where
  uuid : Uuid
deriving DecidableEq, Hashable, Repr, Inhabited

inductive PortKind
  | source
  | sink
deriving DecidableEq, Repr

def PortKind.name : PortKind → String
  | source => "source"
  | sink => "sink"

instance : ToString PortKind := ⟨PortKind.name⟩

/-- The declaration of a port. -/
structure PortSpec where
  name : String
  kind : PortKind
  type : PortType
  /-- Whether the node computes without a value at this sink. -/
  isOptional : Bool
  /-- The value at this sink while it is not connected. -/
  default : Option Value
  description : String
deriving DecidableEq, Repr

namespace PortSpec

def source (name : String) (type : PortType) (description : String) : PortSpec :=
  ⟨name, .source, type, false, none, description⟩

/-- A sink that needs a value. -/
def sink (name : String) (type : PortType) (description : String) : PortSpec :=
  ⟨name, .sink, type, false, none, description⟩

def optional (s : PortSpec) : PortSpec := { s with isOptional := true }

/-- A sink with a default is optional. -/
def withDefault (s : PortSpec) (v : Value) : PortSpec :=
  { s with isOptional := true, default := some v }

end PortSpec

/-- An endpoint of one node. -/
structure Port where
  id : PortId
  /-- The node that the port names as its own. -/
  node : NodeId
  name : String
  kind : PortKind
  type : PortType
  isOptional : Bool
  default : Option Value
deriving DecidableEq, Repr

namespace Port

def ofSpec (id : PortId) (node : NodeId) (s : PortSpec) : Port :=
  ⟨id, node, s.name, s.kind, s.type, s.isOptional, s.default⟩

def isSource (p : Port) : Bool := p.kind == .source

def isSink (p : Port) : Bool := p.kind == .sink

end Port

/-- Whether one port may feed another as far as direction and type go. -/
def connectable (source sink : Port) : Bool :=
  source.isSource && sink.isSink && source.type == sink.type

/-- An edge from a source port to a sink port. -/
structure Link where
  source : PortId
  sink : PortId
deriving DecidableEq, Hashable, Repr

end PixelFlow
