import PixelFlow.Variant

/-!
# Nodes

A node is an instance of a variant: it owns ports and parameters, and it keeps the state that the
engine propagates. Each background compute of a node has a generation, and only the latest one may
deliver its result.

* `Node.new`: a node with identifiers of its own.
* `Node.beginCompute`, `Node.accepts`: generations.
* `Node.inspect`: the one-line description of a node.
-/

namespace PixelFlow

inductive NodeState
  /-- The outputs agree with the current inputs. -/
  | clean
  /-- Inputs or parameters have changed and no compute has begun. -/
  | dirty
  /-- A compute of this generation is under way. -/
  | computing (generation : Nat)
  /-- A sink that needs a value has none. -/
  | waiting
  /-- The last compute failed. -/
  | error
deriving DecidableEq, Repr

namespace NodeState

/-- Whether a node has work left. -/
def isPending : NodeState → Bool
  | dirty | computing _ => true
  | _ => false

def isSettled (s : NodeState) : Bool := !s.isPending

def display : NodeState → String
  | clean => "clean"
  | dirty => "dirty"
  | computing g => s!"computing(#{g})"
  | waiting => "waiting"
  | error => "error"

/-- The description of a state in that of a node. -/
def inspect : NodeState → String
  | clean => "Clean"
  | dirty => "Dirty"
  | computing g => s!"Computing({g})"
  | waiting => "Waiting"
  | error => "Error"

end NodeState

structure Node where
  id : NodeId
  variant : Variant
  ports : List Port
  parameters : Parameters
  state : NodeState
  /-- The values of the last successful compute, by source port. -/
  outputs : Table PortId Value
  /-- The number of computes begun so far. -/
  generation : Nat
  /-- The error of the last failed compute, until one succeeds. -/
  lastError : Option ComputeError

namespace Node

def metadata (n : Node) : NodeMetadata := n.variant.metadata

/-- The node of a variant with given identifiers for itself and for each of its ports. -/
def build (v : Variant) (id : NodeId) (portId : Nat → PortId) : Node where
  id := id
  variant := v
  ports := v.metadata.ports.zipIdx.map fun (spec, i) => .ofSpec (portId i) id spec
  parameters := v.metadata.defaultParameters
  state := .dirty
  outputs := ∅
  generation := 0
  lastError := none

/-- The node of a variant with identifiers minted from a stamp. -/
def new (v : Variant) (stamp : Nat) : Node :=
  build v ⟨.mint stamp 0⟩ fun i => ⟨.mint stamp (i + 1)⟩

/-- The same node under another identifier, which its ports name too. -/
def withId (n : Node) (id : NodeId) : Node :=
  { n with id := id, ports := n.ports.map ({ · with node := id }) }

/-- Set a parameter without any check. -/
def withParameter (n : Node) (name : String) (v : ParamValue) : Node :=
  { n with parameters := n.parameters.insert name v }

def isAsynchronous (n : Node) : Bool := n.metadata.isAsynchronous

def portNamed? (n : Node) (name : String) : Option Port := n.ports.find? (·.name == name)

def sinks (n : Node) : List Port := n.ports.filter (·.isSink)

def sources (n : Node) : List Port := n.ports.filter (·.isSource)

def portIds (n : Node) : List PortId := n.ports.map (·.id)

/-! ## Propagation -/

def markDirty (n : Node) : Node := { n with state := .dirty }

def markWaiting (n : Node) : Node := { n with state := .waiting }

/-- Begin a compute of the next generation. -/
def beginCompute (n : Node) : Node :=
  { n with generation := n.generation + 1, state := .computing (n.generation + 1) }

/-- Whether the result of a generation is the one that is awaited. -/
def accepts (n : Node) (generation : Nat) : Bool :=
  n.generation == generation && n.state == .computing generation

def storeOutputs (n : Node) (outputs : Table PortId Value) : Node :=
  { n with outputs := outputs, lastError := none, state := .clean }

/-- Record a failure; the last good outputs stay. -/
def storeError (n : Node) (e : ComputeError) : Node :=
  { n with lastError := some e, state := .error }

/-! ## Description -/

end Node

/-- The description of a parameter value in that of a node. -/
def ParamValue.inspect : ParamValue → String
  | number x => "Number(" ++ Decimal.Layout.full.write x ++ ")"
  | integer n => s!"Integer({n.toInt})"
  | text s => "Text(" ++ Text.quoted s ++ ")"
  | boolean b => s!"Boolean({b})"
  | color c =>
    "Color(Color \x7b r: " ++ toString c.red ++ ", g: " ++ toString c.green ++ ", b: " ++
      toString c.blue ++ ", a: " ++ toString c.alpha ++ " \x7d)"

/-- A node in one line: its identifier, variant, parameters, state and generation. -/
def Node.inspect (names : Naming) (n : Node) : String :=
  let parameters := n.parameters.entries.map fun (name, v) => Text.quoted name ++ ": " ++ v.inspect
  "GraphNode \x7b id: NodeId(" ++ names.node n.id ++ "), variant: " ++ Text.quoted n.metadata.id ++
    ", parameters: Parameters(\x7b" ++ ", ".intercalate parameters ++ "\x7d), state: " ++
    n.state.inspect ++ ", generation: " ++ toString n.generation ++ " \x7d"

end PixelFlow
