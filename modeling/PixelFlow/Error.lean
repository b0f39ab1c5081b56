import PixelFlow.Port

/-!
# Errors

A `GraphError` refuses a change of a graph; a `ComputeError` is the failure of one compute and is
kept on its node. Both name their causes; `message` words them, given a way to show identifiers.

* `Naming`: how identifiers are shown in messages.
* `GraphError.message`, `ComputeError.message`: the texts.
-/

namespace PixelFlow

/-- How nodes and ports are shown. -/
structure Naming where
  node : NodeId → String
  port : PortId → String

/-- Identifiers by their short form. -/
def Naming.short : Naming := ⟨fun n => n.uuid.short, fun p => p.uuid.short⟩

def Naming.link (names : Naming) (l : Link) : String :=
  names.port l.source ++ " -> " ++ names.port l.sink

inductive GraphError
  | unknownNode (node : NodeId)
  | unknownPort (port : PortId)
  | portNotFound (node : NodeId) (port : String)
  | invalidEndpoints (fromKind toKind : PortKind)
  | typeMismatch (fromType toType : PortType)
  | sinkOccupied (sink : PortId) (existing : Link)
  | wouldCreateCycle (fromNode toNode : NodeId)
  | duplicateNode (node : NodeId)
  | duplicatePort (port : PortId)
  | cycleDetected (nodes : List NodeId)
  | unknownParameter (node : NodeId) (name : String)
  | parameterTypeMismatch (node : NodeId) (name expected got : String)
deriving DecidableEq, Repr

inductive ComputeError
  | missingInput (node : NodeId) (port : String)
  | invalidParameter (node : NodeId) (parameter reason : String)
  | resource (node : NodeId) (resource reason : String)
  | processing (node : NodeId) (reason : String)
  | outputNotSet (node : NodeId) (port : String)
  | outputTypeMismatch (node : NodeId) (port : String) (expected got : PortType)
  | panicked (node : NodeId) (message : String)
deriving DecidableEq, Repr

namespace GraphError

/-- The node that an error is about, if it names one. -/
def node? : GraphError → Option NodeId
  | unknownNode n | duplicateNode n | portNotFound n _ | unknownParameter n _ => some n
  | parameterTypeMismatch n _ _ _ => some n
  | wouldCreateCycle _ n => some n
  | unknownPort _ | invalidEndpoints _ _ | typeMismatch _ _ | sinkOccupied _ _ => none
  | duplicatePort _ | cycleDetected _ => none

def message (names : Naming) : GraphError → String
  | unknownNode n => s!"Node {names.node n} not found"
  | unknownPort p => s!"Port {names.port p} not found"
  | portNotFound n p => s!"Port '{p}' not found on node {names.node n}"
  | invalidEndpoints j k => s!"A link must run from a source to a sink, got {j} -> {k}"
  | typeMismatch s t => s!"Cannot connect {s} to {t}"
  | sinkOccupied p l => s!"Sink {names.port p} is already fed by {names.link l}"
  | wouldCreateCycle m n =>
    s!"Connecting node {names.node m} to node {names.node n} would create a cycle"
  | duplicateNode n => s!"Node {names.node n} is already in the graph"
  | duplicatePort p => s!"Port {names.port p} already belongs to a node in the graph"
  | cycleDetected l => s!"Cycle detected among {l.length} node(s)"
  | unknownParameter n p => s!"Node {names.node n} has no parameter '{p}'"
  | parameterTypeMismatch n p expected got =>
    s!"Parameter '{p}' on node {names.node n} expects {expected}, got {got}"

end GraphError

namespace ComputeError

/-- The node that failed. -/
def node : ComputeError → NodeId
  | missingInput n _ | invalidParameter n _ _ | resource n _ _ | processing n _ => n
  | outputNotSet n _ | outputTypeMismatch n _ _ _ | panicked n _ => n

/-- Whether the only cause is an absent input. -/
def isMissingInput : ComputeError → Bool
  | missingInput _ _ => true
  | _ => false

def message (names : Naming) : ComputeError → String
  | missingInput n p => s!"Missing input '{p}' for node {names.node n}"
  | invalidParameter n p reason => s!"Invalid parameter '{p}' on node {names.node n}: {reason}"
  | resource n r reason => s!"Cannot read {r} for node {names.node n}: {reason}"
  | processing n reason => s!"Node {names.node n} failed: {reason}"
  | outputNotSet n p => s!"Output '{p}' was not set by node {names.node n}"
  | outputTypeMismatch n p expected got =>
    s!"Output '{p}' of node {names.node n} expects {expected}, got {got}"
  | panicked n m => s!"Node {names.node n} panicked: {m}"

end ComputeError

/-- An error of either sort, as it is reported to a user of the whole library. -/
inductive Failure
  | graph (error : GraphError)
  | compute (error : ComputeError)
deriving DecidableEq, Repr

def Failure.message (names : Naming) : Failure → String
  | graph e => "Graph error: " ++ e.message names
  | compute e => "Compute error: " ++ e.message names

end PixelFlow
