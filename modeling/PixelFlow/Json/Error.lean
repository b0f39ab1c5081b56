import PixelFlow.Json.Metadata

/-!
# Errors as JSON

An error is an object whose one member has the name of the cause; its value is a record of what
the error names, or the one identifier that it names.

* **`GraphError.toJson`**, **`GraphError.ofJson?`**: the errors of graphs.
* **`ComputeError.toJson`**, **`ComputeError.ofJson?`**: the errors of computes.
-/

namespace PixelFlow

open Json (Fields)

namespace GraphError

def toJson : GraphError → Json
  | unknownNode n => Json.ofCase "UnknownNode" n.toJson
  | unknownPort p => Json.ofCase "UnknownPort" p.toJson
  | portNotFound n p =>
    Json.ofCase "PortNotFound" (.object [("node_id", n.toJson), ("port", .text p)])
  | invalidEndpoints j k =>
    Json.ofCase "InvalidEndpoints" (.object [("from_kind", j.toJson), ("to_kind", k.toJson)])
  | typeMismatch s t =>
    Json.ofCase "TypeMismatch" (.object [("from_type", s.toJson), ("to_type", t.toJson)])
  | sinkOccupied p l =>
    Json.ofCase "SinkOccupied" (.object [("sink", p.toJson), ("existing", l.toJson)])
  | wouldCreateCycle m n =>
    Json.ofCase "WouldCreateCycle" (.object [("from", m.toJson), ("to", n.toJson)])
  | duplicateNode n => Json.ofCase "DuplicateNode" n.toJson
  | duplicatePort p => Json.ofCase "DuplicatePort" p.toJson
  | cycleDetected l =>
    Json.ofCase "CycleDetected" (.object [("nodes", Json.ofList NodeId.toJson l)])
  | unknownParameter n p =>
    Json.ofCase "UnknownParameter" (.object [("node_id", n.toJson), ("name", .text p)])
  | parameterTypeMismatch n p expected got =>
    Json.ofCase "ParameterTypeMismatch" (.object [
      ("node_id", n.toJson), ("name", .text p), ("expected", .text expected), ("got", .text got)])

def ofJson? (j : Json) : Option GraphError := do
  let (name, payload) ← j.case?
  let payload ← payload
  match name with
  | "UnknownNode" => (NodeId.ofJson? payload).map unknownNode
  | "UnknownPort" => (PortId.ofJson? payload).map unknownPort
  | "PortNotFound" =>
    let f ← payload.record? ["node_id", "port"] []
    return portNotFound (← f.field? "node_id" NodeId.ofJson?) (← f.field? "port" (·.text?))
  | "InvalidEndpoints" =>
    let f ← payload.record? ["from_kind", "to_kind"] []
    return invalidEndpoints (← f.field? "from_kind" PortKind.ofJson?)
      (← f.field? "to_kind" PortKind.ofJson?)
  | "TypeMismatch" =>
    let f ← payload.record? ["from_type", "to_type"] []
    return typeMismatch (← f.field? "from_type" PortType.ofJson?)
      (← f.field? "to_type" PortType.ofJson?)
  | "SinkOccupied" =>
    let f ← payload.record? ["sink", "existing"] []
    return sinkOccupied (← f.field? "sink" PortId.ofJson?) (← f.field? "existing" Link.ofJson?)
  | "WouldCreateCycle" =>
    let f ← payload.record? ["from", "to"] []
    return wouldCreateCycle (← f.field? "from" NodeId.ofJson?) (← f.field? "to" NodeId.ofJson?)
  | "DuplicateNode" => (NodeId.ofJson? payload).map duplicateNode
  | "DuplicatePort" => (PortId.ofJson? payload).map duplicatePort
  | "CycleDetected" =>
    let f ← payload.record? ["nodes"] []
    return cycleDetected (← f.field? "nodes" (Json.list? NodeId.ofJson?))
  | "UnknownParameter" =>
    let f ← payload.record? ["node_id", "name"] []
    return unknownParameter (← f.field? "node_id" NodeId.ofJson?) (← f.field? "name" (·.text?))
  | "ParameterTypeMismatch" =>
    let f ← payload.record? ["node_id", "name", "expected", "got"] []
    return parameterTypeMismatch (← f.field? "node_id" NodeId.ofJson?)
      (← f.field? "name" (·.text?)) (← f.field? "expected" (·.text?)) (← f.field? "got" (·.text?))
  | _ => none

end GraphError

namespace ComputeError

/-- The record of an error that names a node and one text. -/
def noteToJson (name : String) (n : NodeId) (field s : String) : Json :=
  Json.ofCase name (.object [("node_id", n.toJson), (field, .text s)])

def toJson : ComputeError → Json
  | missingInput n p => noteToJson "MissingInput" n "port" p
  | invalidParameter n p reason =>
    Json.ofCase "InvalidParameter" (.object [
      ("node_id", n.toJson), ("parameter", .text p), ("reason", .text reason)])
  | resource n r reason =>
    Json.ofCase "Resource" (.object [
      ("node_id", n.toJson), ("resource", .text r), ("reason", .text reason)])
  | processing n reason => noteToJson "Processing" n "reason" reason
  | outputNotSet n p => noteToJson "OutputNotSet" n "port" p
  | outputTypeMismatch n p expected got =>
    Json.ofCase "OutputTypeMismatch" (.object [
      ("node_id", n.toJson), ("port", .text p), ("expected", expected.toJson),
      ("got", got.toJson)])
  | panicked n m => noteToJson "Panicked" n "message" m

/-- The node and the text of such a record. -/
def noteOfJson? (field : String) (j : Json) : Option (NodeId × String) := do
  let f ← j.record? ["node_id", field] []
  return (← f.field? "node_id" NodeId.ofJson?, ← f.field? field (·.text?))

def ofJson? (j : Json) : Option ComputeError := do
  let (name, payload) ← j.case?
  let payload ← payload
  match name with
  | "MissingInput" => (noteOfJson? "port" payload).map fun (n, p) => missingInput n p
  | "InvalidParameter" =>
    let f ← payload.record? ["node_id", "parameter", "reason"] []
    return invalidParameter (← f.field? "node_id" NodeId.ofJson?)
      (← f.field? "parameter" (·.text?)) (← f.field? "reason" (·.text?))
  | "Resource" =>
    let f ← payload.record? ["node_id", "resource", "reason"] []
    return resource (← f.field? "node_id" NodeId.ofJson?)
      (← f.field? "resource" (·.text?)) (← f.field? "reason" (·.text?))
  | "Processing" => (noteOfJson? "reason" payload).map fun (n, reason) => processing n reason
  | "OutputNotSet" => (noteOfJson? "port" payload).map fun (n, p) => outputNotSet n p
  | "OutputTypeMismatch" =>
    let f ← payload.record? ["node_id", "port", "expected", "got"] []
    return outputTypeMismatch (← f.field? "node_id" NodeId.ofJson?)
      (← f.field? "port" (·.text?)) (← f.field? "expected" PortType.ofJson?)
      (← f.field? "got" PortType.ofJson?)
  | "Panicked" => (noteOfJson? "message" payload).map fun (n, m) => panicked n m
  | _ => none

end ComputeError

end PixelFlow
