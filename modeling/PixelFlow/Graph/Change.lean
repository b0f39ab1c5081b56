import PixelFlow.Graph.Reach

/-!
# Changes of a graph

Each change is checked first and then made as a whole, so a refused one leaves no trace. The
checks keep the graph acyclic, every sink fed by one link at most, and every link between a source
and a sink of one type.

* `Graph.add`, `Graph.remove`: nodes come and go with their ports and links.
* **`Graph.connect`**, `Graph.disconnect`: links; the node of the sink becomes dirty.
* `Graph.setParameters`: all or none of several parameters.
-/

namespace PixelFlow.Graph

/-! ## Nodes -/

/-- Put a node into the graph, dirty. -/
def insert (g : Graph) (n : Node) : Graph :=
  { g with
    nodes := g.nodes.insert n.id n.markDirty
    owners := g.owners.insertMany (n.portIds.map fun p => (p, n.id)) }

/-- Add a node whose identifier and ports are not in the graph. -/
def add (g : Graph) (n : Node) : Except GraphError Graph :=
  if g.hasNode n.id then .error (.duplicateNode n.id)
  else match n.portIds.find? g.owners.contains with
    | some p => .error (.duplicatePort p)
    | none => .ok (g.insert n)

/-- Remove a link, if it is there; the node of its sink becomes dirty. -/
def disconnect (g : Graph) (l : Link) : Graph :=
  if g.hasLink l then
    let g' := { g with links := g.links.erase l, incoming := g.incoming.erase l.sink }
    match g'.owner? l.sink with
    | some id => g'.markDirty id
    | none => g'
  else g

/-- The links that touch a node. -/
def incident (g : Graph) (id : NodeId) : List Link :=
  match g.node? id with
  | none => []
  | some n => g.links.filter fun l => l.source ∈ n.portIds || l.sink ∈ n.portIds

/-- Remove a node, if it is there, with its ports and every link that touches it. -/
def remove (g : Graph) (id : NodeId) : Graph :=
  match g.node? id with
  | none => g
  | some n =>
    let g := (g.incident id).foldl disconnect g
    { g with nodes := g.nodes.erase id, owners := n.portIds.foldl Table.erase g.owners }

/-- Remove all nodes and links. -/
def clear (_ : Graph) : Graph := empty

/-! ## Links -/

/-- Link a source to a sink. The errors come in the order of the checks. -/
def connect (g : Graph) (source sink : PortId) : Except GraphError Graph := do
  let p ← g.port source
  let q ← g.port sink
  if p.kind ≠ .source ∨ q.kind ≠ .sink then
    throw (.invalidEndpoints p.kind q.kind)
  else if !connectable p q then
    throw (.typeMismatch p.type q.type)
  else match g.incoming? sink with
    | some existing => throw (.sinkOccupied sink existing)
    | none =>
      if g.reaches q.node p.node then throw (.wouldCreateCycle p.node q.node)
      else
        let l : Link := ⟨source, sink⟩
        let links := if l ∈ g.links then g.links else g.links ++ [l]
        let g' := { g with links := links, incoming := g.incoming.insert sink l }
        return g'.markDirty q.node

/-! ## Parameters -/

/-- Check one parameter against its definition. -/
def checkParameter (n : Node) (id : NodeId) (name : String) (v : ParamValue) :
    Except GraphError Unit :=
  match n.metadata.parameter? name with
  | none => .error (.unknownParameter id name)
  | some d =>
    if d.default.sameKind v then .ok ()
    else .error (.parameterTypeMismatch id name d.default.kind.name v.kind.name)

/-- Set some parameters of a node, which becomes dirty. Each must be declared and of its kind. -/
def setParameters (g : Graph) (id : NodeId) (parameters : Parameters) :
    Except GraphError Graph := do
  let n ← g.node id
  parameters.entries.forM fun (name, v) => checkParameter n id name v
  return g.modifyNode id fun n =>
    { n with parameters := n.parameters.insertMany parameters.entries }.markDirty

end PixelFlow.Graph
