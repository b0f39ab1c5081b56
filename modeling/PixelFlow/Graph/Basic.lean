import PixelFlow.Node

/-!
# Graphs

A graph holds nodes and links. Beside them it keeps the owner of every port and the one link that
enters each occupied sink.

* `Graph.node?`, `Graph.port?`: look-up by identifier.
* `Graph.successors`, `Graph.predecessors`: the neighbours of a node along links.
* `Graph.linkedValue?`: the value at a connected sink.
-/

namespace PixelFlow

structure Graph where
  nodes : Table NodeId Node
  /-- The node that owns each port. -/
  owners : Table PortId NodeId
  links : List Link
  /-- The link that enters each occupied sink. -/
  incoming : Table PortId Link

namespace Graph

def empty : Graph := ⟨∅, ∅, [], ∅⟩

instance : Inhabited Graph := ⟨empty⟩

/-! ## Nodes and ports -/

def node? (g : Graph) (id : NodeId) : Option Node := g.nodes.get? id

def node (g : Graph) (id : NodeId) : Except GraphError Node :=
  match g.node? id with
  | some n => .ok n
  | none => .error (.unknownNode id)

def hasNode (g : Graph) (id : NodeId) : Bool := g.nodes.contains id

def nodeIds (g : Graph) : List NodeId := g.nodes.keys

def nodeList (g : Graph) : List Node := g.nodes.values

def owner? (g : Graph) (p : PortId) : Option NodeId := g.owners.get? p

def port? (g : Graph) (p : PortId) : Option Port := do
  (← g.node? (← g.owner? p)).ports.find? (·.id == p)

def port (g : Graph) (p : PortId) : Except GraphError Port :=
  match g.port? p with
  | some q => .ok q
  | none => .error (.unknownPort p)

/-- The first port of a node with a name. -/
def findPort (g : Graph) (id : NodeId) (name : String) : Except GraphError PortId := do
  match (← g.node id).portNamed? name with
  | some p => return p.id
  | none => throw (.portNotFound id name)

/-! ## Links -/

def hasLink (g : Graph) (l : Link) : Bool := l ∈ g.links

def incoming? (g : Graph) (sink : PortId) : Option Link := g.incoming.get? sink

/-- The links that leave a node. -/
def linksFrom (g : Graph) (id : NodeId) : List Link :=
  g.links.filter fun l => g.owner? l.source == some id

/-- The links that enter a node. -/
def linksTo (g : Graph) (id : NodeId) : List Link :=
  g.links.filter fun l => g.owner? l.sink == some id

/-- The members of a list in the order of their first occurrence. -/
def distinct {α : Type} [DecidableEq α] (l : List α) : List α :=
  l.foldl (fun seen a => if a ∈ seen then seen else seen ++ [a]) []

/-- The nodes that a node feeds directly, each once, in the order of links. -/
def successors (g : Graph) (id : NodeId) : List NodeId :=
  distinct ((g.linksFrom id).filterMap fun l => g.owner? l.sink)

/-- The nodes that feed a node directly, each once, in the order of links. -/
def predecessors (g : Graph) (id : NodeId) : List NodeId :=
  distinct ((g.linksTo id).filterMap fun l => g.owner? l.source)

/-- The value that the link into a sink carries, if there is one yet. -/
def linkedValue? (g : Graph) (sink : PortId) : Option Value := do
  let l ← g.incoming? sink
  (← g.node? (← g.owner? l.source)).outputs.get? l.source

/-- Change a node that is in the graph. -/
def modifyNode (g : Graph) (id : NodeId) (f : Node → Node) : Graph :=
  { g with nodes := g.nodes.modify id f }

def markDirty (g : Graph) (id : NodeId) : Graph := g.modifyNode id (·.markDirty)

end Graph

end PixelFlow
