import PixelFlow.Event
import PixelFlow.Graph.Change
import PixelFlow.Graph.Order

/-!
# Edits

An `Edit` is a change of a graph as data. Performing it yields the new graph together with what
the edit answers, which nodes it makes dirty, and what is noted in the log.

* **`Graph.perform`**: make an edit or refuse it.
-/

namespace PixelFlow

inductive Edit
  /-- Add a prepared node. -/
  | add (node : Node)
  /-- Add a node whose identifiers are new. -/
  | addFresh (node : Node)
  | remove (node : NodeId)
  | connect (source sink : PortId)
  | connectNamed (fromNode : NodeId) (fromPort : String) (toNode : NodeId) (toPort : String)
  | disconnect (link : Link)
  | setParameters (node : NodeId) (parameters : Parameters)

namespace Edit

/-- What an edit answers. -/
inductive Answer
  | node (id : NodeId)
  | links (links : List Link)
  | link (link : Link)
  | flag (found : Bool)
  | done
deriving DecidableEq, Repr

/-- The outcome of an edit. -/
structure Result where
  graph : Graph
  answer : Answer
  /-- The nodes that are dirty because of the edit, once for each cause. -/
  touched : List NodeId
  notes : List Note

end Edit

namespace Graph

def performAdd (g' : Graph) (n : Node) : Edit.Result :=
  ⟨g', .node n.id, [n.id], [.added n.id n.metadata.id]⟩

def performRemove (g : Graph) (id : NodeId) : Edit.Result :=
  let links := g.incident id
  let g' := g.remove id
  { graph := g'
    answer := .links links
    touched := links.filterMap fun l => g'.owner? l.sink
    notes := if g.hasNode id then links.map .disconnected ++ [.removed id links.length] else [] }

def performConnect (g : Graph) (source sink : PortId) : Except GraphError Edit.Result := do
  let g' ← g.connect source sink
  let p ← g.port source
  let q ← g.port sink
  return ⟨g', .link ⟨source, sink⟩, (g'.owner? sink).toList,
    [.connected p.node q.node ⟨source, sink⟩]⟩

def performDisconnect (g : Graph) (l : Link) : Edit.Result :=
  if g.hasLink l then
    let g' := g.disconnect l
    ⟨g', .flag true, (g'.owner? l.sink).toList, [.disconnected l]⟩
  else ⟨g, .flag false, [], []⟩

def perform (g : Graph) : Edit → Except GraphError Edit.Result
  | .add n => do return (← g.add n).performAdd n
  | .addFresh n => return (g.insert n).performAdd n
  | .remove id => return g.performRemove id
  | .connect source sink => g.performConnect source sink
  | .connectNamed m p n q => do g.performConnect (← g.findPort m p) (← g.findPort n q)
  | .disconnect l => return g.performDisconnect l
  | .setParameters id parameters => do
    return ⟨← g.setParameters id parameters, .done, [id], []⟩

end Graph

end PixelFlow
