import PixelFlow.Graph.Basic

/-!
# Topological order

Nodes are taken from a queue once all nodes that feed them have been taken. Ties go to the node
that was inserted first.

* **`Graph.topologicalOrder`**: all nodes, each after those that feed it, or the nodes that a
  cycle keeps from being taken.
-/

namespace PixelFlow.Graph

/-- How many distinct nodes feed each node directly. -/
def inDegrees (g : Graph) : Table NodeId Nat :=
  (g.nodeIds.flatMap g.successors).foldl (fun t id => t.modify id (· + 1)) (g.nodes.map fun _ => 0)

/-- Take one feeding node off the count of a node; its name is queued when none is left. -/
def release (degrees : Table NodeId Nat) (queue : List NodeId) (id : NodeId) :
    Table NodeId Nat × List NodeId :=
  match degrees.get? id with
  | none => (degrees, queue)
  | some d => (degrees.insert id (d - 1), if d - 1 = 0 then queue ++ [id] else queue)

/-- Take at most `fuel` nodes from the queue; the taken ones are in order. -/
def takeReady (g : Graph) : Nat → Table NodeId Nat → List NodeId → List NodeId →
    Table NodeId Nat × List NodeId
  | 0, degrees, _, taken => (degrees, taken)
  | _ + 1, degrees, [], taken => (degrees, taken)
  | fuel + 1, degrees, id :: queue, taken =>
    let (degrees, queue) := (g.successors id).foldl (fun (d, q) s => release d q s) (degrees, queue)
    takeReady g fuel degrees queue (taken ++ [id])

/-- The nodes whose count is `0`, or is not. -/
def withDegree (degrees : Table NodeId Nat) (zero : Bool) : List NodeId :=
  (degrees.entries.filter fun (_, d) => (d == 0) == zero).map Prod.fst

def topologicalOrder (g : Graph) : Except GraphError (List NodeId) :=
  let degrees := g.inDegrees
  let (left, taken) := g.takeReady g.nodes.size degrees (withDegree degrees true) []
  if taken.length = g.nodes.size then .ok taken else .error (.cycleDetected (withDegree left false))

def hasCycle (g : Graph) : Bool :=
  match g.topologicalOrder with
  | .ok _ => false
  | .error _ => true

end PixelFlow.Graph
