import PixelFlow.Cache
import PixelFlow.Graph.Change

/-!
# Snapshots and jobs

A compute sees a snapshot: the parameters of its node and, for each sink, the value that the link
into it carries or else the default of the sink. A background compute is a job, tagged with the
generation that it is to deliver.

* `Graph.inputs`: the snapshot of the sinks, or the first sink that lacks its value.
* `Node.context`: the context of a compute.
* `Job.complete`: what a job delivers.
-/

namespace PixelFlow

/-- The value at a sink: from the link into it, else its default. -/
def Graph.inputAt? (g : Graph) (sink : Port) : Option Value :=
  match g.linkedValue? sink.id with
  | some v => some v
  | none => sink.default

/-- Collect the values at sinks in order; the error is the name of a sink that lacks its value. -/
def Graph.collectInputs (g : Graph) : List Port → Table String Value →
    Except String (Table String Value)
  | [], inputs => .ok inputs
  | sink :: sinks, inputs =>
    match g.inputAt? sink with
    | some v => g.collectInputs sinks (inputs.insert sink.name v)
    | none => if sink.isOptional then g.collectInputs sinks inputs else .error sink.name

def Graph.inputs (g : Graph) (n : Node) : Except String (Table String Value) :=
  g.collectInputs n.sinks ∅

/-- The context in which a node computes on given inputs. -/
def Node.context (n : Node) (inputs : Table String Value) (stamp : Nat) (files : FileStore) :
    Context where
  node := n.id
  inputs := inputs
  parameters := n.parameters
  declared := Table.ofList (n.sources.map fun p => (p.name, p.type))
  outputs := ∅
  stamp := stamp
  made := 0
  files := files

/-- A background compute that has not delivered yet. -/
structure Job where
  /-- Its number in the order of dispatch. -/
  number : Nat
  node : NodeId
  generation : Nat
  variant : Variant
  context : Context
  /-- Where to remember the result, if at all. -/
  key : Option CacheKey

/-- What a job delivers. -/
structure Completion where
  node : NodeId
  generation : Nat
  outcome : Outcome
  key : Option CacheKey

/-- Run a job on the files as they are by then. -/
def Job.complete (j : Job) (files : FileStore) : Completion :=
  ⟨j.node, j.generation, j.variant.run { j.context with files := files }, j.key⟩

end PixelFlow
