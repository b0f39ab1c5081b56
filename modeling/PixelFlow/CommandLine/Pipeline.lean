import PixelFlow.CommandLine.Options
import PixelFlow.Engine.Run
import PixelFlow.Registry

/-!
# Pipelines

A pipeline is a chain of nodes from a picture file through the chosen filters to an output. It
runs in an engine of its own until nothing is left to do.

* `Pipeline.chain`: the nodes of a pipeline and the parameters that are set on them.
* `Pipeline.build`: the chain in an engine; `Pipeline.outcome`: what can be read off it.
* **`Pipeline.run`**: the picture that comes out, or what failed first along the chain.
-/

namespace PixelFlow

/-- Why a pipeline has no picture. -/
inductive PipelineFault
  /-- The chain could not be built. -/
  | graph (error : GraphError)
  | compute (error : ComputeError)
  | noImage
deriving DecidableEq, Repr

namespace Pipeline

/-- A node of a chain: its variant, the parameters set on it, and the port that feeds the next
node. -/
structure Stage where
  variant : Variant
  parameters : List (String × ParamValue)
  output : String

def Stage.node (s : Stage) (stamp : Nat) : Node :=
  s.parameters.foldl (fun n (name, v) => n.withParameter name v) (.new s.variant stamp)

/-- The nodes between the file and the output. -/
def filters (o : PipelineOptions) : List Stage :=
  (o.blur.toList.map fun m =>
    ⟨Builtin.blur,
      ("method", .text m.name) :: o.sigma.toList.map fun x => ("sigma", .number x), "result"⟩) ++
  (o.brightness.toList.map fun x => ⟨Builtin.brightness, [("amount", .number x)], "result"⟩) ++
  (o.sepia.toList.map fun x => ⟨Builtin.sepia, [("intensity", .number x)], "result"⟩)

def chain (load : Picture.Loader) (path : String) (o : PipelineOptions) : List Stage :=
  [⟨Builtin.imageSourceOf load, [("path", .text path)], "image"⟩] ++ filters o ++
    [⟨Builtin.imageOutput, [], "preview"⟩]

/-- Add the node of a stage. -/
def addStage (e : Engine) (s : Stage) : Except GraphError (NodeId × Engine) := do
  let (stamp, e) := e.mint
  let n := s.node stamp
  let (_, e, _) ← e.edit (.add n)
  return (n.id, e)

def addStages : List Stage → Engine → Except GraphError (List (NodeId × String) × Engine)
  | [], e => .ok ([], e)
  | s :: rest, e => do
    let (id, e) ← addStage e s
    let (added, e) ← addStages rest e
    return ((id, s.output) :: added, e)

/-- Link each node of a chain to the next one. -/
def linkStages : List (NodeId × String) → Engine → Except GraphError Engine
  | (m, output) :: (n, output') :: rest, e => do
    let (_, e, _) ← e.edit (.connectNamed m output n "image")
    linkStages ((n, output') :: rest) e
  | _, e => .ok e

/-- Add the nodes of a pipeline to a new engine and link them. -/
def build (load : Picture.Loader) (files : FileStore) (path : String) (o : PipelineOptions) :
    Except GraphError (List (NodeId × String) × Engine) := do
  let (nodes, e) ← addStages (chain load path o) (.new .standard files)
  return (nodes, ← linkStages nodes e)

/-- The first error along the chain, or else the picture at its end. -/
def outcome (nodes : List (NodeId × String)) (e : Engine) : Except PipelineFault Picture :=
  match nodes.findSome? fun (id, _) => e.lastError? id with
  | some error => throw (.compute error)
  | none =>
    let picture := do
      let (id, output) ← nodes.getLast?
      (← (← e.cachedOutput? id output).image?).picture
    match picture with
    | some p => return p
    | none => throw .noImage

/-- Run a pipeline in an engine whose jobs are worked off in a given way. -/
def runWith (load : Picture.Loader) (work : Engine → Engine) (files : FileStore) (path : String)
    (o : PipelineOptions) : Except PipelineFault Picture := do
  let (nodes, e) ← (build load files path o).mapError PipelineFault.graph
  outcome nodes (work e)

/-- The engine when its jobs have delivered one by one, the oldest first. -/
def finished (e : Engine) : Engine := e.finish.2.1

def run : FileStore → String → PipelineOptions → Except PipelineFault Picture :=
  runWith Picture.load finished

end Pipeline

end PixelFlow
