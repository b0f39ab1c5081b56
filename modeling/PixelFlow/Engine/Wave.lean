import PixelFlow.Engine.Basic
import PixelFlow.Graph.Order

/-!
# Waves

A change runs through the graph as a wave: dirty nodes whose ancestors are at rest are dispatched in
topological order, and each outcome makes the successors of its node dirty. Events and notes are
collected on the way, in the order in which they come up.

* `Wave.apply`: store an outcome on its node.
* **`Wave.dispatch`**: begin the compute of a node, answer it from the cache, or withhold it.
* `Wave.accept`: take a delivery, unless it is stale.
* **`Wave.schedule`**: dispatch all that is ready.
-/

namespace PixelFlow

/-- An engine in the middle of a change. -/
structure Wave where
  engine : Engine
  log : List Record

namespace Wave

def events (w : Wave) : List NodeEvent := w.log.filterMap (·.event?)

def notes (w : Wave) : List Note := w.log.filterMap (·.note?)

def emit (w : Wave) (e : NodeEvent) : Wave := { w with log := w.log ++ [.event e] }

def note (w : Wave) (n : Note) : Wave := { w with log := w.log ++ [.note n] }

def modifyNode (w : Wave) (id : NodeId) (f : Node → Node) : Wave :=
  { w with engine.graph := w.engine.graph.modifyNode id f }

def count (w : Wave) (f : EngineStats → EngineStats) : Wave :=
  { w with engine.stats := f w.engine.stats }

/-! ## Outcomes -/

/-- Outputs by port: each value goes to the first source of its name. -/
def outputsByPort (n : Node) (outputs : Table String Value) : Table PortId Value :=
  Table.ofList (outputs.entries.filterMap fun (name, v) =>
    (n.sources.find? (·.name == name)).map fun p => (p.id, v))

/-- Make a node dirty because what feeds it has changed. -/
def invalidate (w : Wave) (id : NodeId) : Wave :=
  if w.engine.graph.hasNode id then (w.modifyNode id (·.markDirty)).emit (.invalidated id) else w

/-- Store an outcome. Success makes the successors dirty; failure keeps the previous outputs. -/
def apply (w : Wave) (id : NodeId) (outcome : Outcome) : Wave :=
  match w.engine.graph.node? id with
  | none => w
  | some n =>
    let w := w.count fun s => { s with completed := s.completed + 1 }
    match outcome with
    | .ok outputs =>
      let outputs := outputsByPort n outputs
      let w := (w.modifyNode id (·.storeOutputs outputs)).emit (.valueChanged id outputs)
      (w.engine.graph.successors id).foldl invalidate w
    | .error e =>
      let w := (w.note (.failed e)).count fun s => { s with failed := s.failed + 1 }
      (w.modifyNode id (·.storeError e)).emit (.failed id e)

/-! ## Dispatch -/

/-- Give a compute its stamp. -/
def takeStamp (w : Wave) : Wave := { w with engine.stamp := w.engine.stamp + 1 }

/-- Run a compute at once. -/
def runInline (w : Wave) (n : Node) (inputs : Table String Value) : Wave :=
  let context := n.context inputs w.engine.stamp w.engine.files
  let w := (w.takeStamp.modifyNode n.id (·.beginCompute)).count fun s =>
    { s with inline := s.inline + 1 }
  w.apply n.id (n.variant.run context)

/-- Begin a background compute. -/
def submit (w : Wave) (n : Node) (inputs : Table String Value) (key : Option CacheKey) : Wave :=
  let job : Job :=
    { number := w.engine.stats.dispatched
      node := n.id
      generation := n.generation + 1
      variant := n.variant
      context := n.context inputs w.engine.stamp w.engine.files
      key := key }
  let w := (w.takeStamp.modifyNode n.id (·.beginCompute)).note (.dispatched n.id job.generation)
  let w := w.count fun s => { s with dispatched := s.dispatched + 1 }
  { w with engine.inFlight := w.engine.inFlight + 1, engine.jobs := w.engine.jobs ++ [job] }

/-- Where the result of a background compute is remembered, if it may be. -/
def cacheKey? (w : Wave) (n : Node) (inputs : Table String Value) : Option CacheKey :=
  if w.engine.options.useCache && n.metadata.cacheable then
    some (.of n.metadata.id n.parameters inputs)
  else none

/-- Answer a background compute from the cache or begin it. -/
def runBackground (w : Wave) (n : Node) (inputs : Table String Value) : Wave :=
  match w.cacheKey? n inputs with
  | none => w.submit n inputs none
  | some key =>
    let (found, cache) := w.engine.cache.get key
    let w := { w with engine.cache := cache }
    match found with
    | none => w.submit n inputs (some key)
    | some outputs =>
      let w := (w.note (.remembered n.id n.metadata.id)).count fun s =>
        { s with cacheHits := s.cacheHits + 1 }
      w.apply n.id (.ok outputs)

/-- Start the recompute of a node on a snapshot of its inputs. -/
def dispatch (w : Wave) (id : NodeId) : Wave :=
  match w.engine.graph.node? id with
  | none => w
  | some n =>
    match w.engine.graph.inputs n with
    | .error port =>
      ((w.note (.awaiting id port)).modifyNode id (·.markWaiting)).emit (.waiting id port)
    | .ok inputs =>
      match n.metadata.checkParameters id n.parameters with
      | .error e => w.apply id (.error e)
      | .ok () => if n.isAsynchronous then w.runBackground n inputs else w.runInline n inputs

/-! ## Deliveries -/

/-- Remember a good result of a completion that has a place in the cache. -/
def remember (w : Wave) (c : Completion) : Wave :=
  match c.key, c.outcome with
  | some key, .ok outputs =>
    if w.engine.options.useCache then
      { w with engine.cache := w.engine.cache.put ⟨key, outputs, 0⟩ }
    else w
  | _, _ => w

/-- Whether a completion is the one that its node awaits. -/
def isCurrent (w : Wave) (c : Completion) : Bool :=
  (w.engine.graph.node? c.node).any (·.accepts c.generation)

/-- Apply a completion if its node awaits it, else drop it. -/
def accept (w : Wave) (c : Completion) : Wave :=
  let w := { w with engine.inFlight := w.engine.inFlight - 1 }.remember c
  if w.isCurrent c then w.apply c.node c.outcome
  else (w.count fun s => { s with discarded := s.discarded + 1 }).note
    (.discarded c.node c.generation)

/-! ## Scheduling -/

/-- Whether a node is dirty and no ancestor of it has work left. -/
def isReady (w : Wave) (id : NodeId) : Bool :=
  (w.engine.graph.node? id).any (·.state == .dirty) && !w.engine.graph.hasPendingAncestor id

/-- Dispatch the nodes of a list that are ready when their turn comes; also whether any was. -/
def pass (w : Wave) (order : List NodeId) : Wave × Bool :=
  order.foldl (fun (w, progressed) id =>
    if w.isReady id then (w.dispatch id, true) else (w, progressed)) (w, false)

/-- Pass over the graph until a pass dispatches nothing, at most `fuel` times. -/
def passes : Nat → Wave → Wave
  | 0, w => w
  | fuel + 1, w =>
    match w.engine.graph.topologicalOrder with
    | .error e => w.note (.unordered e)
    | .ok order =>
      let (w, progressed) := w.pass order
      if progressed then passes fuel w else w

/-- Dispatch every dirty node whose ancestors are at rest. -/
def schedule (w : Wave) : Wave := passes (w.engine.graph.nodes.size + 1) w

end Wave

end PixelFlow
