import PixelFlow.Engine.Job
import PixelFlow.Event
import PixelFlow.Observers

/-!
# The engine

The engine owns a graph and keeps every output in agreement with its inputs. Its state is a value:
background computes are jobs in a list, in the order of their dispatch, until they deliver.

* `EngineOptions`, `EngineStats`: settings and counts.
* `Engine.new`: an engine without nodes.
* `Engine.isIdle`: whether nothing is left to do.
-/

namespace PixelFlow

structure EngineOptions where
  /-- The number of background workers. -/
  workers : Nat
  useCache : Bool
  cacheCapacity : Nat
  cacheMegabytes : Nat
  /-- How long a remembered result is valid, in milliseconds. -/
  cacheLifetime : Nat
  /-- What the names of worker threads begin with. -/
  workerName : String
deriving DecidableEq, Repr

def EngineOptions.standard : EngineOptions := ⟨0, true, 64, 512, 3600000, "vortex-worker"⟩

structure EngineStats where
  /-- Background computes begun. -/
  dispatched : Nat
  /-- Computes run at once. -/
  inline : Nat
  /-- Outcomes applied to a node, failures included. -/
  completed : Nat
  /-- Background outcomes dropped because they came too late. -/
  discarded : Nat
  failed : Nat
  /-- Background computes answered from the cache. -/
  cacheHits : Nat
deriving DecidableEq, Repr

/-- What an observer does with an event. -/
inductive Listener
  /-- Record it under a name. -/
  | recorder (name : String)
  /-- Send it into the channel of a name. -/
  | channel (name : String)
  /-- Write it to the log. -/
  | log
deriving DecidableEq, Repr

structure Engine where
  graph : Graph
  /-- Dispatched jobs that have not delivered, oldest first. -/
  jobs : List Job
  cache : Cache
  options : EngineOptions
  observers : Observers Listener
  stats : EngineStats
  /-- The number of jobs that have not delivered. -/
  inFlight : Nat
  /-- The stamp of the next compute or new node. -/
  stamp : Nat
  /-- The files that computes see. -/
  files : FileStore

namespace Engine

/-- An engine without nodes. A cache whose results are valid for no time at all has expired
entries only. -/
def new (options : EngineOptions) (files : FileStore) : Engine where
  graph := .empty
  jobs := []
  cache := .new options.cacheCapacity options.cacheMegabytes (options.cacheLifetime = 0)
  options := options
  observers := .empty
  stats := ⟨0, 0, 0, 0, 0, 0⟩
  inFlight := 0
  stamp := 0
  files := files

/-- A stamp that was not given out before. -/
def mint (e : Engine) : Nat × Engine := (e.stamp, { e with stamp := e.stamp + 1 })

/-! ## Questions -/

def state (e : Engine) (id : NodeId) : Except GraphError NodeState :=
  (e.graph.node id).map (·.state)

/-- The last value of a source port. -/
def cachedValue? (e : Engine) (p : PortId) : Option Value := do
  (← e.graph.node? (← e.graph.owner? p)).outputs.get? p

/-- The last value of the source port of a node with a name. -/
def cachedOutput? (e : Engine) (id : NodeId) (name : String) : Option Value :=
  match e.graph.findPort id name with
  | .ok p => e.cachedValue? p
  | .error _ => none

def lastError? (e : Engine) (id : NodeId) : Option ComputeError := do
  (← e.graph.node? id).lastError

def generation? (e : Engine) (id : NodeId) : Option Nat := (e.graph.node? id).map (·.generation)

/-- Whether no node has work left and no job is under way. -/
def isIdle (e : Engine) : Bool := e.inFlight == 0 && e.graph.nodeList.all (·.state.isSettled)

/-! ## Settings -/

def clearCache (e : Engine) : Engine := { e with cache := e.cache.clear }

def subscribe (e : Engine) (l : Listener) : ObserverId × Engine :=
  let (id, observers) := e.observers.subscribe l
  (id, { e with observers := observers })

def unsubscribe (e : Engine) (id : ObserverId) : Engine :=
  { e with observers := e.observers.unsubscribe id }

end Engine

end PixelFlow
