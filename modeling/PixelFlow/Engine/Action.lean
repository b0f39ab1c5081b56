import PixelFlow.Engine.Run

/-!
# Actions

An action is anything that is done to an engine from outside; a run is a list of actions. What is
refused changes nothing.

* `Action`: the actions, with **`Engine.act`**.
* **`Engine.run`**: all actions of a list, with one report of them together.
* `Engine.insertions`: the nodes that a run puts into the graph.
-/

namespace PixelFlow

inductive Action
  /-- Add a new node of a variant. -/
  | addVariant (variant : Variant)
  | edit (change : Edit)
  /-- Finish the jobs of some numbers. -/
  | deliver (numbers : List Nat)
  /-- Give out an identifier. -/
  | mint
  | clearCache
  | subscribe (listener : Listener)
  | unsubscribe (observer : ObserverId)

namespace Engine

/-- What is left after an attempt. -/
def attempt (e : Engine) : Except GraphError (Edit.Answer × Engine × Report) → Engine × Report
  | .ok (_, after) => after
  | .error _ => (e, .empty)

def act (e : Engine) : Action → Engine × Report
  | .addVariant v => e.attempt (e.addVariant v)
  | .edit change => e.attempt (e.edit change)
  | .deliver numbers => e.deliver numbers
  | .mint => (e.mint.2, .empty)
  | .clearCache => (e.clearCache, .empty)
  | .subscribe l => ((e.subscribe l).2, .empty)
  | .unsubscribe id => (e.unsubscribe id, .empty)

def run (e : Engine) : List Action → Engine × Report
  | [] => (e, .empty)
  | a :: rest =>
    let (e, first) := e.act a
    let (e, later) := e.run rest
    (e, first ++ later)

/-- The node that an action puts into the graph, if any. -/
def inserted (e : Engine) : Action → List Node
  | .addVariant v => [.new v e.stamp]
  | .edit (.addFresh n) => [n]
  | .edit (.add n) =>
    match e.graph.add n with
    | .ok _ => [n]
    | .error _ => []
  | _ => []

/-- The nodes that a run puts into the graph, in order. -/
def insertions (e : Engine) : List Action → List Node
  | [] => []
  | a :: rest => e.inserted a ++ (e.act a).1.insertions rest

end Engine

end PixelFlow
