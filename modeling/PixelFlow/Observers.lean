/-!
# Observers

Subscribing returns a handle that no later subscription gets again. Events are delivered one after
the other, each to all observers in the order of their subscription.

* `Observers.subscribe`, `Observers.unsubscribe`: observers come and go.
* **`Observers.deliveries`**: who receives what.
-/

namespace PixelFlow

/-- The handle of a subscription. -/
structure ObserverId where
  number : Nat
deriving DecidableEq, Repr

/-- The subscribed observers, each of some address. -/
structure Observers (α : Type) where
  next : Nat
  subscribed : List (ObserverId × α)

namespace Observers

variable {α ε : Type}

def empty : Observers α := ⟨0, []⟩

def size (o : Observers α) : Nat := o.subscribed.length

def subscribe (o : Observers α) (a : α) : ObserverId × Observers α :=
  (⟨o.next⟩, ⟨o.next + 1, o.subscribed ++ [(⟨o.next⟩, a)]⟩)

def isSubscribed (o : Observers α) (id : ObserverId) : Bool := o.subscribed.any (·.1 == id)

/-- Remove the observer of a handle, if it is subscribed. -/
def unsubscribe (o : Observers α) (id : ObserverId) : Observers α :=
  { o with subscribed := o.subscribed.filter (·.1 ≠ id) }

/-- Each event with every observer that it goes to. -/
def deliveries (o : Observers α) (events : List ε) : List (α × ε) :=
  events.flatMap fun e => o.subscribed.map fun (_, a) => (a, e)

end Observers

end PixelFlow
