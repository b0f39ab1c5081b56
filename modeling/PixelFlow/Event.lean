import PixelFlow.Error
import PixelFlow.Table

/-!
# Events and notes

The engine reports what happens to nodes as events, for observers, and what it does as notes, for
the log.

* `NodeEvent`: the four things that happen to a node.
* `Note`: a line of the log, with its level and its text.
* `Record`: an event or a note, where both are kept in the order in which they came up.
-/

namespace PixelFlow

inductive NodeEvent
  /-- The outputs no longer reflect the inputs. -/
  | invalidated (node : NodeId)
  | valueChanged (node : NodeId) (outputs : Table PortId Value)
  /-- A compute failed; the previous outputs stay. -/
  | failed (node : NodeId) (error : ComputeError)
  /-- A sink that needs a value has none. -/
  | waiting (node : NodeId) (port : String)
deriving DecidableEq

/-- The node that an event is about. -/
def NodeEvent.node : NodeEvent → NodeId
  | invalidated n | valueChanged n _ | failed n _ | waiting n _ => n

inductive Level
  | debug
  | info
  | warn
  | error
deriving DecidableEq, Repr

def Level.name : Level → String
  | debug => "DEBUG"
  | info => "INFO"
  | warn => "WARN"
  | error => "ERROR"

/-- Something that is written to the log. -/
inductive Note
  | added (node : NodeId) (variant : String)
  | removed (node : NodeId) (links : Nat)
  | connected (fromNode toNode : NodeId) (link : Link)
  | disconnected (link : Link)
  | awaiting (node : NodeId) (port : String)
  | remembered (node : NodeId) (variant : String)
  | dispatched (node : NodeId) (generation : Nat)
  | discarded (node : NodeId) (generation : Nat)
  | failed (error : ComputeError)
  | unordered (error : GraphError)
  /-- An event as an observer writes it to the log. -/
  | observed (event : NodeEvent)
deriving DecidableEq

namespace Note

def level : Note → Level
  | added _ _ | removed _ _ | connected _ _ _ | disconnected _ => .info
  | awaiting _ _ | remembered _ _ | dispatched _ _ | discarded _ _ => .debug
  | failed _ => .warn
  | unordered _ => .error
  | observed (.invalidated _) => .debug
  | observed (.valueChanged _ _) | observed (.waiting _ _) => .info
  | observed (.failed _ _) => .warn

def message (names : Naming) : Note → String
  | added n v => s!"Added node {names.node n} ({v})"
  | removed n k => s!"Removed node {names.node n} and {k} link(s)"
  | connected m n l => s!"Connected {names.node m} -> {names.node n} ({names.link l})"
  | disconnected l => s!"Disconnected {names.link l}"
  | awaiting n p => s!"Node {names.node n} waiting for input '{p}'"
  | remembered n v => s!"Cache hit for node {names.node n} ({v})"
  | dispatched n g => s!"Dispatching node {names.node n} generation {g}"
  | discarded n g => s!"Discarded stale result for node {names.node n} (generation {g})"
  | failed e => e.message names
  | unordered e => s!"Cannot schedule: {e.message names}"
  | observed (.invalidated n) => s!"Node {names.node n} invalidated"
  | observed (.valueChanged n outputs) =>
    s!"Node {names.node n} produced {outputs.size} output(s)"
  | observed (.failed _ e) => e.message names
  | observed (.waiting n p) => s!"Node {names.node n} waiting for input '{p}'"

def line (names : Naming) (n : Note) : String := n.level.name ++ " " ++ n.message names

end Note

inductive Record
  | event (event : NodeEvent)
  | note (note : Note)
deriving DecidableEq

namespace Record

def event? : Record → Option NodeEvent
  | event e => some e
  | note _ => none

def note? : Record → Option Note
  | event _ => none
  | note n => some n

end Record

end PixelFlow
