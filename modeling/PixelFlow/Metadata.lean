import PixelFlow.Constraint
import PixelFlow.Error

/-!
# Metadata of variants

The metadata of a variant say what its nodes look like: their ports, their parameters and how
their computes are scheduled.

* `NodeMetadata.defaultParameters`: the parameters of a new node.
* `NodeMetadata.checkParameters`: the first parameter that violates a constraint.
-/

namespace PixelFlow

/-- The groups of a palette of variants. -/
inductive Category
  | input
  | output
  | filter
  | color
  | constant
  | math
  | custom
deriving DecidableEq, Repr

instance : Inhabited Category := ⟨.custom⟩

def Category.name : Category → String
  | input => "Input"
  | output => "Output"
  | filter => "Filter"
  | color => "Color"
  | constant => "Constant"
  | math => "Math"
  | custom => "Custom"

/-- Whether a compute runs at once or in the background. -/
inductive Execution
  | synchronous
  | asynchronous
deriving DecidableEq, Repr

instance : Inhabited Execution := ⟨.synchronous⟩

def Execution.name : Execution → String
  | synchronous => "Synchronous"
  | asynchronous => "Asynchronous"

structure NodeMetadata where
  id : String
  name : String
  category : Category
  description : String
  ports : List PortSpec
  parameters : List ParameterDefinition
  execution : Execution
  /-- Whether results may be remembered. -/
  cacheable : Bool
deriving DecidableEq, Repr

namespace NodeMetadata

def sinks (m : NodeMetadata) : List PortSpec := m.ports.filter (·.kind == .sink)

def sources (m : NodeMetadata) : List PortSpec := m.ports.filter (·.kind == .source)

def port? (m : NodeMetadata) (name : String) : Option PortSpec := m.ports.find? (·.name == name)

def parameter? (m : NodeMetadata) (name : String) : Option ParameterDefinition :=
  m.parameters.find? (·.name == name)

def defaultParameters (m : NodeMetadata) : Parameters :=
  Table.ofList (m.parameters.map fun d => (d.name, d.default))

def isAsynchronous (m : NodeMetadata) : Bool := m.execution == .asynchronous

/-- Check the parameters that have a value, in the order of their definitions. -/
def checkParameters (m : NodeMetadata) (node : NodeId) (parameters : Parameters) :
    Except ComputeError Unit :=
  m.parameters.forM fun d =>
    match parameters.get? d.name with
    | none => .ok ()
    | some v => (d.check v).mapError fun reason => .invalidParameter node d.name reason.message

end NodeMetadata

end PixelFlow
