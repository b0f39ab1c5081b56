import PixelFlow.Error
import PixelFlow.Files
import PixelFlow.Parameter

/-!
# Compute contexts

A context is what one compute sees and fills: a snapshot of inputs and parameters, the declared
outputs, and the values set so far. An output is accepted only if it is declared and of its type.

* `Context.input`, `Context.number`, …: the getters and the errors they raise.
* **`Context.setOutput`**, **`Context.finish`**: setting outputs and collecting all of them.
* `Compute`: computations over a context that may fail or panic.
-/

namespace PixelFlow

structure Context where
  node : NodeId
  inputs : Table String Value
  parameters : Parameters
  declared : Table String PortType
  outputs : Table String Value
  /-- The stamp of this run, which its images carry. -/
  stamp : Nat
  /-- The number of images made in this run. -/
  made : Nat
  files : FileStore

namespace Context

/-- The context of a run before any input, parameter or output is known. -/
def new (node : NodeId) (stamp : Nat) (files : FileStore) : Context :=
  ⟨node, ∅, ∅, ∅, ∅, stamp, 0, files⟩

def addInput (c : Context) (name : String) (v : Value) : Context :=
  { c with inputs := c.inputs.insert name v }

/-- Declare a source port that the compute has to fill. -/
def declareOutput (c : Context) (name : String) (t : PortType) : Context :=
  { c with declared := c.declared.insert name t }

/-! ## Errors -/

def invalidParameter (c : Context) (name reason : String) : ComputeError :=
  .invalidParameter c.node name reason

def processingError (c : Context) (reason : String) : ComputeError := .processing c.node reason

/-! ## Inputs -/

def hasInput (c : Context) (name : String) : Bool := c.inputs.contains name

def input (c : Context) (name : String) : Except ComputeError Value :=
  match c.inputs.get? name with
  | some v => .ok v
  | none => .error (.missingInput c.node name)

/-- An input as a value of one type. -/
def typedInput {α : Type} (c : Context) (expected : PortType) (view : Value → Option α)
    (name : String) : Except ComputeError α := do
  let v ← c.input name
  match view v with
  | some a => return a
  | none =>
    throw (c.processingError s!"input '{name}' expects {expected}, got {v.type}")

def inputImage (c : Context) : String → Except ComputeError Image := c.typedInput .image (·.image?)

def inputNumber (c : Context) : String → Except ComputeError Number :=
  c.typedInput .number (·.number?)

def inputColor (c : Context) : String → Except ComputeError Color := c.typedInput .color (·.color?)

/-! ## Parameters -/

def parameter (c : Context) (name : String) : Except ComputeError ParamValue :=
  match c.parameters.get? name with
  | some v => .ok v
  | none => .error (c.invalidParameter name "parameter not set")

/-- A parameter as a value of one kind. -/
def typedParameter {α : Type} (c : Context) (reason : String) (view : ParamValue → Option α)
    (name : String) : Except ComputeError α := do
  match view (← c.parameter name) with
  | some a => return a
  | none => throw (c.invalidParameter name reason)

def number (c : Context) : String → Except ComputeError Number :=
  c.typedParameter "expected a number" (·.number?)

def integer (c : Context) : String → Except ComputeError Int64 :=
  c.typedParameter "expected an integer" (·.integer?)

def text (c : Context) : String → Except ComputeError String :=
  c.typedParameter "expected text" (·.text?)

def boolean (c : Context) : String → Except ComputeError Bool :=
  c.typedParameter "expected a boolean" (·.boolean?)

def color (c : Context) : String → Except ComputeError Color :=
  c.typedParameter "expected a color" (·.color?)

/-! ## Outputs -/

/-- Set an output, which must be declared with the type of the value. -/
def setOutput (c : Context) (name : String) (v : Value) : Except ComputeError Context :=
  match c.declared.get? name with
  | none => .error (c.processingError s!"'{name}' is not a declared output")
  | some expected =>
    if expected.accepts v then .ok { c with outputs := c.outputs.insert name v }
    else .error (.outputTypeMismatch c.node name expected v.type)

def output? (c : Context) (name : String) : Option Value := c.outputs.get? name

/-- All outputs, in the order in which they were set, once each declared one is. -/
def finish (c : Context) : Except ComputeError (Table String Value) :=
  match c.declared.keys.find? fun name => !c.outputs.contains name with
  | some name => .error (.outputNotSet c.node name)
  | none => .ok c.outputs

end Context

/-- How a compute ends without outputs. -/
inductive Interruption
  | error (error : ComputeError)
  /-- A panic, with its message if it has one that is text. -/
  | panic (message : Option String)
deriving DecidableEq, Repr

/-- Computations over a context. -/
abbrev Compute := StateT Context (Except Interruption)

namespace Compute

def fail {α : Type} (e : ComputeError) : Compute α := throw (.error e)

def panic {α : Type} (message : Option String) : Compute α := throw (.panic message)

/-- Ask the context; its errors end the computation. -/
def ask {α : Type} (question : Context → Except ComputeError α) : Compute α := do
  match question (← get) with
  | .ok a => return a
  | .error e => fail e

def setOutput (name : String) (v : Value) : Compute Unit := do
  set (← ask (·.setOutput name v))

/-- Make an image with a revision of its own. -/
def newImage (p : Picture) (origin : Option String) : Compute Image := do
  let c ← get
  set { c with made := c.made + 1 }
  return .ofPicture (.mint c.stamp c.made) p origin

end Compute

end PixelFlow
