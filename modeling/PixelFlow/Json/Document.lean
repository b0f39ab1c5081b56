import PixelFlow.Json.Error
import PixelFlow.Json.Printer
import PixelFlow.Json.Reader

/-!
# Documents

A document is the text of a JSON value that stands for a value of the library.

* `Document`: the types that have a JSON form.
* **`Document.ofText?`**, **`Document.text`**: reading and writing documents.
-/

namespace PixelFlow

/-- The JSON form of a type. -/
class Document (α : Type) where
  toJson : α → Json
  ofJson? : Json → Option α

namespace Document

/-- Read a document; nothing but blanks may follow it. -/
def ofText? {α : Type} [Document α] (s : String) : Option α := Json.ofText? s >>= ofJson?

/-- Write a document without blanks. -/
def text {α : Type} [Document α] (a : α) : String := (toJson a).compact

/-- Write a document over several lines. -/
def pretty {α : Type} [Document α] (a : α) : String := (toJson a).pretty

/-! ## Values -/

instance : Document NodeId := ⟨NodeId.toJson, NodeId.ofJson?⟩
instance : Document PortId := ⟨PortId.toJson, PortId.ofJson?⟩
instance : Document Color := ⟨Color.toJson, Color.ofJson?⟩
instance : Document ImageMetadata := ⟨ImageMetadata.toJson, ImageMetadata.ofJson?⟩
instance : Document PortType := ⟨PortType.toJson, PortType.ofJson?⟩
instance : Document Value := ⟨Value.toJson, Value.ofJson?⟩

/-! ## Parameters -/

instance : Document ParamValue := ⟨ParamValue.toJson, ParamValue.ofJson?⟩
instance : Document Parameters := ⟨Parameters.toJson, Parameters.ofJson?⟩
instance : Document Constraint := ⟨Constraint.toJson, Constraint.ofJson?⟩
instance : Document ParameterDefinition := ⟨ParameterDefinition.toJson, ParameterDefinition.ofJson?⟩

/-! ## Nodes -/

instance : Document PortKind := ⟨PortKind.toJson, PortKind.ofJson?⟩
instance : Document PortSpec := ⟨PortSpec.toJson, PortSpec.ofJson?⟩
instance : Document Port := ⟨Port.toJson, Port.ofJson?⟩
instance : Document Link := ⟨Link.toJson, Link.ofJson?⟩
instance : Document NodeState := ⟨NodeState.toJson, NodeState.ofJson?⟩
instance : Document Category := ⟨Category.toJson, Category.ofJson?⟩
instance : Document Execution := ⟨Execution.toJson, Execution.ofJson?⟩
instance : Document NodeMetadata := ⟨NodeMetadata.toJson, NodeMetadata.ofJson?⟩

/-! ## Errors -/

instance : Document GraphError := ⟨GraphError.toJson, GraphError.ofJson?⟩
instance : Document ComputeError := ⟨ComputeError.toJson, ComputeError.ofJson?⟩

end Document

end PixelFlow
