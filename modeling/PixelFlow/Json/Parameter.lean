import PixelFlow.Constraint
import PixelFlow.Json.Value

/-!
# Parameters as JSON

* `ParamValue.toJson`: a parameter value is its kind beside the value.
* `Parameters.toJson`: parameters are an object, in their order.
* `Constraint.toJson`, `ParameterDefinition.toJson`: the declarations of parameters.
-/

namespace PixelFlow

open Json (Fields)

namespace ParamValue

/-- An integer of sixty-four bits. -/
def wordOfJson? (j : Json) : Option Int64 := do
  let n ← j.integer?
  if Int64.minValue.toInt ≤ n ∧ n ≤ Int64.maxValue.toInt then return .ofInt n else none

def toJson : ParamValue → Json
  | number x => Json.ofTagged "kind" "value" "Number" (.ofNumber x)
  | integer n => Json.ofTagged "kind" "value" "Integer" (.integer n.toInt)
  | text s => Json.ofTagged "kind" "value" "Text" (.text s)
  | boolean b => Json.ofTagged "kind" "value" "Boolean" (.boolean b)
  | color c => Json.ofTagged "kind" "value" "Color" c.toJson

def ofJson? (j : Json) : Option ParamValue := do
  let (kind, value) ← j.tagged? "kind" "value"
  let value ← value
  match kind with
  | "Number" => value.number?.map number
  | "Integer" => (wordOfJson? value).map integer
  | "Text" => value.text?.map text
  | "Boolean" => value.boolean?.map boolean
  | "Color" => (Color.ofJson? value).map color
  | _ => none

end ParamValue

namespace Parameters

def toJson (p : Parameters) : Json := .object (p.entries.map fun (name, v) => (name, v.toJson))

/-- A repeated name keeps its first place and its last value. -/
def ofJson? : Json → Option Parameters
  | .object members => do
    return Table.ofList (← members.mapM fun (name, j) => (ParamValue.ofJson? j).map (name, ·))
  | _ => none

end Parameters

namespace Constraint

def toJson : Constraint → Json
  | range least greatest =>
    Json.ofTagged "type" "params" "Range"
      (.object [("min", .ofNumber least), ("max", .ofNumber greatest)])
  | oneOf options => Json.ofTagged "type" "params" "OneOf" (Json.ofList .text options)
  | notEmpty => .object [("type", .text "NotEmpty")]

def ofJson? (j : Json) : Option Constraint := do
  match ← j.tagged? "type" "params" with
  | ("Range", some params) =>
    let f ← params.members? ["min", "max"]
    return range (← f.field? "min" (·.number?)) (← f.field? "max" (·.number?))
  | ("OneOf", some params) => (params.list? (·.text?)).map oneOf
  | ("NotEmpty", none) | ("NotEmpty", some .null) => return notEmpty
  | _ => none

end Constraint

namespace ParameterDefinition

def toJson (d : ParameterDefinition) : Json := .object [
  ("name", .text d.name), ("default_value", d.default.toJson),
  ("description", .text d.description),
  ("constraints", Json.ofList Constraint.toJson d.constraints)]

def ofJson? (j : Json) : Option ParameterDefinition := do
  let f ← j.record? ["name", "default_value", "description", "constraints"] []
  return { name := ← f.field? "name" (·.text?)
           default := ← f.field? "default_value" ParamValue.ofJson?
           description := ← f.field? "description" (·.text?)
           constraints := ← f.field? "constraints" (Json.list? Constraint.ofJson?) }

end ParameterDefinition

end PixelFlow
