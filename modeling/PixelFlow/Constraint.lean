import PixelFlow.Parameter
import PixelFlow.Text.Blank
import PixelFlow.Text.Quoted

/-!
# Constraints on parameters

A parameter definition has a default, which fixes the kind of the parameter, and constraints that
are checked when the node computes.

* `Constraint.Violation`: the causes for which a value is refused.
* `ParameterDefinition.check`: the first violated constraint, if any.
-/

namespace PixelFlow

inductive Constraint
  /-- A number between two bounds, both included. -/
  | range (least greatest : Number)
  /-- One of the listed texts. -/
  | oneOf (options : List String)
  /-- A text that is not blank. -/
  | notEmpty
deriving DecidableEq, Repr

namespace Constraint

inductive Violation
  | outside (x least greatest : Number)
  | notANumber (kind : ParamKind)
  | notAnOption (s : String) (options : List String)
  | notAText (kind : ParamKind)
  | blank
deriving DecidableEq, Repr

def Violation.message : Violation → String
  | outside x least greatest =>
    let write := Decimal.Layout.plain.write
    write x ++ " is outside [" ++ write least ++ ", " ++ write greatest ++ "]"
  | notANumber kind => s!"expected a number, got {kind}"
  | notAnOption s options => "'" ++ s ++ "' is not one of " ++ Text.quotedList options
  | notAText kind => s!"expected text, got {kind}"
  | blank => "value must not be empty"

def check : Constraint → ParamValue → Except Violation Unit
  | range least greatest, v =>
    match v.number? with
    | some x => if least.le x && x.le greatest then .ok () else .error (.outside x least greatest)
    | none => .error (.notANumber v.kind)
  | oneOf options, v =>
    match v.text? with
    | some s => if s ∈ options then .ok () else .error (.notAnOption s options)
    | none => .error (.notAText v.kind)
  | notEmpty, v =>
    match v.text? with
    | some s => if Text.allBlank s then .error .blank else .ok ()
    | none => .error .blank

end Constraint

/-- The declaration of a parameter. -/
structure ParameterDefinition where
  name : String
  default : ParamValue
  description : String
  constraints : List Constraint
deriving DecidableEq, Repr

/-- Check a value against the constraints in order. -/
def ParameterDefinition.check (d : ParameterDefinition) (v : ParamValue) :
    Except Constraint.Violation Unit :=
  d.constraints.forM (·.check v)

end PixelFlow
