import PixelFlow.Builtin.Blur
import PixelFlow.Decimal.Reader

/-!
# Options of a pipeline

The options are read from left to right in groups: a name with its value, or `--sepia`, whose
value may be left out. A later group of a name overrides an earlier one.

* **`PipelineOptions.ofArguments`**: the options of an argument list, or its first fault.
-/

namespace PixelFlow

/-- The settings of a pipeline; a stage without a setting is left out. -/
structure PipelineOptions where
  blur : Option BlurMethod
  sigma : Option Number
  brightness : Option Number
  sepia : Option Number
deriving DecidableEq, Repr

/-- What is wrong with an argument list. -/
inductive OptionFault
  | missingMethod
  | missingSigma
  | missingAmount
  /-- A method that does not exist, in lower case. -/
  | method (name : String)
  | sigma (argument : String) (fault : NumberFault)
  | brightness (argument : String) (fault : NumberFault)
  | unknown (argument : String)
deriving DecidableEq, Repr

def OptionFault.message : OptionFault → String
  | missingMethod => "--blur needs a method"
  | missingSigma => "--sigma needs a value"
  | missingAmount => "--brightness needs an amount"
  | method name => BlurMethod.unknown name
  | sigma argument fault => s!"invalid sigma '{argument}': {fault.message}"
  | brightness argument fault => s!"invalid brightness '{argument}': {fault.message}"
  | unknown argument => s!"unknown option '{argument}'"

namespace PipelineOptions

def none : PipelineOptions := ⟨.none, .none, .none, .none⟩

/-- Read groups of options on top of earlier ones. -/
def read (o : PipelineOptions) : List String → Except OptionFault PipelineOptions
  | [] => .ok o
  | option :: rest =>
    if option = "--blur" then
      match rest with
      | [] => .error .missingMethod
      | argument :: rest =>
        match BlurMethod.ofName argument with
        | .ok m => read { o with blur := some m } rest
        | .error other => .error (.method other)
    else if option = "--sigma" then
      match rest with
      | [] => .error .missingSigma
      | argument :: rest =>
        match Number.ofText argument with
        | .ok x => read { o with sigma := some x } rest
        | .error fault => .error (.sigma argument fault)
    else if option = "--brightness" then
      match rest with
      | [] => .error .missingAmount
      | argument :: rest =>
        match Number.ofText argument with
        | .ok x => read { o with brightness := some x } rest
        | .error fault => .error (.brightness argument fault)
    else if option = "--sepia" then
      match rest with
      | [] => .ok { o with sepia := some 1 }
      | argument :: rest =>
        match Number.ofText argument with
        | .ok x => read { o with sepia := some x } rest
        | .error _ => read { o with sepia := some 1 } (argument :: rest)
    else .error (.unknown option)

def ofArguments (arguments : List String) : Except OptionFault PipelineOptions :=
  none.read arguments

end PipelineOptions

end PixelFlow
