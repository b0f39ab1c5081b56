import PixelFlow.Table
import PixelFlow.Value

/-!
# Parameters

Parameters are set on a node and not wired through ports; their kinds are wider than those of
values. A set of parameters keeps the order in which its names first came.

* `ParamValue.sameKind`: whether one value may replace another; integers and numbers may.
* `Parameters`: named parameter values.
-/

namespace PixelFlow

inductive ParamValue
  | number (x : Number)
  | integer (n : Int64)
  | text (s : String)
  | boolean (b : Bool)
  | color (c : Color)
deriving DecidableEq, Repr

/-- The kinds of parameter values. -/
inductive ParamKind
  | number
  | integer
  | text
  | boolean
  | color
deriving DecidableEq, Repr

namespace ParamKind

def name : ParamKind → String
  | number => "number"
  | integer => "integer"
  | text => "text"
  | boolean => "boolean"
  | color => "color"

instance : ToString ParamKind := ⟨name⟩

/-- Whether a value of one kind may replace one of another. -/
def compatible : ParamKind → ParamKind → Bool
  | number, integer | integer, number => true
  | j, k => j == k

end ParamKind

namespace ParamValue

instance : Inhabited ParamValue := ⟨boolean false⟩

def kind : ParamValue → ParamKind
  | number _ => .number
  | integer _ => .integer
  | text _ => .text
  | boolean _ => .boolean
  | color _ => .color

def sameKind (v w : ParamValue) : Bool := v.kind.compatible w.kind

/-- The value as a number; an integer is widened. -/
def number? : ParamValue → Option Number
  | number x => some x
  | integer n => some (.ofInt n.toInt)
  | _ => none

def integer? : ParamValue → Option Int64
  | integer n => some n
  | _ => none

def text? : ParamValue → Option String
  | text s => some s
  | _ => none

def boolean? : ParamValue → Option Bool
  | boolean b => some b
  | _ => none

def color? : ParamValue → Option Color
  | color c => some c
  | _ => none

/-- Equality of parameter values; of different kinds none are equal. -/
def agrees : ParamValue → ParamValue → Bool
  | number x, number y => x.ieeeEq y
  | v, w => v == w

/-- Numbers have four places here, and text stands between bare quotation marks. -/
def display : ParamValue → String
  | number x => Decimal.fixed 4 x
  | integer n => toString n.toInt
  | text s => "\"" ++ s ++ "\""
  | boolean b => toString b
  | color c => c.hex

end ParamValue

/-- Named parameter values, in the order in which the names first came. -/
abbrev Parameters := Table String ParamValue

/-- Whether two sets hold equal values under the same names, in whatever order. -/
def Parameters.agrees (p q : Parameters) : Bool := Table.agrees ParamValue.agrees p q

end PixelFlow
