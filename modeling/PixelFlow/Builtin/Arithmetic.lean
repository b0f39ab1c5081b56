import PixelFlow.Builtin.Access
import PixelFlow.Text.Lowercase

/-!
# Arithmetic

The math variant combines two numbers by a method.

* `MathMethod.ofName`: a method by its name in any case of the letters A to Z.
* `MathMethod.apply`: the number that a method makes of two.
* `Builtin.math`: the variant.
-/

namespace PixelFlow

inductive MathMethod
  | add
  | subtract
  /-- The mean of both numbers. -/
  | mix
  | min
  | max
  | multiply
deriving DecidableEq, Repr

namespace MathMethod

def all : List MathMethod := [add, subtract, mix, min, max, multiply]

def name : MathMethod → String
  | add => "add"
  | subtract => "subtract"
  | mix => "mix"
  | min => "min"
  | max => "max"
  | multiply => "multiply"

/-- The method of a name, or the name in lower case if there is none. -/
def ofName (s : String) : Except String MathMethod :=
  match Text.asciiLowercase s with
  | "add" => .ok add
  | "subtract" => .ok subtract
  | "mix" => .ok mix
  | "min" => .ok min
  | "max" => .ok max
  | "multiply" => .ok multiply
  | other => .error other

def unknown (name : String) : String := s!"unknown math method '{name}'"

def apply (x y : Number) : MathMethod → Number
  | add => x.add y
  | subtract => x.sub y
  | mix => (x.add y).div 2
  | min => x.min y
  | max => x.max y
  | multiply => x.mul y

end MathMethod

namespace Builtin

def mathCompute : Compute Unit := do
  let method ← methodParameter MathMethod.ofName MathMethod.unknown
  let x ← Compute.ask (·.inputNumber "a")
  let y ← Compute.ask (·.inputNumber "b")
  Compute.setOutput "result" (.number (method.apply x y))

def math : Variant where
  metadata :=
    { id := "math"
      name := "Math"
      category := .math
      description := "Combine two numbers"
      ports :=
        [.sink "a" .number "First operand", .sink "b" .number "Second operand",
         .source "result" .number ""]
      parameters :=
        [⟨"method", .text "add", "Operation", [.oneOf (MathMethod.all.map (·.name))]⟩]
      execution := .synchronous
      cacheable := true }
  compute := mathCompute

end Builtin

end PixelFlow
