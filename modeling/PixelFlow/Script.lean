import PixelFlow.Variant

/-!
# Scripts

A script is a compute written as data: instructions in order over one accumulator, which starts as
the number zero. Variants can be made from scripts without any code of their own.

* `Reading`: what an instruction can ask the context for, with `Reading.ask`.
* `Instruction`, **`Script.run`**: the instructions and the compute that they denote.
-/

namespace PixelFlow

/-- What a context can be asked for by name. -/
inductive Reading
  | input
  | inputNumber
  | inputColor
  | inputImage
  | number
  | color
  | integer
  | textSize
  | boolean
deriving DecidableEq, Repr

/-- The answer of a context as a value: texts count their bytes, and `true` is one. -/
def Reading.ask (r : Reading) (c : Context) (name : String) : Except ComputeError Value :=
  match r with
  | input => c.input name
  | inputNumber => .number <$> c.inputNumber name
  | inputColor => .color <$> c.inputColor name
  | inputImage => .image <$> c.inputImage name
  | number => .number <$> c.number name
  | color => .color <$> c.color name
  | integer => (fun n => .number (.ofInt n.toInt)) <$> c.integer name
  | textSize => (fun s => .number (.ofInt s.utf8ByteSize)) <$> c.text name
  | boolean => (fun b => .number (.ofInt b.toInt)) <$> c.boolean name

inductive Instruction
  /-- Accumulate what the context answers. -/
  | load (reading : Reading) (name : String)
  /-- Accumulate a constant; an image is made anew, unless it has no pixels. -/
  | constant (v : Value)
  | add (x : Number)
  | multiply (x : Number)
  | addInput (name : String)
  | addParameter (name : String)
  | countInputs
  /-- Pass over the next instructions if there is no such input. -/
  | skipUnlessInput (name : String) (count : Nat)
  | failIfNegative (reason : String)
  | fail (reason : String)
  | invalid (parameter reason : String)
  | panic (message : Option String)
  | output (name : String)
deriving DecidableEq, Repr

abbrev Script := List Instruction

namespace Instruction

/-- The number that an accumulator counts as. -/
def numberOf (v : Value) : Number := v.number?.getD 0

/-- The accumulator after one instruction. -/
def act (acc : Value) : Instruction → Compute Value
  | load r name => Compute.ask (r.ask · name)
  | constant (.image ⟨m, _, some p⟩) => .image <$> Compute.newImage p m.origin
  | constant v => return v
  | add x => return .number ((numberOf acc).add x)
  | multiply x => return .number ((numberOf acc).mul x)
  | addInput name => do return .number ((numberOf acc).add (← Compute.ask (·.inputNumber name)))
  | addParameter name => do return .number ((numberOf acc).add (← Compute.ask (·.number name)))
  | countInputs => do return .number (.ofInt (← get).inputs.size)
  | skipUnlessInput _ _ => return acc
  | failIfNegative reason =>
    if (numberOf acc).lt 0 then Compute.ask fun c => throw (c.processingError reason)
    else return acc
  | fail reason => Compute.ask fun c => throw (c.processingError reason)
  | invalid name reason => Compute.ask fun c => throw (c.invalidParameter name reason)
  | panic message => Compute.panic message
  | output name => do
    Compute.setOutput name acc
    return acc

/-- The number of instructions that are passed over after this one. -/
def skipped (c : Context) : Instruction → Nat
  | skipUnlessInput name count => if c.hasInput name then 0 else count
  | _ => 0

end Instruction

namespace Script

/-- Run a script from an accumulator. -/
def runFrom : Script → Value → Compute Unit
  | [], _ => return ()
  | i :: rest, acc => do
    let acc ← i.act acc
    runFrom (rest.drop (i.skipped (← get))) acc
termination_by s => s.length
decreasing_by simp only [List.length_drop, List.length_cons]; omega

/-- The compute that a script denotes. -/
def run (s : Script) : Compute Unit := runFrom s (.number 0)

end Script

end PixelFlow
