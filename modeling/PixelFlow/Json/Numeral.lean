import PixelFlow.Json.Basic

/-!
# Numerals

A numeral is a sign, digits, perhaps a fraction and perhaps an exponent. An integer of sixty-four
bits is kept as one. Any other numeral is read by its first digits: as many as fit in sixty-four
bits make a number, which one multiplication or division by a power of ten brings to its place.

* `Numeral.ofWord?`: the grammar.
* **`Numeral.value`**: the leaf that a numeral stands for.
-/

namespace PixelFlow

structure Numeral where
  negative : Bool
  /-- The digits before the point. -/
  whole : List Nat
  /-- The digits after it. -/
  fraction : List Nat
  exponent : Option Int
deriving DecidableEq, Repr

namespace Numeral

/-- The digits at the beginning of a word, and what follows. -/
def digits (cs : List Char) : List Nat × List Char :=
  ((cs.takeWhile Char.isDigit).map fun c => c.toNat - '0'.toNat, cs.dropWhile Char.isDigit)

def valueOf (ds : List Nat) : Nat := ds.foldl (fun n d => 10 * n + d) 0

/-- An exponent that is the whole word. -/
def exponent? (cs : List Char) : Option Int :=
  let (negative, cs) := match cs with
    | '-' :: cs => (true, cs)
    | '+' :: cs => (false, cs)
    | cs => (false, cs)
  match digits cs with
  | (d :: ds, []) => some (if negative then -valueOf (d :: ds) else valueOf (d :: ds))
  | _ => none

/-- What may follow the digits before the point. -/
def tail? (cs : List Char) : Option (List Nat × Option Int) :=
  match cs with
  | [] => some ([], none)
  | '.' :: cs =>
    match digits cs with
    | ([], _) => none
    | (ds, []) => some (ds, none)
    | (ds, c :: cs) => if c = 'e' ∨ c = 'E' then (exponent? cs).map fun e => (ds, some e) else none
  | c :: cs => if c = 'e' ∨ c = 'E' then (exponent? cs).map fun e => ([], some e) else none

/-- The numeral that is the whole word. Only a lone zero may begin with zero. -/
def ofWord? (cs : List Char) : Option Numeral := do
  let (negative, cs) := match cs with
    | '-' :: cs => (true, cs)
    | cs => (false, cs)
  let (whole, cs) := digits cs
  guard (whole = [0] ∨ whole.head?.any (· ≠ 0))
  let (fraction, exponent) ← tail? cs
  return ⟨negative, whole, fraction, exponent⟩

/-! ## Values -/

def wordLimit : Nat := UInt64.size

/-- Append digits to a significand while the result fits; also how many were appended. -/
def append (significand : Nat) : List Nat → Nat × Nat
  | [] => (significand, 0)
  | d :: ds =>
    if 10 * significand + d < wordLimit then
      let (n, taken) := append (10 * significand + d) ds
      (n, taken + 1)
    else (significand, 0)

/-- The significand of at most sixty-four bits and its decimal exponent. -/
def parts (n : Numeral) : Nat × Int :=
  let (significand, kept) := append 0 n.whole
  let (significand, places) := append significand n.fraction
  (significand, (n.whole.length : Int) - kept - places + n.exponent.getD 0)

/-- The greatest power of ten that is a number. -/
def greatestPower : Nat := 308

def power (k : Nat) : Number := .ofDecimal false 1 k

/-- A number times a power of ten, unless it is beyond all bounds. -/
def scaled (x : Number) (exponent : Int) : Option Number :=
  if exponent.natAbs ≤ greatestPower then
    if 0 ≤ exponent then
      let y := x.mul (power exponent.natAbs)
      if y.isFinite then some y else none
    else some (x.div (power exponent.natAbs))
  else if x.bits = 0 then some x
  else if 0 ≤ exponent then none
  else scaled (x.div (power greatestPower)) (exponent + greatestPower)
termination_by (-exponent).toNat
decreasing_by simp only [greatestPower] at *; omega

/-- The leaf of a numeral that is no integer of sixty-four bits. -/
def decimalValue (n : Numeral) : Json :=
  let (significand, exponent) := n.parts
  match scaled (.ofInt significand) exponent with
  | some x => .decimal (if n.negative then ⟨x.bits ^^^ 0x8000000000000000⟩ else x)
  | none => .unreadable

def value (n : Numeral) : Json :=
  let m := valueOf n.whole
  let isWhole := n.fraction.isEmpty && n.exponent.isNone
  if isWhole && !n.negative && m < wordLimit then .integer m
  else if isWhole && n.negative && 0 < m && m ≤ wordLimit / 2 then .integer (-m)
  else n.decimalValue

end Numeral

end PixelFlow
