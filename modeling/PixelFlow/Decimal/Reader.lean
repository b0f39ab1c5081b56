import PixelFlow.Number
import PixelFlow.Text.Lowercase

/-!
# Reading numbers

A decimal text is digits with perhaps a point among them, perhaps an exponent, and perhaps a sign
in front of either; infinity and NaN are read by their names in any case.

* **`Number.ofText`**: the number nearest to the decimal of a text.
-/

namespace PixelFlow

/-- What keeps a text from being a number. -/
inductive NumberFault
  | empty
  | malformed
deriving DecidableEq, Repr

def NumberFault.message : NumberFault → String
  | empty => "cannot parse float from empty string"
  | malformed => "invalid float literal"

namespace Decimal

/-- The digits at the beginning of a text, and what follows. -/
def leadingDigits (cs : List Char) : List Char × List Char :=
  (cs.takeWhile Char.isDigit, cs.dropWhile Char.isDigit)

def valueOfDigits (cs : List Char) : Nat :=
  cs.foldl (fun n c => 10 * n + (c.toNat - '0'.toNat)) 0

/-- Whether a sign in front is a minus, and what follows it. -/
def splitSign : List Char → Bool × List Char
  | '-' :: cs => (true, cs)
  | '+' :: cs => (false, cs)
  | cs => (false, cs)

/-- The digits after a point, and what follows; none without a point. -/
def splitFraction : List Char → List Char × List Char
  | '.' :: cs => leadingDigits cs
  | cs => ([], cs)

/-- The exponent that the rest of a text is; zero if nothing is left. -/
def exponentOf? : List Char → Option Int
  | [] => some 0
  | c :: cs =>
    let (negative, cs) := splitSign cs
    let (digits, rest) := leadingDigits cs
    if (c = 'e' ∨ c = 'E') ∧ digits ≠ [] ∧ rest = [] then
      some (if negative then -valueOfDigits digits else valueOfDigits digits)
    else none

/-- The number of a text without its sign. -/
def magnitudeOf? (negative : Bool) (cs : List Char) : Option Number :=
  match Text.asciiLowercase (String.ofList cs) with
  | "inf" | "infinity" => some (.infinity negative)
  | "nan" => some (.notANumber negative)
  | _ => do
    let (whole, rest) := leadingDigits cs
    let (fraction, rest) := splitFraction rest
    let exponent ← exponentOf? rest
    guard (whole ++ fraction ≠ [])
    return .ofDecimal negative (valueOfDigits (whole ++ fraction)) (exponent - fraction.length)

end Decimal

def Number.ofText (s : String) : Except NumberFault Number :=
  if s = "" then .error .empty
  else
    let (negative, cs) := Decimal.splitSign s.toList
    match Decimal.magnitudeOf? negative cs with
    | some x => .ok x
    | none => .error .malformed

end PixelFlow
