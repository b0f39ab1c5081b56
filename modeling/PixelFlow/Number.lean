import PixelFlow.Decimal.Rounding

/-!
# Numbers

A `Number` is a binary64 floating-point number given by its 64 bits. Two numbers are the same
iff their bits are, which tells `0` from `-0` and one NaN from another; `ieeeEq`, `le` and `lt`
compare as floating-point values do.

* `Number.form`: the sign, significand and exponent that the bits stand for.
* **`Number.nearest`**: the number nearest to a fraction, by exact integer arithmetic.
* `Number.add`, …: arithmetic, with a rule for the NaN that comes out.
-/

namespace PixelFlow

/-- A binary64 floating-point number. -/
structure Number where
  bits : UInt64
deriving DecidableEq, Hashable, Repr

namespace Number

open Decimal (roundDiv tenPow twoPow)

instance : Inhabited Number := ⟨⟨0⟩⟩

def toFloat (x : Number) : Float := Float.ofBits x.bits

def ofFloat (x : Float) : Number := ⟨x.toBits⟩

instance : Coe Float Number := ⟨ofFloat⟩

/-! ## What the bits say -/

def isNegative (x : Number) : Bool := x.bits >>> 63 == 1

/-- The eleven exponent bits. -/
def exponentBits (x : Number) : Nat := ((x.bits >>> 52) &&& 0x7ff).toNat

/-- The fifty-two bits after the leading one. -/
def fractionBits (x : Number) : Nat := (x.bits &&& 0xfffffffffffff).toNat

def isFinite (x : Number) : Bool := x.exponentBits != 0x7ff

def isNaN (x : Number) : Bool := x.exponentBits == 0x7ff && x.fractionBits != 0

/-- What a bit pattern stands for; a finite number is `±significand · 2 ^ exponent`. -/
inductive Form
  | nan
  | infinite (negative : Bool)
  | finite (negative : Bool) (significand : Nat) (exponent : Int)
deriving DecidableEq, Repr

def form (x : Number) : Form :=
  if x.isFinite then
    if x.exponentBits = 0 then .finite x.isNegative x.fractionBits (-1074)
    else .finite x.isNegative (x.fractionBits + twoPow 52) (x.exponentBits - 1075)
  else if x.fractionBits = 0 then .infinite x.isNegative
  else .nan

/-- The number with the given bits after its sign. -/
def signed (negative : Bool) (magnitude : Nat) : Number :=
  ⟨.ofNat ((if negative then twoPow 63 else 0) + magnitude)⟩

def infinity (negative : Bool) : Number := signed negative 0x7ff0000000000000

/-- The NaN without any other bit than the quiet one. -/
def notANumber (negative : Bool) : Number := signed negative 0x7ff8000000000000

/-! ## Numbers from fractions -/

/-- The greatest `k` with `2 ^ k ≤ num / den`, for positive `num` and `den`. -/
def floorLog2 (num den : Nat) : Int :=
  let k : Int := (num.log2 : Int) - den.log2
  if den * twoPow k.toNat ≤ num * twoPow (-k).toNat then k else k - 1

/-- The number nearest to `num / den`, a tie going to the even significand and what is too large
to infinity. -/
def nearest (negative : Bool) (num den : Nat) : Number :=
  if num = 0 ∨ den = 0 then signed negative 0
  else
    let q : Int := max (floorLog2 num den - 52) (-1074)
    let m := roundDiv .toEven (num * twoPow (-q).toNat) (den * twoPow q.toNat)
    signed negative (min ((q + 1074).toNat * twoPow 52 + m) (0x7ff * twoPow 52))

def ofInt (z : Int) : Number := nearest (z < 0) z.natAbs 1

instance (n : Nat) : OfNat Number n := ⟨ofInt n⟩

/-- The number `± significand · 10 ^ exponent`, rounded to nearest. Exponents beyond 400, or so low
that the product is below `10 ^ (-400)`, make no difference and are cut off. -/
def ofDecimal (negative : Bool) (significand : Nat) (exponent : Int) : Number :=
  let e := max (-(significand.log2 + 401 : Int)) (min exponent 400)
  nearest negative (significand * tenPow e.toNat) (tenPow (-e).toNat)

/-- Round to a whole number, a half going away from zero; `none` unless finite. -/
def round? (x : Number) : Option Int :=
  match x.form with
  | .finite negative m q =>
    let n := roundDiv .up (m * twoPow q.toNat) (twoPow (-q).toNat)
    some (if negative then -n else n)
  | _ => none

/-! ## Comparison -/

/-- Equality of values: `0` equals `-0`, and NaN equals nothing. -/
def ieeeEq (x y : Number) : Bool := x.toFloat == y.toFloat

def lt (x y : Number) : Bool := x.toFloat < y.toFloat

def le (x y : Number) : Bool := x.toFloat ≤ y.toFloat

/-! ## Arithmetic -/

/-- The same NaN with its quiet bit set. -/
def quiet (x : Number) : Number := ⟨x.bits ||| 0x8000000000000⟩

/-- The NaN of an operation that has no value, such as `∞ - ∞`. -/
def undefined : Number := notANumber true

/-- An operation on values. A NaN operand is passed on, the left one first. -/
def lift₂ (op : Float → Float → Float) (x y : Number) : Number :=
  if x.isNaN then x.quiet
  else if y.isNaN then y.quiet
  else
    let z := ofFloat (op x.toFloat y.toFloat)
    if z.isNaN then undefined else z

def add (x y : Number) : Number := lift₂ (· + ·) x y

def sub (x y : Number) : Number := lift₂ (· - ·) x y

def mul (x y : Number) : Number := lift₂ (· * ·) x y

def div (x y : Number) : Number := lift₂ (· / ·) x y

/-- The lesser of two numbers; a NaN yields to a number, and `0` and `-0` to the second one. -/
def min (x y : Number) : Number := if y.isNaN ∨ x.lt y then x else y

/-- The greater of two numbers; a NaN yields to a number, and `0` and `-0` to the second one. -/
def max (x y : Number) : Number := if y.isNaN ∨ y.lt x then x else y

end Number

end PixelFlow
