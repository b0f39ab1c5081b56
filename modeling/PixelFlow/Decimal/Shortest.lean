import PixelFlow.Decimal.Rounding

/-!
# The shortest decimal of a binary number

A positive binary number `m · 2 ^ q` is the nearest one to every real in an interval around it.
`Digits.shortest` finds, on the coarsest decimal grid that meets this interval, the grid point
nearest to the number: the fewest digits that read back the same.

* `Interval`: the reals that round to a number, over one common denominator.
* **`Digits.shortest`**: the digits and their power of ten.
-/

namespace PixelFlow.Decimal

/-- The number of decimal digits of `n`, none for zero. -/
def digitCount (n : Nat) : Nat := if n = 0 then 0 else (Nat.toDigits 10 n).length

/-- The greatest `k` with `10 ^ k ≤ num / den`, for positive `num` and `den`. -/
def floorLog10 (num den : Nat) : Int :=
  if den ≤ num then digitCount (num / den) - 1
  else -digitCount ((den + num - 1) / num - 1)

/-- The number `significand · 10 ^ exponent`. -/
structure Digits where
  significand : Nat
  exponent : Int
deriving DecidableEq, Repr

/-- A number and the bounds of the reals that round to it, as numerators over `den`. The bounds
themselves round to it iff `closed`. -/
structure Interval where
  low : Nat
  value : Nat
  high : Nat
  den : Nat
  closed : Bool

namespace Interval

/-- The reals that round to `m · 2 ^ q`. Below a power of two the neighbour is half as far, unless
the number has the least exponent. -/
def ofBinary (m : Nat) (q : Int) : Interval :=
  let up := twoPow q.toNat
  let below := if m = twoPow 52 ∧ q ≠ -1074 then 1 else 2
  { low := (4 * m - below) * up
    value := 4 * m * up
    high := (4 * m + 2) * up
    den := 4 * twoPow (-q).toNat
    closed := m % 2 = 0 }

/-- Whether `num / den'` lies in the interval. -/
def contains (i : Interval) (num den' : Nat) : Bool :=
  if i.closed then
    i.low * den' ≤ num * i.den && num * i.den ≤ i.high * den'
  else
    i.low * den' < num * i.den && num * i.den < i.high * den'

/-- The point of the grid of multiples of `10 ^ k` that is nearest to the number among its two
neighbours in the interval. -/
def onGrid? (tie : Tie) (i : Interval) (k : Int) : Option Nat :=
  let num := i.value * tenPow (-k).toNat
  let den := i.den * tenPow k.toNat
  let inside (d : Nat) := i.contains (d * tenPow k.toNat) (tenPow (-k).toNat)
  let low := num / den
  match inside low, inside (low + 1) with
  | true, true => some (roundDiv tie num den)
  | true, false => some low
  | false, true => some (low + 1)
  | false, false => none

end Interval

/-- Drop zeros at the end of the significand. -/
def Digits.strip (d : Digits) : Digits :=
  if h : d.significand ≠ 0 ∧ d.significand % 10 = 0 then
    Digits.strip ⟨d.significand / 10, d.exponent + 1⟩
  else d
termination_by d.significand
decreasing_by exact Nat.div_lt_self (Nat.pos_of_ne_zero h.1) (by decide)

/-- The fewest digits that read back as `m · 2 ^ q`; seventeen always suffice. -/
def Digits.shortest (tie : Tie) (m : Nat) (q : Int) : Digits :=
  let i := Interval.ofBinary m q
  let top := floorLog10 i.value i.den
  let grid (n : Nat) : Int := top - n
  match (List.range 17).findSome? fun n => (i.onGrid? tie (grid n)).map fun d => (d, grid n) with
  | some (d, k) => Digits.strip ⟨d, k⟩
  | none => ⟨i.value, 0⟩

/-- The decimal exponent of the leading digit. -/
def Digits.leading (d : Digits) : Int := d.exponent + digitCount d.significand - 1

end PixelFlow.Decimal
