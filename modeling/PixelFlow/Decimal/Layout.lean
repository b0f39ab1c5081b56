import PixelFlow.Number
import PixelFlow.Decimal.Shortest

/-!
# Decimal layouts of numbers

A `Layout` says how the shortest digits of a number are written: which magnitudes are positional,
whether a whole number keeps a point and a zero, and where ties go.

* `Layout.plain`: messages and displayed values; always positional, `2` for two.
* `Layout.full`: inspected values; `2.0` for two, an exponent from `1e16` on and below `1e-4`.
* `Layout.document`: numbers in documents; an exponent from `1e+16` on and below `1e-5`.
* **`Layout.write`**, **`fixed`**: the text of a number, by a layout or to a count of places.
-/

namespace PixelFlow.Decimal

/-- The rules for writing a number by its shortest digits. -/
structure Layout where
  /-- The least and the greatest exponent of the leading digit that are written positionally;
  `none` for no bound. -/
  positional : Option (Int × Int)
  /-- Whether a whole positional number ends in `.0`. -/
  keepsPoint : Bool
  /-- Whether an exponent that is not negative has a sign. -/
  signsExponent : Bool
  tie : Tie

namespace Layout

def plain : Layout := ⟨none, false, false, .up⟩

def full : Layout := ⟨some (-4, 15), true, false, .up⟩

def document : Layout := ⟨some (-5, 15), true, true, .toEven⟩

def isPositional (l : Layout) (leading : Int) : Bool :=
  match l.positional with
  | none => true
  | some (least, greatest) => least ≤ leading && leading ≤ greatest

end Layout

/-- The digits of `n`, with zeros in front up to `width` of them. -/
def padded (width n : Nat) : String :=
  let s := String.ofList (Nat.toDigits 10 n)
  String.ofList (List.replicate (width - s.length) '0') ++ s

/-- Digits in positional notation. -/
def Digits.positional (keepsPoint : Bool) (d : Digits) : String :=
  if 0 ≤ d.exponent then
    toString (d.significand * tenPow d.exponent.toNat) ++ if keepsPoint then ".0" else ""
  else
    let places := (-d.exponent).toNat
    let unit := tenPow places
    toString (d.significand / unit) ++ "." ++ padded places (d.significand % unit)

/-- Digits in exponential notation, one digit before the point. -/
def Digits.exponential (signsExponent : Bool) (d : Digits) : String :=
  let rest := digitCount d.significand - 1
  let unit := tenPow rest
  let fraction := if rest = 0 then "" else "." ++ padded rest (d.significand % unit)
  let mark := if signsExponent && 0 ≤ d.leading then "e+" else "e"
  toString (d.significand / unit) ++ fraction ++ mark ++ toString d.leading

def sign (negative : Bool) : String := if negative then "-" else ""

/-- The text of a number; NaN has no sign. -/
def Layout.write (l : Layout) (x : Number) : String :=
  match x.form with
  | .nan => "NaN"
  | .infinite negative => sign negative ++ "inf"
  | .finite negative m q =>
    sign negative ++
      if m = 0 then if l.keepsPoint then "0.0" else "0"
      else
        let d := Digits.shortest l.tie m q
        if l.isPositional d.leading then d.positional l.keepsPoint
        else d.exponential l.signsExponent

/-- The text of a number with a fixed count of places after the point, rounded half to even. -/
def fixed (places : Nat) (x : Number) : String :=
  match x.form with
  | .nan => "NaN"
  | .infinite negative => sign negative ++ "inf"
  | .finite negative m q =>
    let unit := tenPow places
    let n := roundDiv .toEven (m * twoPow q.toNat * unit) (twoPow (-q).toNat)
    sign negative ++ toString (n / unit) ++
      if places = 0 then "" else "." ++ padded places (n % unit)

end PixelFlow.Decimal
