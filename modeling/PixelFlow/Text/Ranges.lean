/-!
# Sets of characters

A property of characters is a list of ranges of code points, ends included.

* `inRanges`: whether a character lies in one of the ranges.
-/

namespace PixelFlow.Text

/-- Ranges of code points, ends included. -/
abbrev Ranges := Array (Nat × Nat)

def inRanges (ranges : Ranges) (c : Char) : Bool :=
  ranges.any fun (first, last) => first ≤ c.toNat && c.toNat ≤ last

end PixelFlow.Text
