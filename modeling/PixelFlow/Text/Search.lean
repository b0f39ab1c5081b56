import PixelFlow.Text.Lowercase

/-!
# Searching text

* `occursIn_iff`: `occursIn` decides the infix relation.
* `foundIn`: the search without regard to case.
-/

namespace PixelFlow.Text

/-- Whether a list occurs within another. -/
def occursIn (part : List Char) : List Char → Bool
  | [] => part.isEmpty
  | c :: rest => part.isPrefixOf (c :: rest) || occursIn part rest

theorem occursIn_iff (part whole : List Char) : occursIn part whole ↔ part <:+: whole := by
  induction whole with
  | nil => simp [occursIn]
  | cons c rest ih => simp [occursIn, ih, List.infix_cons_iff]

/-- Whether a query in lower case occurs in a text whatever its case. -/
def foundIn (query text : String) : Bool := occursIn query.toList (lowercase text).toList

end PixelFlow.Text
