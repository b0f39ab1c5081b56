import PixelFlow.Text.Ranges

/-!
# Blank text

White space in the sense of the Unicode property `White_Space`.

* `isBlank_of_isWhitespace`: every ASCII blank is one.
-/

namespace PixelFlow.Text

/-- The code points with the property `White_Space`. -/
def blankRanges : Ranges := #[
  (0x9, 0xd), (0x20, 0x20), (0x85, 0x85), (0xa0, 0xa0), (0x1680, 0x1680), (0x2000, 0x200a),
  (0x2028, 0x2029), (0x202f, 0x202f), (0x205f, 0x205f), (0x3000, 0x3000)]

def isBlank (c : Char) : Bool := inRanges blankRanges c

/-- Whether a text has nothing but white space. -/
def allBlank (s : String) : Bool := s.toList.all isBlank

theorem isBlank_of_isWhitespace {c : Char} (h : c.isWhitespace) : isBlank c := by
  simp only [Char.isWhitespace, Bool.or_eq_true, decide_eq_true_eq] at h
  rcases h with ((rfl | rfl) | rfl) | rfl <;> decide +kernel

end PixelFlow.Text
