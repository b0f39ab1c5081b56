import PixelFlow.Text.Printable

/-!
# Quoted text

Text between quotation marks, in which a mark, a backslash and what cannot be seen are escaped.

* `quoted`: one text.
* `quotedList`: a list of texts between brackets.
-/

namespace PixelFlow.Text

/-- The escape of one character, or the character. -/
def escaped (c : Char) : String :=
  match c with
  | '"' => "\\\""
  | '\\' => "\\\\"
  | '\n' => "\\n"
  | '\r' => "\\r"
  | '\t' => "\\t"
  | '\x00' => "\\0"
  | c =>
    if isEscaped c then "\\u\x7b" ++ String.ofList (Nat.toDigits 16 c.toNat) ++ "\x7d"
    else c.toString

def quoted (s : String) : String := "\"" ++ String.join (s.toList.map escaped) ++ "\""

def quotedList (l : List String) : String := "[" ++ ", ".intercalate (l.map quoted) ++ "]"

end PixelFlow.Text
