import PixelFlow.Decimal.Layout
import PixelFlow.Json.Basic
import PixelFlow.Text.Hex

/-!
# Writing JSON texts

A tree is written without blanks, or over several lines with two blanks for each level.

* **`Json.compact`**, **`Json.pretty`**: the texts of a tree.
* `Json.quoted`: a text between quotation marks.
-/

namespace PixelFlow.Json

/-- The escape of a character, or the character. -/
def escaped (c : Char) : String :=
  match c with
  | '"' => "\\\""
  | '\\' => "\\\\"
  | '\x08' => "\\b"
  | '\x0c' => "\\f"
  | '\n' => "\\n"
  | '\r' => "\\r"
  | '\t' => "\\t"
  | c => if c.toNat < 0x20 then "\\u" ++ Text.hex 4 c.toNat else c.toString

def quoted (s : String) : String := "\"" ++ String.join (s.toList.map escaped) ++ "\""

/-- A line break and the blanks of a level. -/
def newline (level : Nat) : String := "\n" ++ String.ofList (List.replicate (2 * level) ' ')

/-- Parts between brackets, each on a line of its own if there is a level. -/
def bracketed (level : Option Nat) (opening closing : String) (parts : List String) : String :=
  if parts.isEmpty then opening ++ closing
  else
    match level with
    | none => opening ++ ",".intercalate parts ++ closing
    | some n =>
      let line := newline (n + 1)
      opening ++ line ++ ("," ++ line).intercalate parts ++ newline n ++ closing

/-- The mark between a name and its value. -/
def colon : Option Nat → String
  | none => ":"
  | some _ => ": "

mutual

/-- The text of a tree; without a level it has no blanks. What cannot be read is written as
`null`. -/
def write (level : Option Nat) : Json → String
  | null | unreadable => "null"
  | boolean b => toString b
  | integer n => toString n
  | decimal x => Decimal.Layout.document.write x
  | text s => quoted s
  | array items => bracketed level "[" "]" (writeItems (level.map (· + 1)) items)
  | object members => bracketed level "\x7b" "\x7d" (writeMembers (level.map (· + 1)) members)

def writeItems (level : Option Nat) : List Json → List String
  | [] => []
  | j :: rest => j.write level :: writeItems level rest

def writeMembers (level : Option Nat) : List (String × Json) → List String
  | [] => []
  | (name, j) :: rest => (quoted name ++ colon level ++ j.write level) :: writeMembers level rest

end

def compact (j : Json) : String := j.write none

def pretty (j : Json) : String := j.write (some 0)

end PixelFlow.Json
