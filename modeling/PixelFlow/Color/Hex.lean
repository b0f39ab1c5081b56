import PixelFlow.Color
import PixelFlow.Text.Hex

/-!
# Hexadecimal colors

A color is written as `#RRGGBB` or, unless it is opaque, as `#RRGGBBAA`. A reader counts the bytes
after the marks `#` and takes them two by two; a pair is one channel and may have a plus sign for
its first digit.

* `Color.hex`: the text of a color.
* **`Color.ofHex`**: the color of a text, or what is wrong with the text.
-/

namespace PixelFlow

/-- What keeps a text from being a color. -/
inductive HexFault
  /-- Neither six nor eight bytes. -/
  | length (bytes : Nat)
  /-- A pair that is no number. -/
  | digit
  /-- A pair that ends inside a character; such a text cannot be cut. -/
  | cut
deriving DecidableEq, Repr

def HexFault.message? : HexFault → Option String
  | .length n => some s!"Invalid hex color format: expected 6 or 8 characters, got {n}"
  | .digit => some "invalid digit found in string"
  | .cut => none

namespace Color

/-- Two upper-case digits for each channel. -/
def channelHex (c : UInt8) : String :=
  String.ofList ((Text.hexDigits 2 c.toNat).map Char.toUpper)

def hex (c : Color) : String :=
  "#" ++ String.join ((if c.alpha = 255 then c.channels.take 3 else c.channels).map channelHex)

instance : ToString Color := ⟨hex⟩

/-- Whether a byte continues a character that began before it. -/
def isContinuation (b : UInt8) : Bool := 0x80 ≤ b && b < 0xc0

/-- The value of an ASCII digit. -/
def byteDigit? (b : UInt8) : Option Nat :=
  if b < 0x80 then Text.hexDigit? (Char.ofNat b.toNat) else none

/-- The channel that two bytes stand for; the first may be a plus sign. -/
def channel? (high low : UInt8) : Option UInt8 :=
  if high = 0x2b then (byteDigit? low).map .ofNat
  else do
    let h ← byteDigit? high
    let l ← byteDigit? low
    return .ofNat (16 * h + l)

/-- The channels of bytes taken two by two. -/
def channelsOf : List UInt8 → Except HexFault (List UInt8)
  | high :: low :: rest =>
    if rest.head?.any isContinuation then throw .cut
    else match channel? high low with
      | none => throw .digit
      | some c => (channelsOf rest).map (c :: ·)
  | _ => return []

/-- The bytes of a text after the marks in front of it. -/
def unmarked (s : String) : List UInt8 :=
  (String.ofList (s.toList.dropWhile (· == '#'))).toUTF8.data.toList

def ofHex (s : String) : Except HexFault Color := do
  let bytes := unmarked s
  if bytes.length = 6 ∨ bytes.length = 8 then
    match ← channelsOf bytes with
    | [r, g, b] => return ⟨r, g, b, 255⟩
    | [r, g, b, a] => return ⟨r, g, b, a⟩
    | _ => throw (.length bytes.length)
  else throw (.length bytes.length)

end Color

end PixelFlow
