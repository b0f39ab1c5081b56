import PixelFlow.Json.Numeral
import PixelFlow.Text.Hex

/-!
# Tokens of JSON texts

A text is cut into marks of punctuation and leaves. Between tokens there may be blanks. A quoted
text is first a list of units, as escapes may write a character in two halves.

* `Token.quoted?`: a quoted text up to its closing mark.
* **`Token.scan`**: all tokens of a text, unless some part of it is none.
-/

namespace PixelFlow

inductive Token
  /-- An opening or closing bracket, a comma or a colon. -/
  | mark (c : Char)
  /-- A quoted text; `none` if it has half a character in it. -/
  | quoted (s : Option String)
  /-- Any other leaf. -/
  | leaf (j : Json)
deriving BEq, Repr

namespace Token

def isBlank (c : Char) : Bool := c ∈ [' ', '\t', '\n', '\r']

def isMark (c : Char) : Bool := c ∈ ['[', ']', '\x7b', '\x7d', ',', ':']

/-! ## Quoted texts -/

/-- The character that an escape of one letter stands for. -/
def escape? (c : Char) : Option Char :=
  match c with
  | '"' | '\\' | '/' => some c
  | 'b' => some '\x08'
  | 'f' => some '\x0c'
  | 'n' => some '\n'
  | 'r' => some '\r'
  | 't' => some '\t'
  | _ => none

/-- The units up to the closing mark, and what follows it. -/
def quoted? : List Char → Option (List Nat × List Char)
  | '"' :: rest => some ([], rest)
  | '\\' :: 'u' :: a :: b :: c :: d :: rest => do
    let unit ← Text.hexValue? [a, b, c, d]
    let (units, rest) ← quoted? rest
    return (unit :: units, rest)
  | '\\' :: c :: rest => do
    let c ← escape? c
    let (units, rest) ← quoted? rest
    return (c.toNat :: units, rest)
  | c :: rest =>
    if c = '\\' ∨ c.toNat < 0x20 then none
    else do
      let (units, rest) ← quoted? rest
      return (c.toNat :: units, rest)
  | [] => none

theorem length_quoted {cs rest : List Char} {units : List Nat}
    (h : quoted? cs = some (units, rest)) : rest.length < cs.length := by
  fun_induction quoted? cs generalizing units rest with
  | case1 r => simp at h; simp [h.2]
  | case2 a b c d r ih | case3 c r _ ih =>
    simp only [Option.bind_eq_bind, Option.bind_eq_some_iff] at h
    obtain ⟨_, _, ⟨u, r'⟩, hr, h⟩ := h
    have := ih hr
    simp at h
    rw [← h.2]
    simp
    omega
  | case4 => simp at h
  | case5 c r _ _ _ _ ih =>
    simp only [Option.bind_eq_bind, Option.bind_eq_some_iff] at h
    obtain ⟨⟨u, r'⟩, hr, h⟩ := h
    have := ih hr
    simp at h
    rw [← h.2]
    simp
    omega
  | case6 => simp at h

def isHighHalf (unit : Nat) : Bool := 0xd800 ≤ unit && unit < 0xdc00

def isLowHalf (unit : Nat) : Bool := 0xdc00 ≤ unit && unit < 0xe000

/-- The characters of units; a half without its other half is no character. -/
def characters? : List Nat → Option (List Char)
  | [] => some []
  | unit :: units =>
    if isHighHalf unit then
      match units with
      | low :: units =>
        if isLowHalf low then
          (characters? units).map
            (Char.ofNat (0x10000 + (unit - 0xd800) * 0x400 + (low - 0xdc00)) :: ·)
        else none
      | [] => none
    else if isLowHalf unit then none
    else (characters? units).map (Char.ofNat unit :: ·)

/-! ## Words -/

/-- The leaf of a word of letters. -/
def word? (cs : List Char) : Option Json :=
  match String.ofList cs with
  | "null" => some .null
  | "true" => some (.boolean true)
  | "false" => some (.boolean false)
  | _ => none

def isNumeralChar (c : Char) : Bool := c.isDigit || c ∈ ['-', '+', '.', 'e', 'E']

/-! ## Scanning -/

def scan (cs : List Char) : Option (List Token) :=
  match cs with
  | [] => some []
  | c :: cs =>
    if isBlank c then scan cs
    else if isMark c then (scan cs).map (mark c :: ·)
    else if c = '"' then
      match _h : quoted? cs with
      | none => none
      | some (units, rest) =>
        (scan rest).map (quoted ((characters? units).map String.ofList) :: ·)
    else if c.isAlpha then do
      let j ← word? (c :: cs.takeWhile Char.isAlpha)
      let tokens ← scan (cs.dropWhile Char.isAlpha)
      return leaf j :: tokens
    else if isNumeralChar c then do
      let n ← Numeral.ofWord? (c :: cs.takeWhile isNumeralChar)
      let tokens ← scan (cs.dropWhile isNumeralChar)
      return leaf n.value :: tokens
    else none
termination_by cs.length
decreasing_by
  · simp
  · simp
  · have := length_quoted ‹_›; simp; omega
  · have := (List.dropWhile_suffix (l := cs) Char.isAlpha).length_le; simp; omega
  · have := (List.dropWhile_suffix (l := cs) isNumeralChar).length_le; simp; omega

end Token

end PixelFlow
