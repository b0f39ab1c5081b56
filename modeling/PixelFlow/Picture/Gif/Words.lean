/-!
# Words of a growing dictionary

Bytes compressed as numbers of words in a dictionary. It begins with all words of one byte, and
each word but the first adds one: the word before it and the first byte of the word itself. The
numbers grow in width with the dictionary, up to twelve bits; two of them are signs that stand for
no word, one to start afresh and one to end.

The numbers come in pieces, and their bytes are asked for a few at a time. So a decoder keeps the
bits that it has taken in but not used, and the bytes for which there was no room. It stops early
where the dictionary starts afresh, which a caller may mistake for having nothing left to do.

* `Dictionary`: the words so far.
* `Decoder`: a decoder between two runs.
* **`Decoder.run?`**: a run over a piece with room for some bytes.
-/

namespace PixelFlow.Picture.Gif

/-- A word: its first byte, and all bytes from the last to the first. -/
structure Word where
  first : UInt8
  reversed : List UInt8

namespace Word

/-- The bytes of a word. -/
def bytes (w : Word) : List UInt8 := w.reversed.reverse

/-- A word with one more byte. -/
def extend (w : Word) (b : UInt8) : Word := ⟨w.first, b :: w.reversed⟩

end Word

/-- A dictionary that begins with the words of so many bits and two signs. -/
structure Dictionary where
  rootBits : Nat
  words : Array Word
  /-- The width of the next number. -/
  codeBits : Nat
  /-- The word before the next one. -/
  previous : Option Word

namespace Dictionary

def clearSign (d : Dictionary) : Nat := 1 <<< d.rootBits

def endSign (d : Dictionary) : Nat := (1 <<< d.rootBits) + 1

def initial (rootBits : Nat) : Dictionary where
  rootBits := rootBits
  words := Array.ofFn fun i : Fin ((1 <<< rootBits) + 2) => ⟨.ofNat i, [.ofNat i]⟩
  codeBits := rootBits + 1
  previous := none

/-- The greatest width of a number. -/
def greatestBits : Nat := 12

/-- The greatest number of words. -/
def capacity : Nat := 1 <<< greatestBits

/-- The word of a number, which may be the one that it adds itself. -/
def word? (d : Dictionary) (code : Nat) : Option Word :=
  if code < d.words.size then d.words[code]?
  else if code = d.words.size then d.previous.map fun p => p.extend p.first
  else none

/-- The dictionary after a word. Numbers grow as soon as the word that is added is the last one of
their width. -/
def after (d : Dictionary) (w : Word) : Dictionary :=
  match d.previous with
  | none => { d with previous := some w }
  | some p =>
    let codeBits :=
      if (1 <<< d.codeBits) ≤ d.words.size + 1 ∧ d.codeBits < greatestBits then d.codeBits + 1
      else d.codeBits
    let words := if d.words.size < capacity then d.words.push (p.extend w.first) else d.words
    { d with words := words, codeBits := codeBits, previous := some w }

end Dictionary

/-- A decoder between two runs. -/
structure Decoder where
  dictionary : Dictionary
  /-- Bits that have been taken in, the first one lowest, and how many they are. -/
  bits : Nat
  bitCount : Nat
  /-- Bytes for which there was no room. -/
  pending : List UInt8
  /-- Whether the sign for the end has come. -/
  ended : Bool

/-- A run of a decoder. -/
structure Run where
  decoder : Decoder
  /-- The part of the piece that has not been taken in. -/
  input : List UInt8
  /-- The number of bytes for which there is room. -/
  room : Nat
  out : Array UInt8

namespace Run

/-- The number of bits that can be kept. -/
def storeSize : Nat := 64

/-- Take in as many bytes as can be kept. -/
def refill (r : Run) : Run :=
  let d := r.decoder
  let taken := r.input.take ((storeSize - d.bitCount) / 8)
  let (bits, bitCount) := taken.foldl
    (fun (bits, n) (b : UInt8) => (bits + (b.toNat <<< n), n + 8)) (d.bits, d.bitCount)
  { r with
    input := r.input.drop taken.length
    decoder := { d with bits := bits, bitCount := bitCount } }

/-- The next number, if its bits are there. -/
def code? (r : Run) : Option (Nat × Run) :=
  let d := r.decoder
  let width := d.dictionary.codeBits
  if d.bitCount < width then none
  else some (d.bits % (1 <<< width),
    { r with decoder := { d with bits := d.bits >>> width, bitCount := d.bitCount - width } })

/-- Put out bytes as far as there is room for them. -/
def emit (r : Run) (bytes : List UInt8) : Run :=
  let put := bytes.take r.room
  { r with
    room := r.room - put.length
    out := put.foldl Array.push r.out
    decoder := { r.decoder with pending := bytes.drop r.room } }

/-- What a number comes to. -/
inductive Step
  /-- There is no such word. -/
  | invalid
  /-- The run is over, at a sign. -/
  | over (r : Run)
  /-- A word has been put out. -/
  | on (r : Run)

/-- Act on a number. -/
def step (r : Run) (code : Nat) : Step :=
  let d := r.decoder.dictionary
  if code = d.clearSign then
    .over { r with decoder := { r.decoder with dictionary := .initial d.rootBits } }
  else if code = d.endSign then .over { r with decoder := { r.decoder with ended := true } }
  else match d.word? code with
    | none => .invalid
    | some w => .on ({ r with decoder := { r.decoder with dictionary := d.after w } }.emit w.bytes)

/-- Go on for at most `fuel` numbers, as long as no bytes wait for room. -/
def follow (r : Run) : Nat → Option Run
  | 0 => some r
  | fuel + 1 =>
    if r.room = 0 ∧ r.decoder.pending ≠ [] then some r
    else
      let r := r.refill
      match r.code? with
      | none => some r
      | some (code, r) =>
        match r.step code with
        | .invalid => none
        | .over r => some r
        | .on r => r.follow fuel

/-- Take in more only if the next number is not there yet. -/
def ready (r : Run) : Run :=
  if r.decoder.bitCount < r.decoder.dictionary.codeBits then r.refill else r

end Run

namespace Decoder

def initial (rootBits : Nat) : Decoder := ⟨.initial rootBits, 0, 0, [], false⟩

/-- Run over a piece with room for some bytes; `none` if a number stands for no word. Bytes that
wait are put out first. -/
def run? (d : Decoder) (piece : List UInt8) (room : Nat) : Option Run :=
  let r : Run := ⟨d, piece, room, #[]⟩
  let fuel := d.bitCount + 8 * piece.length + 1
  if d.ended then some r
  else if d.dictionary.previous.isSome then (r.emit d.pending).follow fuel
  else
    match r.ready.code? with
    | none => some r.ready
    | some (code, r) =>
      match r.step code with
      | .invalid => none
      | .over r => some r
      | .on r => r.follow fuel

end Decoder

end PixelFlow.Picture.Gif
