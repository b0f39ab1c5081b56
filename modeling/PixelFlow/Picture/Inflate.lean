/-!
# Compressed bytes

The decoder of the deflate format: blocks that are stored, or compressed with fixed or with
transmitted prefix codes, between two bytes of description and four bytes of a checksum, which is
not verified. A decoder is told how many bytes are wanted and looks no further once it has them.
Each step takes at least one bit, so the number of bits bounds them all.

* `DeflateFault`: what can be wrong with a compressed sequence.
* `Code`: a prefix code by the lengths of its words.
* **`inflate`**: the bytes of a compressed sequence as far as they are wanted, and what is wrong
  with it.
-/

namespace PixelFlow.Picture

/-- What can be wrong with a compressed sequence. -/
inductive DeflateFault
  /-- The description in front is none of a compressed sequence. -/
  | envelope
  /-- The sequence ends too early. -/
  | exhausted
  | blockKind
  /-- The two counts of a stored block do not match. -/
  | storedLength
  | literalCount
  | distanceCount
  /-- A repetition of code lengths has nothing to repeat, or goes too far. -/
  | repetition
  | lengthCode
  | literalCode
  | distanceCode
  | literalSymbol
  | distanceSymbol
  /-- A copy from before the first byte. -/
  | distance
deriving DecidableEq, Repr

namespace DeflateFault

def name : DeflateFault → String
  | envelope => "BadZlibHeader"
  | exhausted => "InsufficientInput"
  | blockKind => "InvalidBlockType"
  | storedLength => "InvalidUncompressedBlockLength"
  | literalCount => "InvalidHlit"
  | distanceCount => "InvalidHdist"
  | repetition => "InvalidCodeLengthRepeat"
  | lengthCode => "BadCodeLengthHuffmanTree"
  | literalCode => "BadLiteralLengthHuffmanTree"
  | distanceCode => "BadDistanceHuffmanTree"
  | literalSymbol => "InvalidLiteralLengthCode"
  | distanceSymbol => "InvalidDistanceCode"
  | distance => "DistanceTooFarBack"

end DeflateFault

/-- A compressed sequence while it is read. -/
structure Inflater where
  source : ByteArray
  /-- The number of bits that are read, each byte from its lowest bit on. -/
  spent : Nat
  /-- The bytes that they stand for. -/
  out : ByteArray
  /-- How many bytes are wanted. -/
  wanted : Nat

namespace Inflater

/-- How many bits are left. -/
def rest (s : Inflater) : Nat := 8 * s.source.size - s.spent

/-- How many bytes are still wanted. -/
def room (s : Inflater) : Nat := s.wanted - s.out.size

end Inflater

/-- Readers of a compressed sequence; one that fails keeps the bytes that it found. -/
abbrev BitReader := ExceptT DeflateFault (StateM Inflater)

namespace BitReader

/-- Fail unless `n` more bits are there. -/
def await (n : Nat) : BitReader Unit := do
  if (← get).rest < n then throw .exhausted

def bit : BitReader Nat := do
  let s ← get
  if h : s.spent / 8 < s.source.size then
    let b := (s.source[s.spent / 8].toNat >>> (s.spent % 8)) % 2
    modify fun s => { s with spent := s.spent + 1 }
    return b
  else throw .exhausted

/-- A number of `n` bits, lowest first. -/
def bits : Nat → BitReader Nat
  | 0 => return 0
  | n + 1 => do
    let low ← bit
    let high ← bits n
    return low + 2 * high

/-- Skip the rest of a byte that has been begun. -/
def align : BitReader Unit := modify fun s => { s with spent := (s.spent + 7) / 8 * 8 }

end BitReader

open BitReader

/-- A prefix code: for each length of words up to the greatest, their number, and all symbols in
order of their words. -/
structure Code where
  counts : List Nat
  symbols : Array Nat

namespace Code

/-- The code in which each symbol has a word of the given length, or none where that is zero. -/
def ofLengths (lengths : List Nat) : Code where
  counts := (List.range (lengths.foldl max 0)).map fun n => lengths.count (n + 1)
  symbols := ((List.range 15).flatMap fun n =>
    lengths.zipIdx.filterMap fun (l, symbol) => if l = n + 1 then some symbol else none).toArray

/-- Whether words of the given lengths can be told apart and leave no sequence of bits over. -/
def fills (lengths : List Nat) : Bool :=
  (lengths.filter (0 < ·)).foldl (fun sum l => sum + (1 <<< (15 - l))) 0 == 1 <<< 15

/-- Read the word of a symbol bit by bit: `word` are the bits so far, `first` the first word of
their length, and `index` the number of shorter words. -/
def symbolFrom (c : Code) (stray : DeflateFault) (word first index : Nat) :
    List Nat → BitReader Nat
  | [] => throw stray
  | count :: counts => do
    let word := word + (← bit)
    if word < first + count then
      match c.symbols[index + (word - first)]? with
      | some symbol => return symbol
      | none => throw stray
    else c.symbolFrom stray (2 * word) (2 * (first + count)) (index + count) counts

/-- Read a symbol; `stray` is the fault if there is no such word. -/
def symbol (c : Code) (stray : DeflateFault) : BitReader Nat := c.symbolFrom stray 0 0 0 c.counts

/-- The code for literals and lengths of the fixed kind of block. -/
def fixedLiterals : Code :=
  ofLengths (List.replicate 144 8 ++ List.replicate 112 9 ++ List.replicate 24 7 ++
    List.replicate 8 8)

def fixedDistances : Code := ofLengths (List.replicate 30 5)

end Code

/-- The base and the extra bits of each length symbol from 257 on. -/
def lengthSymbols : List (Nat × Nat) :=
  [(3, 0), (4, 0), (5, 0), (6, 0), (7, 0), (8, 0), (9, 0), (10, 0), (11, 1), (13, 1), (15, 1),
   (17, 1), (19, 2), (23, 2), (27, 2), (31, 2), (35, 3), (43, 3), (51, 3), (59, 3), (67, 4),
   (83, 4), (99, 4), (115, 4), (131, 5), (163, 5), (195, 5), (227, 5), (258, 0)]

/-- The base and the extra bits of each distance symbol. -/
def distanceSymbols : List (Nat × Nat) :=
  [(1, 0), (2, 0), (3, 0), (4, 0), (5, 1), (7, 1), (9, 2), (13, 2), (17, 3), (25, 3), (33, 4),
   (49, 4), (65, 5), (97, 5), (129, 6), (193, 6), (257, 7), (385, 7), (513, 8), (769, 8),
   (1025, 9), (1537, 9), (2049, 10), (3073, 10), (4097, 11), (6145, 11), (8193, 12), (12289, 12),
   (16385, 13), (24577, 13)]

/-- The number that a symbol and its extra bits stand for. -/
def extended (table : List (Nat × Nat)) (stray : DeflateFault) (symbol : Nat) : BitReader Nat := do
  match table[symbol]? with
  | some (base, extra) => return base + (← bits extra)
  | none => throw stray

/-- The symbol of a distance. That there is no such word is known only if the sequence goes on for
more than nine bits from where the word begins. -/
def Code.distance (distances : Code) : BitReader Nat := do
  let stray := if 9 < (← get).rest then DeflateFault.distanceSymbol else .exhausted
  distances.symbol stray

/-- Append `length` bytes, each a copy of the one `distance` before it. -/
def copied (distance : Nat) : Nat → ByteArray → ByteArray
  | 0, out => out
  | length + 1, out => copied distance length (out.push (out.get! (out.size - distance)))

/-- Find a byte. -/
def BitReader.push (b : UInt8) : BitReader Unit := modify fun s => { s with out := s.out.push b }

/-- Find `length` bytes, of which no more than are wanted count, from `distance` before. -/
def BitReader.copy (length distance : Nat) : BitReader Unit := do
  if (← get).out.size < distance then throw .distance
  modify fun s => { s with out := copied distance (min length s.room) s.out }

/-- The symbols of a block up to its end mark, for at most `fuel` of them. The two symbols of the
fixed code that stand for nothing end a block as well. Tells whether the end was reached before
there were enough bytes. -/
def blockSymbols (literals distances : Code) : Nat → BitReader Bool
  | 0 => throw .exhausted
  | fuel + 1 => do
    if (← get).room = 0 then return false
    let symbol ← literals.symbol .literalSymbol
    if symbol < 256 then
      push (.ofNat symbol)
      blockSymbols literals distances fuel
    else if symbol = 256 ∨ 286 ≤ symbol then return true
    else
      let length ← extended lengthSymbols .literalSymbol (symbol - 257)
      let distance ← extended distanceSymbols .distanceSymbol (← distances.distance)
      copy length distance
      blockSymbols literals distances fuel

/-- The bytes of a stored block, which may be cut off by the end. Tells whether all of them were
wanted. -/
def storedBlock : BitReader Bool := do
  align
  let length ← bits 16
  let complement ← bits 16
  if length + complement ≠ 65535 then throw .storedLength
  let s ← get
  let start := s.spent / 8
  let taken := min (min length s.room) (s.source.size - start)
  modify fun s =>
    { s with spent := s.spent + 8 * taken, out := s.out ++ s.source.extract start (start + taken) }
  if taken < min length s.room then throw .exhausted
  return taken = length

/-- The order in which the lengths of the code for code lengths are sent. -/
def lengthOrder : List Nat := [16, 17, 18, 0, 8, 7, 9, 6, 10, 5, 11, 4, 12, 3, 13, 2, 14, 1, 15]

/-- Read code lengths until there are `wanted` of them; `sofar` is in reverse. -/
def codeLengths (code : Code) (wanted : Nat) : Nat → List Nat → BitReader (List Nat)
  | 0, _ => throw .exhausted
  | fuel + 1, sofar =>
    if wanted ≤ sofar.length then return sofar.reverse
    else do
      let symbol ← code.symbol .lengthCode
      if symbol < 16 then codeLengths code wanted fuel (symbol :: sofar)
      else
        let (length, times) ← match symbol, sofar with
          | 16, previous :: _ => do pure (previous, 3 + (← bits 2))
          | 16, [] => throw .repetition
          | 17, _ => do pure (0, 3 + (← bits 3))
          | _, _ => do pure (0, 11 + (← bits 7))
        if wanted < sofar.length + times then throw .repetition
        codeLengths code wanted fuel (List.replicate times length ++ sofar)

/-- Whether a block can do with distances of the given code lengths: with none at all, with one
word of a single bit, or with all words. -/
def distancesUsable (lengths : List Nat) : Bool :=
  match lengths.filter (0 < ·) with
  | [] | [1] => true
  | _ => Code.fills lengths

/-- The two codes that a block transmits. -/
def transmittedCodes : BitReader (Code × Code) := do
  await 14
  let literals := 257 + (← bits 5)
  let distances := 1 + (← bits 5)
  let count := 4 + (← bits 4)
  if 286 < literals then throw .literalCount
  if 30 < distances then throw .distanceCount
  let sent ← (lengthOrder.take count).mapM fun symbol => do pure (symbol, ← bits 3)
  let lengthLengths := (List.range 19).map fun s => (sent.lookup s).getD 0
  if !Code.fills lengthLengths then throw .lengthCode
  let lengths ←
    codeLengths (.ofLengths lengthLengths) (literals + distances) (literals + distances + 1) []
  let literalLengths := lengths.take literals
  let distanceLengths := lengths.drop literals
  if literalLengths[256]? = some 0 then throw .literalCode
  if !Code.fills literalLengths then throw .lengthCode
  if !distancesUsable distanceLengths then throw .distanceCode
  return (.ofLengths literalLengths, .ofLengths distanceLengths)

/-- All blocks, for at most `fuel` of them; none takes fewer than ten bits. -/
def blocks : Nat → BitReader Unit
  | 0 => throw .exhausted
  | fuel + 1 => do
    await 10
    let last ← bit
    let bound := (← get).rest + 1
    let ended ← match ← bits 2 with
      | 0 => storedBlock
      | 1 => blockSymbols .fixedLiterals .fixedDistances bound
      | 2 => do
        let (literals, distances) ← transmittedCodes
        blockSymbols literals distances bound
      | _ => throw .blockKind
    if ended ∧ last ≠ 1 then blocks fuel

/-- The two bytes of description: the method and the window in the first one, no dictionary, and
a number that makes both together a multiple of 31. -/
def envelope : BitReader Unit := do
  let method ← bits 8
  let flags ← bits 8
  if method % 16 ≠ 8 ∨ 8 ≤ method / 16 ∨ flags / 32 % 2 = 1 ∨ (256 * method + flags) % 31 ≠ 0 then
    throw .envelope

/-- All of a compressed sequence. -/
def compressed : BitReader Unit := do
  envelope
  blocks (← get).rest
  align
  await 32

/-- What is found in a compressed sequence. -/
structure Inflation where
  bytes : ByteArray
  fault : Option DeflateFault

/-- The bytes that a compressed sequence stands for, up to as many as are wanted; what comes after
it is ignored. -/
def inflate (wanted : Nat) (source : ByteArray) : Inflation :=
  match compressed.run.run ⟨source, 0, .empty, wanted⟩ with
  | (.ok (), s) => ⟨s.out, none⟩
  | (.error fault, s) => ⟨s.out, some fault⟩

end PixelFlow.Picture
