/-!
# Numbers in bytes

* `bigEndian`, `bigEndianValue`: a number with its highest byte first.
* `littleEndianValue`: the value of bytes with the lowest one first.
* `unpacked`: numbers that share bytes.
* `ByteReader`: readers of the parts of a file, one after the other.
-/

namespace PixelFlow.Picture

/-- The lowest `width` bytes of a number, highest first. -/
def bigEndian : Nat → Nat → List UInt8
  | 0, _ => []
  | width + 1, n => bigEndian width (n / 256) ++ [UInt8.ofNat n]

def littleEndianBytes (width n : Nat) : List UInt8 := (bigEndian width n).reverse

def bigEndianValue (bytes : List UInt8) : Nat := bytes.foldl (fun n b => 256 * n + b.toNat) 0

def littleEndianValue (bytes : List UInt8) : Nat := bigEndianValue bytes.reverse

/-- The number that bytes stand for in two's complement, the lowest byte first. -/
def littleEndianInt (bytes : List UInt8) : Int :=
  (littleEndianValue bytes : Int).bmod (1 <<< (8 * bytes.length))

/-- The numbers of one, two, four or eight bits in bytes, the first one in the highest bits. -/
def unpacked (bits : Nat) (bytes : List UInt8) : List Nat :=
  bytes.flatMap fun b => (List.range (8 / bits)).map fun i =>
    (b.toNat >>> (8 - bits * (i + 1))) % (1 <<< bits)

/-- Split a list into pieces of a positive length, the last of which may be shorter. -/
def pieces {α : Type} (n : Nat) : List α → List (List α)
  | [] => []
  | a :: l => (a :: l.take (n - 1)) :: pieces n (l.drop (n - 1))
termination_by l => l.length
decreasing_by simp only [List.length_drop, List.length_cons]; omega

/-! ## Readers -/

/-- Readers of bytes that may fail. -/
abbrev ByteReader (ε : Type) := StateT (List UInt8) (Except ε)

namespace ByteReader

variable {ε : Type}

/-- The next `n` bytes; `short` is the fault if there are fewer. -/
def take (short : ε) (n : Nat) : ByteReader ε (List UInt8) := do
  let bytes ← get
  let taken := bytes.take n
  if taken.length < n then throw short
  set (bytes.drop n)
  return taken

/-- The next byte. -/
def byte (short : ε) : ByteReader ε Nat := do return bigEndianValue (← take short 1)

end ByteReader

end PixelFlow.Picture
