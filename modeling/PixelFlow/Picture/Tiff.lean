import PixelFlow.Picture
import PixelFlow.Picture.Bytes

/-!
# TIFF files

A file begins with the order of bytes in its numbers, a mark, and the place of a directory, which
tells all about the picture. It is read up to there; pixels are not.

* **`Tiff.decode`**: why there is no picture.
-/

namespace PixelFlow.Picture.Tiff

/-- Why a file cannot be read. -/
inductive Fault
  | endOfFile
  /-- A place in the file that no file has. -/
  | badPlace
  | malformed (reason : String)
  /-- There are pixels, but they are not read. -/
  | unread
deriving DecidableEq, Repr

def Fault.message : Fault → String
  | endOfFile => "failed to fill whole buffer"
  | badPlace => "Invalid argument (os error 22)"
  | malformed reason => "Format error decoding Tiff: format error: " ++ reason
  | unread => "The image format Tiff is not supported"

/-- Readers of a file. -/
abbrev Reader := ByteReader Fault

/-- The order of the bytes in numbers. -/
inductive Order
  | lowestFirst
  | highestFirst
deriving DecidableEq, Repr

namespace Order

/-- The order with a mark, if there is one. -/
def ofMark? : List UInt8 → Option Order
  | [0x49, 0x49] => some lowestFirst
  | [0x4d, 0x4d] => some highestFirst
  | _ => none

/-- The next number of the given width. -/
def number (o : Order) (width : Nat) : Reader Nat := do
  let bytes ← ByteReader.take .endOfFile width
  return match o with
    | lowestFirst => littleEndianValue bytes
    | highestFirst => bigEndianValue bytes

end Order

/-- How a file is laid out: the order of the bytes in numbers, and whether places take eight bytes in
place of four. -/
structure Layout where
  order : Order
  wide : Bool
deriving DecidableEq, Repr

namespace Layout

/-- The next number that may be a place in the file. -/
def place (l : Layout) : Reader Nat := l.order.number (if l.wide then 8 else 4)

end Layout

/-- The layout and the place of the first directory. -/
def readStart : Reader (Layout × Nat) := do
  let bytes ← get
  let absent := Fault.malformed "TIFF signature not found"
  let some order := Order.ofMark? (bytes.take 2) | throw absent
  let _ ← ByteReader.take .endOfFile 2
  match ← order.number 2 with
  | 42 =>
    let l : Layout := ⟨order, false⟩
    return (l, ← l.place)
  | 43 =>
    if (← order.number 2) ≠ 8 then throw absent
    if (← order.number 2) ≠ 0 then throw absent
    let l : Layout := ⟨order, true⟩
    return (l, ← l.place)
  | _ => throw (.malformed "TIFF signature invalid")

/-- The kinds of values; entries of other kinds are skipped. -/
def kinds : List Nat := [1, 2, 3, 4, 5, 6, 7, 8, 9, 10, 11, 12, 13, 16, 17, 18]

/-- The tags of at most `n` entries, of which the file holds no more than it has bytes. -/
def entryTags (l : Layout) (n : Nat) : Nat → Reader (List Nat)
  | 0 => return []
  | fuel + 1 => do
    if n = 0 then return []
    let tag ← l.order.number 2
    let kind ← l.order.number 2
    if kind ∈ kinds then
      let _ ← l.place
      let _ ← l.place
      return tag :: (← entryTags l (n - 1) fuel)
    else
      let _ ← ByteReader.take .endOfFile 8
      entryTags l (n - 1) fuel

/-- The tags of a directory: entries, and the place of the next directory. -/
def readDirectory (l : Layout) : Reader (List Nat) := do
  let n ← if l.wide then l.place else l.order.number 2
  let tags ← entryTags l n ((← get).length + 1)
  let _ ← l.place
  return tags

/-- The greatest place that a file may have. -/
def greatestPlace : Nat := 1 <<< 63 - 1

/-- The entries without which there is no picture, by their tags. -/
def required : List (Nat × String) := [(256, "ImageWidth"), (257, "ImageLength")]

def decode (file : List UInt8) : Except String Picture :=
  Except.mapError Fault.message do
    let (l, place) ← readStart.run' file
    if greatestPlace < place then throw .badPlace
    let tags ← (readDirectory l).run' (file.drop place)
    match required.find? fun (tag, _) => tag ∉ tags with
    | some (_, name) => throw (.malformed s!"required tag \x60{name}\x60 not found")
    | none => throw .unread

end PixelFlow.Picture.Tiff
