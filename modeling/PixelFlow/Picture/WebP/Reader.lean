import PixelFlow.Picture
import PixelFlow.Picture.Bytes

/-!
# Reading WebP files

* `Fault`: why a file cannot be read.
* `Reader`: readers of the parts of a file.
* `Size`: the dimensions of a picture.
-/

namespace PixelFlow.Picture.WebP

/-- Why a file cannot be read. -/
inductive Fault
  | endOfFile
  | memory
  | malformed (reason : String)
  /-- There are pixels, but they are not read. -/
  | unread
deriving DecidableEq, Repr

def Fault.message : Fault → String
  | endOfFile => "failed to fill whole buffer"
  | memory => "Memory limit exceeded"
  | malformed reason => "Format error decoding WebP: " ++ reason
  | unread => "The image format WebP is not supported"

/-- Readers of a file. -/
abbrev Reader := ByteReader Fault

def take (n : Nat) : Reader (List UInt8) := ByteReader.take .endOfFile n

/-- The next `n` bytes as a number. -/
def number (n : Nat) : Reader Nat := littleEndianValue <$> take n

/-- A byte in hexadecimal digits. -/
def shownByte (b : UInt8) : String := String.ofList (Nat.toDigits 16 b.toNat)

def shown (bytes : List UInt8) : String := "[" ++ ", ".intercalate (bytes.map shownByte) ++ "]"

/-! ## Dimensions -/

structure Size where
  width : Nat
  height : Nat
deriving DecidableEq, Repr

/-- The number that the lowest fourteen bits of a number stand for. -/
def side (n : Nat) : Nat := n % 16384

def checkMemory (s : Size) (alpha : Bool) : Reader Unit := do
  if memoryLimit < s.width * s.height * (if alpha then 4 else 3) then throw .memory

end PixelFlow.Picture.WebP
