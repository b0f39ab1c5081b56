import PixelFlow.Picture.Bytes
import PixelFlow.Picture.Checksum
import PixelFlow.Text.Quoted

/-!
# Chunks of PNG files

After its signature a file is a sequence of chunks: a length, a type of four letters, a body and a
checksum of the type and the body. The case of each letter tells something about the chunk.

* `ChunkType.description`: a type in words.
* `ChunkType.sizes`: how large chunks of a type may be.
* **`chunks`**: all chunks of a file; the last one may be cut off.
-/

namespace PixelFlow.Picture.Png

/-- Four letters that tell what a chunk is for. -/
structure ChunkType where
  letters : List UInt8
deriving DecidableEq, Repr

namespace ChunkType

def ofName (name : String) : ChunkType := ⟨name.toUTF8.toList⟩

def header : ChunkType := ofName "IHDR"

def palette : ChunkType := ofName "PLTE"

def transparency : ChunkType := ofName "tRNS"

def data : ChunkType := ofName "IDAT"

def frameControl : ChunkType := ofName "fcTL"

def frameData : ChunkType := ofName "fdAT"

def fileEnd : ChunkType := ofName "IEND"

/-- Whether the letter at a place is in lower case. -/
def isLower (t : ChunkType) (place : Nat) : Bool := t.letters.getD place 0 &&& 0x20 != 0

/-- Whether a picture cannot be read without understanding the chunk. -/
def isCritical (t : ChunkType) : Bool := !t.isLower 0

/-- The least and the greatest size of a chunk; `none` for types that mean nothing here. -/
def sizes (t : ChunkType) : Option (Nat × Nat) :=
  if t = header then some (13, 13)
  else if t = palette then some (3, 768)
  else if t = transparency then some (1, 256)
  else if t = frameControl then some (26, 26)
  else if t = fileEnd then some (0, 0)
  else none

/-- A letter as it is shown; marks of both kinds are escaped. -/
def shownLetter (b : UInt8) : String :=
  if b = 0x27 then "\\'" else Text.escaped (.ofNat b.toNat)

def description (t : ChunkType) : String :=
  "ChunkType \x7b type: " ++ String.join (t.letters.map shownLetter) ++
    s!", critical: {t.isCritical}, private: {t.isLower 1}, reserved: {t.isLower 2}" ++
    s!", safecopy: {t.isLower 3} \x7d"

end ChunkType

structure Chunk where
  kind : ChunkType
  /-- The size that it should have. -/
  size : Nat
  /-- The body, or what there is of it. -/
  body : List UInt8
  /-- The checksum, unless the file ends before it. -/
  check : Option UInt32

/-- The checksum that a chunk should have. -/
def Chunk.computedCheck (c : Chunk) : UInt32 := crc32 (c.kind.letters ++ c.body)

/-- The chunks of a file after its signature, as long as there is a length and a type. -/
def chunks (bytes : List UInt8) : List Chunk :=
  if bytes.length < 8 then []
  else
    let length := bigEndianValue (bytes.take 4)
    let rest := bytes.drop 8
    let after := rest.drop length
    { kind := ⟨(bytes.drop 4).take 4⟩
      size := length
      body := rest.take length
      check :=
        if after.length < 4 then none else some (.ofNat (bigEndianValue (after.take 4))) } ::
      chunks (after.drop 4)
termination_by bytes.length
decreasing_by simp only [List.length_drop]; omega

/-- The bytes of a chunk. -/
def Chunk.encode (kind : ChunkType) (body : List UInt8) : List UInt8 :=
  let named := kind.letters ++ body
  bigEndian 4 body.length ++ named ++ bigEndian 4 (crc32 named).toNat

end PixelFlow.Picture.Png
