/-!
# Checksums of byte sequences

* `crc32`: the cyclic redundancy check with the reflected polynomial `0xedb88320`.
* `adler32`: two running sums modulo 65521.
-/

namespace PixelFlow.Picture

/-- One byte's worth of steps of the division by the polynomial. -/
def crcSteps : Nat → UInt32 → UInt32
  | 0, c => c
  | n + 1, c => crcSteps n (if c &&& 1 = 1 then (c >>> 1) ^^^ 0xedb88320 else c >>> 1)

def crc32 (bytes : List UInt8) : UInt32 :=
  bytes.foldl (fun c b => crcSteps 8 (c ^^^ b.toUInt32)) 0xffffffff ^^^ 0xffffffff

def adler32 (bytes : List UInt8) : UInt32 :=
  let (a, b) := bytes.foldl
    (fun ((a, b) : Nat × Nat) x => let a := (a + x.toNat) % 65521; (a, (b + a) % 65521)) (1, 0)
  .ofNat (b * 65536 + a)

end PixelFlow.Picture
