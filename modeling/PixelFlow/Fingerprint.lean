import PixelFlow.Parameter

/-!
# Fingerprints

A fingerprint is the sequence of bytes that stands for a value, a set of parameters or a set of
inputs when results are remembered. Each part says where it ends: a text closes with a byte that
no text contains, a list opens with its length, and a value opens with its tag. Lengths are words
of 64 bits; those beyond that range are spelled out, so that no two fingerprints are ever the same.

* `Value.fingerprint`: numbers by their bits, images by their revision and never by their pixels.
* `Parameters.fingerprint`: in the order of the names.
* `inputsFingerprint`: in alphabetic order, whatever order the inputs came in.
-/

namespace PixelFlow

abbrev Fingerprint := List UInt8

namespace Fingerprint

/-- The bytes of a number, lowest first. -/
def littleEndian : Nat → Nat → Fingerprint
  | 0, _ => []
  | width + 1, n => UInt8.ofNat n :: littleEndian width (n / 256)

/-- Eight bytes for a tag. -/
def word (n : Nat) : Fingerprint := littleEndian 8 n

/-- Eight bytes for a length; one that they cannot hold is counted out behind them. -/
def count (n : Nat) : Fingerprint :=
  if n < UInt64.size - 1 then word n else word (UInt64.size - 1) ++ List.replicate n 0 ++ [1]

/-- The bytes of a text and one that is in no text. -/
def text (s : String) : Fingerprint := s.toUTF8.data.toList ++ [0xff]

/-- The least number of bytes, sixteen at least, that hold an identifier. -/
def uuidWidth (u : Uuid) : Nat := max 16 (u.value.log2 / 8 + 1)

def uuid (u : Uuid) : Fingerprint :=
  count (uuidWidth u) ++ (littleEndian (uuidWidth u) u.value).reverse

def number (x : Number) : Fingerprint := littleEndian 8 x.bits.toNat

end Fingerprint

open Fingerprint

def Value.fingerprint : Value → Fingerprint
  | image i => word 0 ++ uuid i.revision
  | number x => word 1 ++ Fingerprint.number x
  | color c => word 2 ++ c.channels

def ParamValue.fingerprint : ParamValue → Fingerprint
  | number x => word 0 ++ Fingerprint.number x
  | integer n => word 1 ++ littleEndian 8 n.toUInt64.toNat
  | text s => word 2 ++ Fingerprint.text s
  | boolean b => word 3 ++ [if b then 1 else 0]
  | color c => word 4 ++ c.channels

def Parameters.fingerprint (p : Parameters) : Fingerprint :=
  count p.size ++ p.entries.flatMap fun (name, v) => text name ++ v.fingerprint

/-- Named values in alphabetic order. -/
def sortedByName {α : Type} (l : List (String × α)) : List (String × α) :=
  l.mergeSort fun a b => a.1 ≤ b.1

def inputsFingerprint (inputs : Table String Value) : Fingerprint :=
  count inputs.size ++
    (sortedByName inputs.entries).flatMap fun (name, v) => text name ++ v.fingerprint

end PixelFlow
