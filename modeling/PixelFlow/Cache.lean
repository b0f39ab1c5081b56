import PixelFlow.Fingerprint

/-!
# The cache of results

Results are remembered by the variant and by the fingerprint of the parameters and inputs that
they came from. Entries are kept from the least to the most recently used one; a new entry makes
room for itself by evicting the least recently used ones. Memory is counted in words of 64 bits,
which wrap around.

* `CacheKey.of`: the key of a compute.
* **`Cache.get`**, **`Cache.put`**: look-up and storage, which both count.
* `Entry.size`: the memory that an entry is reckoned to take.
-/

namespace PixelFlow

structure CacheKey where
  variant : String
  fingerprint : Fingerprint
deriving DecidableEq, Repr

/-- The key of a compute of a variant. -/
def CacheKey.of (variant : String) (parameters : Parameters) (inputs : Table String Value) :
    CacheKey :=
  ⟨variant, parameters.fingerprint ++ inputsFingerprint inputs⟩

/-- A remembered result. -/
structure Entry where
  key : CacheKey
  outputs : Table String Value
  /-- How long the compute took, in milliseconds. -/
  computeTime : Nat
deriving DecidableEq

/-- The bytes of a value beside its pixels. -/
def valueOverhead : UInt64 := 56

/-- The memory of a value: an image counts four bytes a pixel by its dimensions. -/
def Value.memory : Value → UInt64
  | .image i => valueOverhead + i.metadata.width.toUInt64 * i.metadata.height.toUInt64 * 4
  | _ => valueOverhead

def Entry.size (e : Entry) : UInt64 :=
  e.outputs.entries.foldr (fun (name, v) size => .ofNat name.utf8ByteSize + v.memory + size) 0

structure CacheStats where
  hits : Nat
  misses : Nat
  evictions : Nat
  /-- The time of computes that hits made needless, in milliseconds. -/
  timeSaved : Nat
deriving DecidableEq, Repr

/-- The share of look-ups that hit, zero before the first one. -/
def CacheStats.hitRatio (s : CacheStats) : Number :=
  if s.hits + s.misses = 0 then 0 else .nearest false s.hits (s.hits + s.misses)

structure Cache where
  /-- From the least to the most recently used one. -/
  entries : List Entry
  capacity : Nat
  /-- The greatest memory that entries may take together. -/
  limit : UInt64
  /-- Whether an entry has expired by the time it is looked up; time is not modelled further. -/
  expires : Bool
  /-- The memory that the entries are accounted for. -/
  memory : UInt64
  stats : CacheStats
deriving DecidableEq

namespace Cache

def defaultCapacity : Nat := 64

def megabyte : Nat := 1024 * 1024

/-- The greatest limit of memory. -/
def greatestLimit : Nat := UInt64.size - 1

/-- An empty cache; a capacity of zero stands for the default one. -/
def new (capacity megabytes : Nat) (expires : Bool) : Cache where
  entries := []
  capacity := if capacity = 0 then defaultCapacity else capacity
  limit := .ofNat (min (megabytes * megabyte) greatestLimit)
  expires := expires
  memory := 0
  stats := ⟨0, 0, 0, 0⟩

def size (c : Cache) : Nat := c.entries.length

def find? (c : Cache) (key : CacheKey) : Option Entry := c.entries.find? (·.key == key)

/-- The memory that is left when an entry goes, no less than none. -/
def memoryWithout (c : Cache) (e : Entry) : UInt64 := c.memory - min c.memory e.size

/-- Take the entry of a key out, if there is one. -/
def drop (c : Cache) (key : CacheKey) : Cache :=
  match c.find? key with
  | none => c
  | some e =>
    { c with entries := c.entries.eraseP (·.key == key), memory := c.memoryWithout e }

def countMiss (c : Cache) : Cache := { c with stats.misses := c.stats.misses + 1 }

/-- Count a hit and make its entry the most recently used one. -/
def countHit (c : Cache) (e : Entry) : Cache :=
  { c with
    entries := c.entries.eraseP (·.key == e.key) ++ [e]
    stats.hits := c.stats.hits + 1
    stats.timeSaved := c.stats.timeSaved + e.computeTime }

/-- Look a key up; an expired entry is removed and not found. -/
def get (c : Cache) (key : CacheKey) : Option (Table String Value) × Cache :=
  let c := if c.expires then c.drop key else c
  match c.find? key with
  | some e => (some e.outputs, c.countHit e)
  | none => (none, c.countMiss)

/-- Evict the least recently used entry. -/
def evict (c : Cache) (e : Entry) (rest : List Entry) : Cache :=
  { c with
    entries := rest
    memory := c.memoryWithout e
    stats.evictions := c.stats.evictions + 1 }

/-- Evict entries until `size` more bytes fit or none is left. -/
def makeRoom (size : UInt64) : List Entry → Cache → Cache
  | [], c => c
  | e :: rest, c =>
    if c.limit < c.memory + size then makeRoom size rest (c.evict e rest) else c

/-- Store an entry, which replaces one of its key and is the most recently used. -/
def put (c : Cache) (e : Entry) : Cache :=
  let c := c.drop e.key
  let c := makeRoom e.size c.entries c
  let c := match c.entries with
    | oldest :: rest => if c.capacity ≤ c.size then c.evict oldest rest else c
    | [] => c
  { c with entries := c.entries ++ [e], memory := c.memory + e.size }

/-- Forget all entries; the counts stay. -/
def clear (c : Cache) : Cache := { c with entries := [], memory := 0 }

end Cache

end PixelFlow
