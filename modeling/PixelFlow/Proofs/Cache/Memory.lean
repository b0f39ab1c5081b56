import PixelFlow.Proofs.Cache.Run
import Mathlib.Algebra.GroupWithZero.Nat
import Mathlib.Algebra.Order.BigOperators.Group.List
import Mathlib.Algebra.Order.Group.Nat
import Mathlib.Data.List.Infix

/-!
# The memory of a cache

A cache counts the memory of its entries in a word of 64 bits, next to the entries themselves. It
adds the size of an entry that comes in, and takes off the size of each one that leaves: because it
has expired, because its key is stored again, for memory or for a place. The count is exact as long
as the sum fits into a word.

* `Entry.bytes`: the bytes of an entry, without bound; **`Entry.size_eq`**: a word holds their rest.
* `Cache.total`: the sum of sizes, without bound.
* `Cache.departures`: the entries that leave, one after the other.
* `Cache.Exact`: the memory is the sum of the sizes; **`Cache.Exact.put`**.
* `Cache.Accounted`, **`Cache.accounted_run`**: the accounts of a run.
* `Cache.InRange`: no sum that is formed when an entry is stored exceeds a word.
* **`Cache.budget_run`**: the limit is kept unless an entry alone is larger.
-/

namespace PixelFlow

/-- The bytes of a value, however many. -/
def Value.bytes : Value → Nat
  | .image i => 56 + i.metadata.width.toNat * i.metadata.height.toNat * 4
  | _ => 56

/-- The memory of a value is what a word holds of its bytes. -/
theorem Value.memory_eq (v : Value) : v.memory = .ofNat v.bytes := by
  have widen (x : UInt32) : x.toUInt64 = .ofNat x.toNat :=
    UInt64.toNat_inj.1 (by simp)
  cases v with
  | image i =>
    rw [memory, bytes, widen, widen, UInt64.ofNat_add, UInt64.ofNat_mul, UInt64.ofNat_mul]
    rfl
  | _ => rfl

/-- The bytes of a remembered result, however many. -/
def Entry.bytes (e : Entry) : Nat :=
  (e.outputs.entries.map fun (name, v) => name.utf8ByteSize + v.bytes).sum

/-- **The size of an entry is what a word holds of its bytes.** -/
theorem Entry.size_eq (e : Entry) : e.size = .ofNat e.bytes := by
  rw [size, bytes]
  induction e.outputs.entries with
  | nil => rfl
  | cons p l ih =>
    obtain ⟨name, v⟩ := p
    rw [List.foldr_cons, ih, List.map_cons, List.sum_cons]
    dsimp only
    rw [v.memory_eq, UInt64.ofNat_add, UInt64.ofNat_add]

namespace Cache

variable {c : Cache} {e x : Entry} {key : CacheKey} {l : List Entry} {k : UInt64} {n : Nat}

/-- The sizes of entries together, however much that is. -/
def total (l : List Entry) : Nat := (l.map (·.size.toNat)).sum

@[simp] theorem total_nil : total [] = 0 := rfl

@[simp] theorem total_cons (e : Entry) (l : List Entry) :
    total (e :: l) = e.size.toNat + total l := by
  simp [total]

@[simp] theorem total_append (l r : List Entry) : total (l ++ r) = total l + total r := by
  simp [total]

theorem total_perm {l r : List Entry} (h : l.Perm r) : total l = total r := (h.map _).sum_eq

theorem total_le_of_sublist {l r : List Entry} (h : l.Sublist r) : total l ≤ total r :=
  (h.map _).sum_le_sum fun _ _ => Nat.zero_le _

theorem size_le_total (h : x ∈ l) : x.size.toNat ≤ total l := by
  obtain ⟨l, r, rfl⟩ := List.append_of_mem h
  rw [total_append, total_cons]
  omega

/-! ## Entries that leave -/

/-- An entry that leaves a cache on its own. -/
structure Departure where
  /-- The cache just before. -/
  cache : Cache
  entry : Entry

/-- The entry of a key leaves. -/
def dropped (c : Cache) (key : CacheKey) : List Departure := (c.find? key).toList.map (⟨c, ·⟩)

/-- Entries leave until `size` more bytes fit or none is left. -/
def cleared (size : UInt64) : List Entry → Cache → List Departure
  | [], _ => []
  | e :: rest, c =>
    if c.limit < c.memory + size then ⟨c, e⟩ :: cleared size rest (c.evict e rest) else []

/-- The least recently used entry leaves if all places are taken. -/
def displaced (c : Cache) : List Departure :=
  match c.entries with
  | oldest :: _ => if c.capacity ≤ c.size then [⟨c, oldest⟩] else []
  | [] => []

/-- The entries that leave on their own in one use, in order; when all are forgotten at once, the
memory starts anew. -/
def departures (c : Cache) : Use → List Departure
  | .put e =>
    let d := c.drop e.key
    c.dropped e.key ++ cleared e.size d.entries d ++ (makeRoom e.size d.entries d).displaced
  | .get key => if c.expires then c.dropped key else []
  | .clear => []

/-- The entry that a use brings, if any. -/
def Use.stored : Use → List Entry
  | .put e => [e]
  | _ => []

theorem dropped_append (c : Cache) (key : CacheKey) :
    ((c.dropped key).map (·.entry) ++ (c.drop key).entries).Perm c.entries := by
  unfold dropped drop
  cases h : c.find? key with
  | none => exact .refl _
  | some x => exact (perm_cons_eraseP h).symm

theorem cleared_append (h : c.entries = l) :
    (cleared k l c).map (·.entry) ++ (makeRoom k l c).entries = l := by
  induction l generalizing c with
  | nil => exact h
  | cons e l ih =>
    unfold cleared makeRoom
    split
    · exact congrArg (e :: ·) (ih rfl)
    · exact h

theorem displaced_append (c : Cache) :
    c.displaced.map (·.entry) ++ c.makePlace.entries = c.entries := by
  unfold displaced makePlace
  cases h : c.entries with
  | nil => simpa using h
  | cons oldest rest =>
    by_cases hf : c.capacity ≤ c.size
    · simp [hf, evictOldest, evict, h]
    · simp [hf, h]

/-- **What leaves and what stays is what was there and what came**, unless all is forgotten. -/
theorem departures_perm (c : Cache) {u : Use} (hu : u ≠ .clear) :
    ((c.departures u).map (·.entry) ++ (c.use u).2.entries).Perm (c.entries ++ u.stored) := by
  cases u with
  | put e =>
    have hstay : (makeRoom e.size (c.drop e.key).entries (c.drop e.key)).displaced.map (·.entry) ++
        (c.put e).entries =
          (makeRoom e.size (c.drop e.key).entries (c.drop e.key)).entries ++ [e] := by
      rw [put_eq, ← displaced_append (makeRoom e.size (c.drop e.key).entries (c.drop e.key)),
        List.append_assoc]
      rfl
    show ((c.departures (.put e)).map (·.entry) ++ (c.put e).entries).Perm (c.entries ++ [e])
    rw [departures, List.map_append, List.map_append, List.append_assoc, hstay, List.append_assoc,
      ← List.append_assoc (List.map _ (cleared _ _ _)), cleared_append rfl, ← List.append_assoc]
    exact (c.dropped_append e.key).append_right [e]
  | get key =>
    show ((c.departures (.get key)).map (·.entry) ++ (c.get key).2.entries).Perm (c.entries ++ [])
    have hswept : ((c.departures (.get key)).map (·.entry) ++ (c.swept key).entries).Perm
        c.entries := by
      rw [departures, swept]
      split
      · exact c.dropped_append key
      · exact .refl _
    rw [List.append_nil]
    refine .trans (.append_left _ ?_) hswept
    cases hf : (c.swept key).find? key with
    | none => rw [get_missed hf]; exact .refl _
    | some x => rw [get_found hf]; exact Regular.perm_countHit hf
  | clear => exact absurd rfl hu

/-! ## Exact accounts -/

/-- The memory is the sum of the sizes. -/
def Exact (c : Cache) : Prop := c.memory.toNat = total c.entries

/-- No more is taken off than there is. -/
theorem toNat_memoryWithout (c : Cache) (e : Entry) :
    (c.memoryWithout e).toNat = c.memory.toNat - e.size.toNat := by
  unfold memoryWithout
  by_cases h : c.memory ≤ e.size
  · have hn := UInt64.le_iff_toNat_le.1 h
    rw [show min c.memory e.size = c.memory from if_pos h, UInt64.sub_self]
    simp
    omega
  · have hle : e.size ≤ c.memory := UInt64.le_of_lt (UInt64.not_le.1 h)
    rw [show min c.memory e.size = e.size from if_neg h, UInt64.toNat_sub_of_le _ _ hle]

namespace Exact

/-- What an entry takes is there to be taken off. -/
theorem covers (h : c.Exact) (hx : x ∈ c.entries) : x.size ≤ c.memory := by
  rw [UInt64.le_iff_toNat_le, h]
  exact size_le_total hx

theorem drop (h : c.Exact) (key : CacheKey) : (c.drop key).Exact := by
  unfold Cache.drop
  split
  · exact h
  · next x hx =>
    have hp := total_perm (perm_cons_eraseP hx)
    rw [total_cons] at hp
    show (c.memoryWithout x).toNat = total (c.entries.eraseP _)
    rw [toNat_memoryWithout, h, hp]
    omega

theorem evict {rest : List Entry} (h : c.Exact) (he : c.entries = e :: rest) :
    (c.evict e rest).Exact := by
  show (c.memoryWithout e).toNat = total rest
  rw [toNat_memoryWithout, h, he, total_cons]
  omega

theorem evictOldest (h : c.Exact) (n : Nat) : (evictOldest^[n] c).Exact := by
  induction n with
  | zero => exact h
  | succ n ih =>
    rw [Function.iterate_succ_apply']
    cases he : (Cache.evictOldest^[n] c).entries with
    | nil =>
      rw [Cache.evictOldest, he]
      exact ih
    | cons e rest =>
      rw [evictOldest_of_cons he]
      exact ih.evict he

theorem append (h : c.Exact) (hs : total c.entries + e.size.toNat < UInt64.size) :
    (c.append e).Exact := by
  show (c.memory + e.size).toNat = total (c.entries ++ [e])
  rw [UInt64.toNat_add, h, Nat.mod_eq_of_lt hs]
  simp

/-- **Storing keeps the accounts exact if the new sum fits into a word.** -/
theorem put (h : c.Exact) (hs : total (c.put e).entries < UInt64.size) : (c.put e).Exact := by
  obtain ⟨m, n, _, hp⟩ := c.put_spec e
  rw [hp] at hs ⊢
  refine ((h.drop e.key).evictOldest n).append ?_
  simpa [Cache.append] using hs

theorem swept (h : c.Exact) (key : CacheKey) : (c.swept key).Exact := by
  unfold Cache.swept
  split
  · exact h.drop key
  · exact h

theorem get (h : c.Exact) (key : CacheKey) : (c.get key).2.Exact := by
  cases hf : (c.swept key).find? key with
  | none =>
    rw [get_missed hf]
    exact h.swept key
  | some x =>
    rw [get_found hf]
    show (c.swept key).memory.toNat = total ((c.swept key).countHit x).entries
    rw [h.swept key, total_perm (Regular.perm_countHit hf)]

theorem use {u : Use} (h : c.Exact) (hs : total (c.use u).2.entries < UInt64.size) :
    (c.use u).2.Exact := by
  cases u with
  | put e => exact h.put hs
  | get key => exact h.get key
  | clear => exact rfl

theorem run {uses : List Use} (h : c.Exact)
    (hs : ∀ pre, pre <+: uses → total (c.run pre).entries < UInt64.size) : (c.run uses).Exact := by
  induction uses generalizing c with
  | nil => exact h
  | cons u uses ih =>
    refine ih (h.use (hs [u] (List.prefix_append [u] uses))) fun pre hp => ?_
    exact hs (u :: pre) (List.cons_prefix_cons.2 ⟨rfl, hp⟩)

/-! ## Nothing is cut off -/

theorem dropped (h : c.Exact) {d : Departure} (hd : d ∈ c.dropped key) :
    d.entry.size ≤ d.cache.memory := by
  obtain ⟨x, hx, rfl⟩ := List.mem_map.1 hd
  exact h.covers (find?_spec (Option.mem_toList.1 hx)).1

theorem cleared (h : c.Exact) (hl : c.entries = l) {d : Departure} (hd : d ∈ cleared k l c) :
    d.entry.size ≤ d.cache.memory := by
  induction l generalizing c with
  | nil => cases hd
  | cons e rest ih =>
    rw [Cache.cleared] at hd
    split at hd
    · rcases List.mem_cons.1 hd with rfl | hd
      · exact h.covers (hl ▸ List.mem_cons_self)
      · exact ih (h.evict hl) rfl hd
    · cases hd

theorem displaced (h : c.Exact) {d : Departure} (hd : d ∈ c.displaced) :
    d.entry.size ≤ d.cache.memory := by
  unfold Cache.displaced at hd
  split at hd
  · next oldest rest he =>
    split at hd
    · rw [List.mem_singleton.1 hd]
      exact h.covers (he ▸ List.mem_cons_self)
    · cases hd
  · cases hd

/-- **Where accounts are exact, each entry that leaves takes what it is accounted for.** -/
theorem departures {u : Use} (h : c.Exact) {d : Departure} (hd : d ∈ c.departures u) :
    d.entry.size ≤ d.cache.memory := by
  cases u with
  | put e =>
    rw [Cache.departures] at hd
    obtain ⟨n, _, hr, _, _⟩ := makeRoom_eq e.size (c.drop e.key)
    rcases List.mem_append.1 hd with hd | hd
    · rcases List.mem_append.1 hd with hd | hd
      · exact h.dropped hd
      · exact (h.drop e.key).cleared rfl hd
    · rw [hr] at hd
      exact ((h.drop e.key).evictOldest n).displaced hd
  | get key =>
    rw [Cache.departures] at hd
    split at hd
    · exact h.dropped hd
    · cases hd
  | clear => cases hd

end Exact

/-- **The accounts of a cache in a run.** -/
structure Accounted (c : Cache) (uses : List Use) : Prop where
  /-- The memory is the sum of the sizes of the entries. -/
  exact : (c.run uses).memory.toNat = total (c.run uses).entries
  /-- Whenever an entry leaves, there is as much memory as it takes. -/
  covered : ∀ pre u post, uses = pre ++ u :: post → ∀ d ∈ (c.run pre).departures u,
    d.entry.size ≤ d.cache.memory
  /-- Whatever is there no more has left in this way, unless all was forgotten. -/
  parted : ∀ pre u post, uses = pre ++ u :: post → u ≠ .clear →
    (((c.run pre).departures u).map (·.entry) ++ (c.run (pre ++ [u])).entries).Perm
      ((c.run pre).entries ++ u.stored)
  /-- No key comes twice. -/
  distinct : ((c.run uses).entries.map (·.key)).Nodup
  /-- There are no more entries than places. -/
  bounded : (c.run uses).size ≤ c.capacity

/-- **Whatever is done to a cache, its accounts are exact and nothing is cut off**, as long as the
sizes of what it holds fit into a word together. -/
theorem accounted_run (capacity megabytes : Nat) (expires : Bool) (uses : List Use)
    (h : ∀ pre, pre <+: uses →
      total ((new capacity megabytes expires).run pre).entries < UInt64.size) :
    (new capacity megabytes expires).Accounted uses := by
  have h₀ : (new capacity megabytes expires).Exact := rfl
  have regular := (regular_new capacity megabytes expires).run uses
  refine ⟨h₀.run h, ?_, fun pre u post _ hu => ?_, regular.distinct, ?_⟩
  · rintro pre u post rfl d hd
    refine (h₀.run fun pre' hp => h pre' (hp.trans ?_)).departures hd
    exact List.prefix_append pre (u :: post)
  · rw [run_append]
    exact departures_perm _ hu
  · rw [← (kept_run _ uses).capacity]
    exact regular.bounded

/-- An image without pixels, stored under the name of its variant. -/
def pictured (variant : String) (width height : UInt32) : Entry where
  key := ⟨variant, [1]⟩
  outputs := ⟨[("x", .image ⟨⟨width, height, none⟩, ⟨0⟩, none⟩)], List.nodup_singleton "x"⟩
  computeTime := 0

/-- A number, stored under the name of its variant. -/
def numbered (variant : String) (x : Number) : Entry where
  key := ⟨variant, [1]⟩
  outputs := ⟨[("x", .number x)], List.nodup_singleton "x"⟩
  computeTime := 0

/-- Three results in a cache of two places, the first of which is used before the last one comes
and is then replaced. -/
def reused : List Use :=
  [.put (pictured "a" 3 2), .put (numbered "b" 1), .get ⟨"a", [1]⟩, .put (numbered "c" 1),
    .put (numbered "a" 0)]

theorem accounted_run_reused : (new 2 512 false).Accounted reused ∧
    ((new 2 512 false).run reused).entries = [numbered "c" 1, numbered "a" 0] := by
  have h : ∀ pre ∈ reused.inits, total ((new 2 512 false).run pre).entries < UInt64.size := by
    decide +kernel
  refine ⟨accounted_run 2 512 false reused fun pre hp => ?_, by decide +kernel⟩
  exact h pre ((List.mem_inits pre reused).2 hp)

/-- Two results that take more than a word together; then the first one is replaced. -/
def overflowing : List Use :=
  [.put (pictured "a" 2147483648 2147483647), .put (pictured "b" 65536 32768),
    .put (numbered "a" 1)]

/-- **If the sum of two sizes exceeds a word, the accounts stay wrong**, even when the first of the
two is gone. -/
theorem not_accounted : (∀ e, .put e ∈ overflowing → e.bytes < UInt64.size) ∧
    ¬ (new 10 512 false).Accounted overflowing := by
  refine ⟨fun e he => ?_, fun h => absurd h.exact (by decide +kernel)⟩
  simp only [overflowing, List.mem_cons, Use.put.injEq, List.not_mem_nil, or_false] at he
  rcases he with rfl | rfl | rfl <;> decide +kernel

/-! ## The limit -/

/-- The sum that is formed for a use: when an entry is stored, the sizes of the entries of other
keys and its own. -/
def summed (c : Cache) : Use → Nat
  | .put e => total (c.others e.key) + e.size.toNat
  | _ => 0

/-- **No sum that is formed exceeds a word.** -/
def InRange (c : Cache) : List Use → Prop
  | [] => True
  | u :: uses => c.summed u < UInt64.size ∧ (c.use u).2.InRange uses

instance decidableInRange (c : Cache) : (uses : List Use) → Decidable (c.InRange uses)
  | [] => isTrue trivial
  | u :: uses =>
    have := decidableInRange (c.use u).2 uses
    inferInstanceAs (Decidable (c.summed u < UInt64.size ∧ (c.use u).2.InRange uses))

/-- The sum that is compared with the limit is the sum of the sizes. -/
theorem Exact.toNat_sum (h : c.Exact) (hs : total c.entries + k.toNat < UInt64.size)
    (hn : n ≤ c.size) :
    ((Cache.evictOldest^[n] c).memory + k).toNat = total (c.entries.drop n) + k.toNat := by
  have he := h.evictOldest n
  obtain ⟨memory, hm⟩ := evict_eq hn
  rw [hm] at he ⊢
  have hle := total_le_of_sublist (List.drop_sublist n c.entries)
  have hs : total (c.entries.drop n) + k.toNat < UInt64.size := by omega
  rw [UInt64.toNat_add, show memory.toNat = total (c.entries.drop n) from he]
  exact Nat.mod_eq_of_lt hs

/-- **What is cleared for the memory of an entry, by the sizes**: no more than is needed, and enough
unless none is left. -/
theorem Clears.sizes {m : Nat} (h : c.Clears k m n) (he : c.Exact)
    (hs : total c.entries + k.toNat < UInt64.size) :
    (∀ i < m, c.limit.toNat < total (c.entries.drop i) + k.toNat) ∧
      (m < c.size → total (c.entries.drop m) + k.toNat ≤ c.limit.toNat) := by
  have hm : m ≤ c.size := Nat.le_trans h.le h.le_size
  refine ⟨fun i hi => ?_, fun hlt => ?_⟩
  · rw [← he.toNat_sum hs (by omega)]
    exact UInt64.lt_iff_toNat_lt.1 (h.needed i hi)
  · rw [← he.toNat_sum hs hm]
    exact UInt64.le_iff_toNat_le.1 (h.enough hlt)

/-- The accounts are exact, and the entries keep the limit together unless there is but one. -/
structure Within (c : Cache) : Prop where
  regular : c.Regular
  exact : c.Exact
  limited : total c.entries ≤ c.limit.toNat ∨ c.size ≤ 1

namespace Within

theorem put (h : c.Within) (hs : c.summed (.put e) < UInt64.size) : (c.put e).Within := by
  have hr := h.regular.put e
  have ho := h.regular.entries_drop e.key
  obtain ⟨m, n, hc, hp⟩ := c.put_spec e
  obtain ⟨memory, hm⟩ := evict_eq hc.le_size
  have hd := (h.exact.drop e.key)
  have hs : total (c.drop e.key).entries + e.size.toNat < UInt64.size := ho ▸ hs
  have hle := total_le_of_sublist (List.drop_sublist n (c.drop e.key).entries)
  have hentries : (c.put e).entries = (c.drop e.key).entries.drop n ++ [e] := by
    rw [hp, append, hm]
  have htotal : total (c.put e).entries = total ((c.drop e.key).entries.drop n) + e.size.toNat := by
    rw [hentries]
    simp
  refine ⟨hr, h.exact.put (by omega), ?_⟩
  have hlimit : (c.put e).limit = (c.drop e.key).limit := by
    rw [hp, append, hm]
  by_cases hlt : m < (c.drop e.key).size
  · left
    have henough := (hc.sizes hd hs).2 hlt
    have hmono := total_le_of_sublist (List.drop_sublist_drop_left (c.drop e.key).entries hc.le)
    rw [htotal, hlimit]
    omega
  · right
    have hall : (c.drop e.key).entries.drop n = [] :=
      List.drop_eq_nil_of_le (Nat.le_trans (Nat.le_of_not_lt hlt) hc.le)
    rw [size, hentries, hall]
    exact Nat.le_refl 1

/-- Entries that were there before keep the limit as well. -/
theorem of_subperm (h : c.Within) {c' : Cache} (hr : c'.Regular) (he : c'.Exact)
    (hs : c'.entries.Subperm c.entries) (hl : c'.limit = c.limit) : c'.Within := by
  refine ⟨hr, he, ?_⟩
  obtain ⟨l, hp, hsub⟩ := hs
  have htotal : total c'.entries ≤ total c.entries :=
    total_perm hp ▸ total_le_of_sublist hsub
  have hsize : c'.size ≤ c.size := Nat.le_trans (Nat.le_of_eq hp.length_eq.symm) hsub.length_le
  rw [hl]
  rcases h.limited with h | h
  · left
    omega
  · right
    omega

theorem get (h : c.Within) (key : CacheKey) : (c.get key).2.Within := by
  have hswept : (c.swept key).entries.Sublist c.entries := by
    rw [swept]
    split
    · rw [Cache.entries_drop]
      exact List.eraseP_sublist
    · exact .refl _
  refine h.of_subperm (h.regular.get key) (h.exact.get key) ?_ (c.kept_use (.get key)).limit
  cases hf : (c.swept key).find? key with
  | none =>
    rw [get_missed hf]
    exact hswept.subperm
  | some x =>
    rw [get_found hf]
    exact (Regular.perm_countHit hf).subperm.trans hswept.subperm

theorem use {u : Use} (h : c.Within) (hs : c.summed u < UInt64.size) : (c.use u).2.Within := by
  cases u with
  | put e => exact h.put hs
  | get key => exact h.get key
  | clear => exact ⟨h.regular.use .clear, rfl, .inr (Nat.zero_le 1)⟩

/-- **Every use keeps the limit unless but one entry is left.** -/
theorem run {uses : List Use} (h : c.Within) (hs : c.InRange uses) : (c.run uses).Within := by
  induction uses generalizing c with
  | nil => exact h
  | cons u uses ih => exact ih (h.use hs.1) hs.2

/-- An entry beyond the limit is there without any other. -/
theorem alone (h : c.Within) (he : e ∈ c.entries) (hl : c.limit < e.size) :
    c.entries = [e] ∧ c.memory = e.size := by
  have hone : c.size ≤ 1 := by
    rcases h.limited with ht | hs
    · have := UInt64.lt_iff_toNat_lt.1 hl
      have := size_le_total he
      omega
    · exact hs
  obtain ⟨x, hx⟩ := List.length_eq_one_iff.1 (Nat.le_antisymm hone (List.length_pos_of_mem he))
  obtain rfl := List.mem_singleton.1 (hx ▸ he)
  refine ⟨hx, UInt64.toNat_inj.1 ?_⟩
  rw [h.exact, hx]
  simp

/-- If no entry alone is beyond the limit, they are not together either. -/
theorem memory_le (h : c.Within) (hs : ∀ e ∈ c.entries, e.size ≤ c.limit) : c.memory ≤ c.limit := by
  rw [UInt64.le_iff_toNat_le, h.exact]
  rcases h.limited with ht | hone
  · exact ht
  · rcases Nat.le_one_iff_eq_zero_or_eq_one.1 hone with h₀ | h₁
    · rw [List.length_eq_zero_iff.1 h₀]
      exact Nat.zero_le _
    · obtain ⟨x, hx⟩ := List.length_eq_one_iff.1 h₁
      rw [hx] at hs ⊢
      simpa using UInt64.le_iff_toNat_le.1 (hs x List.mem_cons_self)

end Within

/-- The entries that a run leaves were there or have been stored. -/
theorem mem_of_run {uses : List Use} (h : x ∈ (c.run uses).entries) :
    x ∈ c.entries ∨ .put x ∈ uses := by
  induction uses generalizing c with
  | nil => exact .inl h
  | cons u uses ih =>
    rcases ih h with h | h
    · cases u with
      | put e =>
        rcases mem_of_put h with rfl | h
        · exact .inr List.mem_cons_self
        · exact .inl h
      | get key => exact .inl (mem_of_get h)
      | clear => cases h
    · exact .inr (List.mem_cons_of_mem u h)

/-- **The limit in a run.** -/
structure Budgeted (c : Cache) (uses : List Use) : Prop where
  /-- The limit is kept as long as no stored entry alone is beyond it. -/
  kept : (∀ e, .put e ∈ uses → e.size ≤ c.limit) → (c.run uses).memory ≤ c.limit
  /-- An entry that is beyond the limit is there without any other. -/
  alone : ∀ e ∈ (c.run uses).entries, c.limit < e.size →
    (c.run uses).entries = [e] ∧ (c.run uses).memory = e.size

/-- **Whatever is done to a cache, its memory is within the limit, unless the only entry is one that
is beyond the limit by itself**; as long as no sum exceeds a word. -/
theorem budget_run (capacity megabytes : Nat) (expires : Bool) (uses : List Use)
    (h : (new capacity megabytes expires).InRange uses) :
    (new capacity megabytes expires).Budgeted uses := by
  have hw : (new capacity megabytes expires).Within :=
    ⟨regular_new capacity megabytes expires, rfl, .inr (Nat.zero_le 1)⟩
  have hw := hw.run h
  have hl := ((new capacity megabytes expires).kept_run uses).limit
  refine ⟨fun hs => ?_, fun e he hlt => hw.alone he (hl ▸ hlt)⟩
  rw [← hl] at hs ⊢
  refine hw.memory_le fun e he => ?_
  rcases mem_of_run he with he | he
  · cases he
  · exact hs e he

/-- A number that is followed by an image, which takes more than a megabyte. -/
def oversized : List Use := [.put (numbered "a" 1), .put (pictured "b" 1024 1024)]

theorem budget_run_oversized : (new 4 1 false).InRange oversized ∧
    (new 4 1 false).Budgeted oversized ∧
    ((new 4 1 false).run oversized).entries = [pictured "b" 1024 1024] := by
  have h : (new 4 1 false).InRange oversized := by decide +kernel
  exact ⟨h, budget_run 4 1 false oversized h, by decide +kernel⟩

/-- **An image that alone is beyond the limit is stored all the same.** -/
theorem not_withinBudget :
    ¬ ((new 4 1 false).run [.put (pictured "b" 1024 1024)]).memory ≤ (new 4 1 false).limit := by
  decide +kernel

end Cache

end PixelFlow
