import PixelFlow.Proofs.Cache
import PixelFlow.Proofs.Table
import Mathlib.Data.List.Nodup
import Mathlib.Logic.Function.Iterate

/-!
# Runs of a cache

A cache is used by storing, looking up and forgetting. Whatever the order, it holds one entry for
each key, and no more entries than it has places for. To store an entry is to take the old one of
its key out, to evict the least recently used entries one by one, and to put the new one last.

* `Cache.Use`, `Cache.run`, `Cache.answers`: sequences of uses.
* `Cache.evictOldest`: one eviction; **`Cache.makeRoom_eq`**, **`Cache.put_eq`**: storing as a
  number of evictions; `Cache.get_found`, `Cache.get_missed`: the ways in which a look-up ends.
* `Cache.kept_run`: the settings stay as they are.
* `Cache.Regular`: distinct keys, within the capacity; **`Cache.Regular.run`**.
-/

namespace PixelFlow.Cache

/-- What is done to a cache. -/
inductive Use
  | put (e : Entry)
  | get (key : CacheKey)
  | clear

/-- Whether a use is a look-up. -/
def Use.isGet : Use → Bool
  | .get _ => true
  | _ => false

/-- Do something to a cache. Only a look-up answers. -/
def use (c : Cache) : Use → Option (Table String Value) × Cache
  | .put e => (none, c.put e)
  | .get key => c.get key
  | .clear => (none, c.clear)

/-- What is left of a cache after a sequence of uses. -/
def run (c : Cache) : List Use → Cache
  | [] => c
  | u :: uses => (c.use u).2.run uses

/-- What a sequence of uses answers, one by one. -/
def answers (c : Cache) : List Use → List (Option (Table String Value))
  | [] => []
  | u :: uses => (c.use u).1 :: (c.use u).2.answers uses

theorem run_append (c : Cache) (us vs : List Use) : c.run (us ++ vs) = (c.run us).run vs := by
  induction us generalizing c with
  | nil => rfl
  | cons u us ih => exact ih _

/-- The entries of all keys but one, in order. -/
def others (c : Cache) (key : CacheKey) : List Entry := c.entries.filter (·.key ≠ key)

variable {c c' : Cache} {e x : Entry} {key : CacheKey} {n : Nat}

/-! ## Evictions -/

/-- Evict the least recently used entry, if there is one. -/
def evictOldest (c : Cache) : Cache :=
  match c.entries with
  | [] => c
  | e :: rest => c.evict e rest

theorem evictOldest_of_cons {rest : List Entry} (h : c.entries = e :: rest) :
    c.evictOldest = c.evict e rest := by
  rw [evictOldest, h]

/-- Evict the least recently used entry of a cache that has no place for another one. -/
def makePlace (c : Cache) : Cache :=
  if c.entries ≠ [] ∧ c.capacity ≤ c.size then c.evictOldest else c

/-- Put an entry behind all others. -/
def append (c : Cache) (e : Entry) : Cache :=
  { c with entries := c.entries ++ [e], memory := c.memory + e.size }

/-- **Storing in four steps.** -/
theorem put_eq (c : Cache) (e : Entry) :
    c.put e = (makeRoom e.size (c.drop e.key).entries (c.drop e.key)).makePlace.append e := by
  rw [put, makePlace]
  cases h : (makeRoom e.size (c.drop e.key).entries (c.drop e.key)).entries with
  | nil => simp [append, h]
  | cons oldest rest =>
    by_cases hf : (makeRoom e.size (c.drop e.key).entries (c.drop e.key)).capacity ≤
        (makeRoom e.size (c.drop e.key).entries (c.drop e.key)).size
    · simp [append, evictOldest, h, hf]
    · simp [append, h, hf]

/-- **Room is made by evictions**: by no more than are needed, and by enough unless none is left. -/
theorem makeRoom_eq (k : UInt64) (c : Cache) : ∃ n ≤ c.size,
    makeRoom k c.entries c = evictOldest^[n] c ∧
    (∀ m < n, c.limit < (evictOldest^[m] c).memory + k) ∧
    (n < c.size → (evictOldest^[n] c).memory + k ≤ c.limit) := by
  generalize h : c.entries = l
  induction l generalizing c with
  | nil =>
    refine ⟨0, Nat.zero_le _, rfl, fun m hm => absurd hm (Nat.not_lt_zero m), fun hn => ?_⟩
    simp [size, h] at hn
  | cons e rest ih =>
    have hs : c.size = rest.length + 1 := by simp [size, h]
    rw [makeRoom]
    by_cases hl : c.limit < c.memory + k
    · obtain ⟨n, hn, hr, hm, hd⟩ := ih (c.evict e rest) rfl
      have hn : n ≤ rest.length := hn
      refine ⟨n + 1, by omega, ?_, fun m hmn => ?_, fun hlt => ?_⟩
      · rw [if_pos hl, hr, Function.iterate_succ_apply, evictOldest_of_cons h]
      · cases m with
        | zero => exact hl
        | succ m =>
          rw [Function.iterate_succ_apply, evictOldest_of_cons h]
          exact hm m (by omega)
      · rw [Function.iterate_succ_apply, evictOldest_of_cons h]
        exact hd (show n < rest.length by omega)
    · refine ⟨0, Nat.zero_le _, if_neg hl, fun m hm => absurd hm (Nat.not_lt_zero m), fun _ => ?_⟩
      exact UInt64.not_lt.1 hl

/-- **Evictions change the entries, the memory and the count of evictions.** -/
theorem evict_eq (hn : n ≤ c.size) : ∃ memory, evictOldest^[n] c =
    { c with
      entries := c.entries.drop n
      memory := memory
      stats.evictions := c.stats.evictions + n } := by
  induction n with
  | zero => exact ⟨c.memory, rfl⟩
  | succ n ih =>
    obtain ⟨memory, h⟩ := ih (by omega)
    have hlt : n < c.entries.length := hn
    rw [Function.iterate_succ_apply', h]
    exact ⟨_, evictOldest_of_cons (List.drop_eq_getElem_cons hlt)⟩

/-! ## Single uses -/

theorem drop_eq (c : Cache) (key : CacheKey) : ∃ memory, c.drop key =
    { c with entries := c.entries.eraseP (·.key == key), memory := memory } := by
  unfold drop
  split
  · next h =>
    refine ⟨c.memory, ?_⟩
    rw [List.eraseP_of_forall_not (List.find?_eq_none.1 h)]
  · next x _ => exact ⟨c.memoryWithout x, rfl⟩

theorem entries_drop (c : Cache) (key : CacheKey) :
    (c.drop key).entries = c.entries.eraseP (·.key == key) := by
  obtain ⟨memory, h⟩ := c.drop_eq key
  rw [h]

/-- **`m` entries go for the memory of a new one, and `n - m` for its place**: the first ones until
it fits, and one more if all places are taken. -/
structure Clears (d : Cache) (k : UInt64) (m n : Nat) : Prop where
  le : m ≤ n
  le_size : n ≤ d.size
  needed : ∀ i < m, d.limit < (evictOldest^[i] d).memory + k
  enough : m < d.size → (evictOldest^[m] d).memory + k ≤ d.limit
  crowded : m < n → n = m + 1 ∧ d.capacity ≤ d.size - m
  place : d.size ≤ d.capacity → n < d.size → d.size - n < d.capacity

/-- **To store an entry is to take the old one of its key out, to evict, and to put it last.** -/
theorem put_spec (c : Cache) (e : Entry) : ∃ m n, (c.drop e.key).Clears e.size m n ∧
    c.put e = (evictOldest^[n] (c.drop e.key)).append e := by
  rw [put_eq]
  generalize c.drop e.key = d
  obtain ⟨m, hm, hr, needed, enough⟩ := makeRoom_eq e.size d
  obtain ⟨memory, h⟩ := evict_eq hm
  have hs : (evictOldest^[m] d).size = d.size - m := by
    rw [h]
    exact List.length_drop
  have hc : (evictOldest^[m] d).capacity = d.capacity := by rw [h]
  rw [hr, makePlace]
  by_cases hf : (evictOldest^[m] d).entries ≠ [] ∧ (evictOldest^[m] d).capacity ≤
      (evictOldest^[m] d).size
  · have hpos : 0 < (evictOldest^[m] d).size := List.length_pos_of_ne_nil hf.1
    have hfull : d.capacity ≤ d.size - m := hs ▸ hc ▸ hf.2
    refine ⟨m, m + 1, ⟨by omega, by omega, needed, enough, fun _ => ⟨rfl, hfull⟩, ?_⟩, ?_⟩
    · intro hb hlt
      omega
    · rw [if_pos hf, Function.iterate_succ_apply']
  · refine ⟨m, m, ⟨Nat.le_refl m, hm, needed, enough, fun h => absurd h (Nat.lt_irrefl m), ?_⟩, ?_⟩
    · intro _ hlt
      have hne : (evictOldest^[m] d).entries ≠ [] := by
        refine List.ne_nil_of_length_pos ?_
        show 0 < (evictOldest^[m] d).size
        omega
      have := not_and.1 hf hne
      omega
    · rw [if_neg hf]

/-- What storing changes: the entries, the memory and the count of evictions. -/
theorem append_evict_eq (hn : n ≤ (c.drop e.key).size) : ∃ memory,
    (evictOldest^[n] (c.drop e.key)).append e = { c with
      entries := (c.drop e.key).entries.drop n ++ [e]
      memory := memory
      stats.evictions := c.stats.evictions + n } := by
  obtain ⟨_, h⟩ := evict_eq hn
  obtain ⟨_, hd⟩ := c.drop_eq e.key
  rw [h, append, hd]
  exact ⟨_, rfl⟩

theorem swept_eq (c : Cache) (key : CacheKey) : ∃ memory,
    c.swept key = { c with entries := (c.swept key).entries, memory := memory } := by
  unfold swept
  split
  · obtain ⟨memory, h⟩ := c.drop_eq key
    exact ⟨memory, by rw [h]⟩
  · exact ⟨c.memory, rfl⟩

theorem swept_of_fresh (h : c.expires = false) (key : CacheKey) : c.swept key = c := by
  rw [swept, h]
  rfl

theorem swept_of_expired (h : c.expires = true) (key : CacheKey) : c.swept key = c.drop key := by
  rw [swept, h]
  rfl

/-- A look-up that finds an entry moves it to the end. -/
theorem get_found (h : (c.swept key).find? key = some x) :
    c.get key = (some x.outputs, (c.swept key).countHit x) := by
  rw [get, ← swept, h]

/-- A look-up that finds nothing counts a miss. -/
theorem get_missed (h : (c.swept key).find? key = none) :
    c.get key = (none, (c.swept key).countMiss) := by
  rw [get, ← swept, h]

/-- To store is no hit. -/
theorem hits_put (c : Cache) (e : Entry) : (c.put e).stats.hits = c.stats.hits := by
  obtain ⟨m, n, hc, hp⟩ := c.put_spec e
  obtain ⟨_, h⟩ := append_evict_eq hc.le_size
  rw [hp, h]

/-- A look-up is a hit iff it finds something. -/
theorem hits_get (c : Cache) (key : CacheKey) :
    (c.get key).2.stats.hits = c.stats.hits + if (c.get key).1.isSome then 1 else 0 := by
  obtain ⟨_, hw⟩ := c.swept_eq key
  have hs : (c.swept key).stats = c.stats := by rw [hw]
  cases hf : (c.swept key).find? key with
  | none =>
    rw [get_missed hf]
    show (c.swept key).stats.hits = _
    rw [hs]
    rfl
  | some x =>
    rw [get_found hf]
    show (c.swept key).stats.hits + 1 = _
    rw [hs]
    rfl

/-- The settings of a cache stay as they are. -/
structure Kept (c c' : Cache) : Prop where
  capacity : c'.capacity = c.capacity
  limit : c'.limit = c.limit
  expires : c'.expires = c.expires

theorem kept_use (c : Cache) (u : Use) : c.Kept (c.use u).2 := by
  cases u with
  | put e =>
    obtain ⟨m, n, hc, hp⟩ := c.put_spec e
    obtain ⟨memory, h⟩ := append_evict_eq hc.le_size
    show c.Kept (c.put e)
    rw [hp, h]
    exact ⟨rfl, rfl, rfl⟩
  | get key =>
    obtain ⟨memory, h⟩ := c.swept_eq key
    show c.Kept (c.get key).2
    cases hf : (c.swept key).find? key with
    | none =>
      rw [get_missed hf, h]
      exact ⟨rfl, rfl, rfl⟩
    | some x =>
      rw [get_found hf, h]
      exact ⟨rfl, rfl, rfl⟩
  | clear => exact ⟨rfl, rfl, rfl⟩

theorem kept_run (c : Cache) (uses : List Use) : c.Kept (c.run uses) := by
  induction uses generalizing c with
  | nil => exact ⟨rfl, rfl, rfl⟩
  | cons u uses ih =>
    have first := c.kept_use u
    have rest := ih (c.use u).2
    exact ⟨rest.capacity.trans first.capacity, rest.limit.trans first.limit,
      rest.expires.trans first.expires⟩

/-! ## Regular caches -/

/-- **A cache holds one entry for each key, and no more entries than it has places for.** -/
structure Regular (c : Cache) : Prop where
  distinct : (c.entries.map (·.key)).Nodup
  positive : 0 < c.capacity
  bounded : c.size ≤ c.capacity

theorem regular_new (capacity megabytes : Nat) (expires : Bool) :
    (new capacity megabytes expires).Regular where
  distinct := List.nodup_nil
  positive := by
    show 0 < if capacity = 0 then defaultCapacity else capacity
    split
    · decide
    · omega
  bounded := Nat.zero_le _

/-- Where keys are distinct, the first entry of a key is the only one. -/
theorem eraseP_eq_filter {l : List Entry} (h : (l.map (·.key)).Nodup) (key : CacheKey) :
    l.eraseP (·.key == key) = l.filter (·.key ≠ key) := by
  induction l with
  | nil => rfl
  | cons y l ih =>
    obtain ⟨hy, hl⟩ := List.nodup_cons.1 h
    by_cases hk : y.key = key
    · have others : ∀ z ∈ l, z.key ≠ key := fun z hz e =>
        hy (List.mem_map.2 ⟨z, hz, e.trans hk.symm⟩)
      rw [List.eraseP_cons_of_pos (by simpa using hk), List.filter_cons_of_neg (by simpa using hk),
        List.filter_eq_self.2 fun z hz => by simpa using others z hz]
    · rw [List.eraseP_cons_of_neg (by simpa using hk), List.filter_cons_of_pos (by simpa using hk),
        ih hl]

/-- An entry of a new key may be put behind entries of distinct keys. -/
theorem distinct_concat {l : List Entry} (h : (l.map (·.key)).Nodup)
    (hk : ∀ y ∈ l, y.key ≠ e.key) : ((l ++ [e]).map (·.key)).Nodup := by
  rw [List.map_append, List.nodup_append]
  refine ⟨h, by simp, fun a ha b hb => ?_⟩
  obtain ⟨y, hy, rfl⟩ := List.mem_map.1 ha
  rw [List.mem_singleton.1 hb]
  exact hk y hy

namespace Regular

theorem entries_drop (h : c.Regular) (key : CacheKey) : (c.drop key).entries = c.others key := by
  rw [Cache.entries_drop, eraseP_eq_filter h.distinct, others]

/-- Fewer entries are as regular. -/
theorem of_sublist (h : c.Regular) (hs : c'.entries.Sublist c.entries)
    (hc : c'.capacity = c.capacity) : c'.Regular where
  distinct := h.distinct.sublist (hs.map _)
  positive := hc ▸ h.positive
  bounded := hc ▸ Nat.le_trans hs.length_le h.bounded

theorem drop (h : c.Regular) (key : CacheKey) : (c.drop key).Regular := by
  obtain ⟨memory, e⟩ := c.drop_eq key
  rw [e]
  exact h.of_sublist List.eraseP_sublist rfl

theorem swept (h : c.Regular) (key : CacheKey) : (c.swept key).Regular := by
  rw [Cache.swept]
  split
  · exact h.drop key
  · exact h

/-- An entry of a new key may be put last if there is a place for it. -/
theorem append (h : c.Regular) (hk : ∀ y ∈ c.entries, y.key ≠ e.key) (hs : c.size < c.capacity) :
    (c.append e).Regular where
  distinct := distinct_concat h.distinct hk
  positive := h.positive
  bounded := by
    show (c.entries ++ [e]).length ≤ c.capacity
    rw [List.length_append]
    exact hs

theorem evict (h : c.Regular) (hn : n ≤ c.size) : (evictOldest^[n] c).Regular := by
  obtain ⟨memory, e⟩ := evict_eq hn
  rw [e]
  exact h.of_sublist (List.drop_sublist n _) rfl

theorem put (h : c.Regular) (e : Entry) : (c.put e).Regular := by
  obtain ⟨m, n, hc, hp⟩ := c.put_spec e
  have hd := h.drop e.key
  obtain ⟨memory, hm⟩ := evict_eq hc.le_size
  rw [hp]
  refine (hd.evict hc.le_size).append (fun y hy => ?_) ?_
  · rw [hm] at hy
    have : y ∈ c.others e.key := h.entries_drop e.key ▸ List.mem_of_mem_drop hy
    simpa using (List.mem_filter.1 this).2
  · rw [hm]
    show ((c.drop e.key).entries.drop n).length < (c.drop e.key).capacity
    rw [List.length_drop]
    show (c.drop e.key).size - n < _
    by_cases hn : n < (c.drop e.key).size
    · exact hc.place hd.bounded hn
    · have := hd.positive
      omega

/-- What is found comes last, and nothing else changes its place. -/
theorem entries_countHit (h : c.Regular) (x : Entry) :
    (c.countHit x).entries = c.others x.key ++ [x] :=
  congrArg (· ++ [x]) (eraseP_eq_filter h.distinct x.key)

/-- What is found was there, so a hit permutes the entries. -/
theorem perm_countHit (hf : c.find? key = some x) : (c.countHit x).entries.Perm c.entries := by
  obtain rfl := (find?_spec hf).2
  exact List.perm_append_singleton x _ |>.trans (perm_cons_eraseP hf).symm

theorem countHit (h : c.Regular) (hf : c.find? key = some x) : (c.countHit x).Regular where
  distinct := ((perm_countHit hf).map _).nodup_iff.2 h.distinct
  positive := h.positive
  bounded := Nat.le_trans (Nat.le_of_eq (perm_countHit hf).length_eq) h.bounded

theorem get (h : c.Regular) (key : CacheKey) : (c.get key).2.Regular := by
  cases hf : (c.swept key).find? key with
  | none =>
    rw [get_missed hf]
    exact ⟨(h.swept key).distinct, (h.swept key).positive, (h.swept key).bounded⟩
  | some x =>
    rw [get_found hf]
    exact (h.swept key).countHit hf

theorem use (h : c.Regular) (u : Use) : (c.use u).2.Regular := by
  cases u with
  | put e => exact h.put e
  | get key => exact h.get key
  | clear => exact ⟨List.nodup_nil, h.positive, Nat.zero_le _⟩

/-- **Every use keeps a cache regular.** -/
theorem run (h : c.Regular) (uses : List Use) : (c.run uses).Regular := by
  induction uses generalizing c with
  | nil => exact h
  | cons u uses ih => exact ih (h.use u)

end Regular

end PixelFlow.Cache
