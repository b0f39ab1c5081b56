import PixelFlow.Proofs.Cache.Recency

/-!
# A cache as a recency list

A cache whose entries do not expire is a recency list that keeps accounts. It evicts for memory
first and for a place afterwards, one entry at a time; together these are just the evictions after
which the new entry fits. If entries expire at once, nothing is ever found.

* `Cache.recency`: what a cache shows of a recency list.
* **`Cache.use_refines`**: each use is one of the recency list, as long as sums fit into a word.
* `Cache.RefinesRecency`, `Cache.Forgets`, **`Cache.refines_recency`**: whole runs.
-/

namespace PixelFlow.Cache

variable {c : Cache} {e x : Entry} {key : CacheKey} {u : Use} {uses : List Use}

/-- What a cache shows of a recency list. -/
def recency (c : Cache) : Recency where
  capacity := c.capacity
  limit := c.limit.toNat
  entries := c.entries
  hits := c.stats.hits
  misses := c.stats.misses
  evictions := c.stats.evictions

/-- What is cleared for an entry, for memory and for a place, is what does not stay. -/
theorem Clears.staying {m n : Nat} (h : (c.drop e.key).Clears e.size m n) (hc : c.Regular)
    (he : c.Exact) (hs : c.summed (.put e) < UInt64.size) :
    c.recency.staying e = (c.drop e.key).entries.drop n := by
  have ho : c.recency.others e.key = (c.drop e.key).entries := (hc.entries_drop e.key).symm
  obtain ⟨_, hd⟩ := c.drop_eq e.key
  have hlimit : (c.drop e.key).limit = c.limit := by rw [hd]
  have hcapacity : (c.drop e.key).capacity = c.capacity := by rw [hd]
  have hs : total (c.drop e.key).entries + e.size.toNat < UInt64.size :=
    (hc.entries_drop e.key).symm ▸ hs
  have ⟨needed, enough⟩ := h.sizes (he.drop e.key) hs
  rw [Recency.staying, ho]
  refine Recency.find?_tails (fun hn => ⟨?_, ?_⟩) fun i hi _ hf => ?_
  · have hle := total_le_of_sublist (List.drop_sublist_drop_left (c.drop e.key).entries h.le)
    have := enough (Nat.lt_of_le_of_lt h.le hn)
    show _ ≤ c.limit.toNat
    rw [← hlimit]
    omega
  · rw [List.length_drop]
    show _ < c.capacity
    rw [← hcapacity]
    exact h.place (hc.drop e.key).bounded hn
  · obtain ⟨hmemory, hplace⟩ : total _ + _ ≤ c.limit.toNat ∧ List.length _ < c.capacity := hf
    by_cases him : i < m
    · have := needed i him
      rw [hlimit] at this
      omega
    · obtain ⟨rfl, hcrowded⟩ := h.crowded (by omega)
      obtain rfl : i = m := by omega
      rw [hcapacity] at hcrowded
      rw [List.length_drop] at hplace
      exact absurd hplace (Nat.not_lt.2 hcrowded)

theorem put_refines (hc : c.Regular) (he : c.Exact) (hs : c.summed (.put e) < UInt64.size) :
    (c.put e).recency = c.recency.put e := by
  obtain ⟨m, n, h, hp⟩ := c.put_spec e
  obtain ⟨memory, heq⟩ := append_evict_eq (c := c) (e := e) h.le_size
  have hstay := h.staying hc he hs
  have hgone : (c.recency.evicted (.put e)).length = n := by
    have hlen := congrArg List.length (c.recency.evicted_append_staying e)
    have ho : c.recency.others e.key = (c.drop e.key).entries := (hc.entries_drop e.key).symm
    rw [List.length_append, hstay, ho, List.length_drop] at hlen
    have := h.le_size
    unfold size at this
    omega
  rw [hp, heq, Recency.put, hstay, hgone]
  rfl

theorem get_refines (hc : c.Regular) (hx : c.expires = false) (key : CacheKey) :
    (c.get key).1 = (c.recency.get key).1 ∧ (c.get key).2.recency = (c.recency.get key).2 := by
  have hw := swept_of_fresh hx key
  rw [Recency.get]
  cases hf : c.find? key with
  | none =>
    rw [get_missed (hw.symm ▸ hf), hw, show c.recency.entries.find? (·.key == key) = none from hf]
    exact ⟨rfl, rfl⟩
  | some x =>
    rw [get_found (hw.symm ▸ hf), hw, show c.recency.entries.find? (·.key == key) = some x from hf]
    obtain ⟨_, rfl⟩ := find?_spec hf
    refine ⟨rfl, ?_⟩
    rw [recency, hc.entries_countHit x]
    rfl

/-- **Each use of a cache is one of the recency list**, as long as the sum that is formed fits into
a word. -/
theorem use_refines (h : c.Within) (hx : c.expires = false) (hs : c.summed u < UInt64.size) :
    (c.use u).1 = (c.recency.use u).1 ∧ (c.use u).2.recency = (c.recency.use u).2 := by
  cases u with
  | put e => exact ⟨rfl, put_refines h.regular h.exact hs⟩
  | get key => exact get_refines h.regular hx key
  | clear => exact ⟨rfl, rfl⟩

theorem run_refines (h : c.Within) (hx : c.expires = false) (hs : c.InRange uses) :
    c.answers uses = c.recency.answers uses ∧ (c.run uses).recency = c.recency.run uses := by
  induction uses generalizing c with
  | nil => exact ⟨rfl, rfl⟩
  | cons u uses ih =>
    obtain ⟨hanswer, hstate⟩ := use_refines h hx hs.1
    obtain ⟨hanswers, hrun⟩ := ih (h.use hs.1) ((c.kept_use u).expires.trans hx) hs.2
    rw [answers, run, Recency.answers, Recency.run, hanswer, hanswers, hrun, hstate]
    exact ⟨rfl, rfl⟩

theorem inRange_append {vs : List Use} :
    c.InRange (uses ++ vs) ↔ c.InRange uses ∧ (c.run uses).InRange vs := by
  induction uses generalizing c with
  | nil => exact ⟨fun h => ⟨trivial, h⟩, And.right⟩
  | cons u uses ih => exact (and_congr_right fun _ => ih).trans and_assoc.symm

/-- **A cache refines a recency list in a run.** -/
structure RefinesRecency (c : Cache) (uses : List Use) : Prop where
  /-- It gives the same answers. -/
  answers : c.answers uses = c.recency.answers uses
  /-- It shows the same list, bounds and counts afterwards. -/
  state : (c.run uses).recency = c.recency.run uses
  /-- A look-up finds the outputs that were last stored under the key, unless all has been forgotten
  or the entry has been evicted since. -/
  found : ∀ key outputs, ((c.run uses).get key).1 = some outputs ↔
    ∃ e, c.recency.Remembers uses e ∧ e.key = key ∧ e.outputs = outputs
  /-- Whenever an entry is stored, no more of the others go than need to, the least recently used
  ones first, and each of them counts. -/
  stored : ∀ pre e post, uses = pre ++ .put e :: post → ∃ going staying,
    (c.run pre).recency.Parts e going staying ∧
    (c.run (pre ++ [.put e])).entries = staying ++ [e] ∧
    (c.run (pre ++ [.put e])).stats.evictions = (c.run pre).stats.evictions + going.length
  /-- A look-up evicts nothing. -/
  kept : ∀ key, ((c.run uses).get key).2.entries.Perm (c.run uses).entries ∧
    ((c.run uses).get key).2.stats.evictions = (c.run uses).stats.evictions
  /-- Entries come in the order in which they were last stored or found. -/
  order : ((c.run uses).entries.map (·.key)).Sublist (c.recency.touched uses).dedup
  /-- Each look-up is a hit or a miss. -/
  looked : (c.run uses).stats.hits + (c.run uses).stats.misses = uses.countP (·.isGet)
  /-- Nothing else than the entries that are evicted counts as an eviction. -/
  evicted : (c.run uses).stats.evictions = (c.recency.evictees uses).length

/-- **A look-up of an expired entry** misses and takes just the entry of its key away, which is no
eviction. -/
structure Forgets (c : Cache) (key : CacheKey) : Prop where
  missed : (c.get key).1 = none
  removed : (c.get key).2.entries = c.others key
  counted : (c.get key).2.stats = { c.stats with misses := c.stats.misses + 1 }

theorem Regular.forgets (h : c.Regular) (hx : c.expires = true) (key : CacheKey) :
    c.Forgets key := by
  have hw := swept_of_expired hx key
  have hf : (c.swept key).find? key = none := by
    rw [hw, Cache.find?, h.entries_drop key]
    simp [others]
  obtain ⟨_, hd⟩ := c.drop_eq key
  refine ⟨by rw [get_missed hf], ?_, ?_⟩
  · rw [get_missed hf, hw]
    exact h.entries_drop key
  · rw [get_missed hf, hw, hd]
    rfl

/-- Where entries do not expire, a look-up changes their order alone. -/
theorem get_perm (hx : c.expires = false) (key : CacheKey) :
    (c.get key).2.entries.Perm c.entries ∧ (c.get key).2.stats.evictions = c.stats.evictions := by
  have hw := swept_of_fresh hx key
  cases hf : c.find? key with
  | none =>
    rw [get_missed (hw.symm ▸ hf), hw]
    exact ⟨.refl _, rfl⟩
  | some x =>
    rw [get_found (hw.symm ▸ hf), hw]
    exact ⟨Regular.perm_countHit hf, rfl⟩

/-- Where entries do not expire, a look-up finds whatever is there. -/
theorem Regular.get_eq_some_iff (h : c.Regular) (hx : c.expires = false)
    {outputs : Table String Value} : (c.get key).1 = some outputs ↔
      ∃ e ∈ c.entries, e.key = key ∧ e.outputs = outputs := by
  refine ⟨get_eq_some, fun ⟨e, he, hk, ho⟩ => ?_⟩
  have hd : c.recency.Distinct := h.distinct
  have hf : (c.swept key).find? key = some e := by
    rw [swept_of_fresh hx key]
    exact hd.find?.2 ⟨he, hk⟩
  rw [get_found hf, ho]

/-- **A cache refines a recency list**: if entries never expire, in any run in which no sum exceeds
a word; and if they expire at once, each look-up misses. -/
theorem refines_recency (capacity megabytes : Nat) (uses : List Use) :
    ((new capacity megabytes false).InRange uses →
      (new capacity megabytes false).RefinesRecency uses) ∧
    ∀ key, ((new capacity megabytes true).run uses).Forgets key := by
  refine ⟨fun hs => ?_, fun key => ?_⟩
  · have hw : (new capacity megabytes false).Within :=
      ⟨regular_new capacity megabytes false, rfl, .inr (Nat.zero_le 1)⟩
    have hx : (new capacity megabytes false).expires = false := rfl
    have hempty : (new capacity megabytes false).recency.entries = [] := rfl
    have hcounts : (new capacity megabytes false).stats = ⟨0, 0, 0, 0⟩ := rfl
    generalize new capacity megabytes false = c at *
    obtain ⟨answers, state⟩ := run_refines hw hx hs
    have hw' := hw.run hs
    have hx' : (c.run uses).expires = false := (c.kept_run uses).expires.trans hx
    have hcount : (c.run uses).recency.hits + (c.run uses).recency.misses =
        uses.countP (·.isGet) := by
      rw [state, Recency.looked_run, recency, hcounts]
      exact Nat.zero_add _
    have hevictions : (c.run uses).recency.evictions = (c.recency.evictees uses).length := by
      rw [state, Recency.evictions_run, recency, hcounts]
      exact Nat.zero_add _
    refine ⟨answers, state, fun key outputs => ?_, ?_, get_perm hx', ?_, hcount,
      hevictions⟩
    · rw [hw'.regular.get_eq_some_iff hx']
      refine exists_congr fun e => and_congr_left fun _ => ?_
      rw [← Recency.mem_run hempty uses, ← state]
      exact Iff.rfl
    · rintro pre e post rfl
      obtain ⟨hpre, hpost⟩ := inRange_append.1 hs
      have hput := put_refines (hw.run hpre).regular (hw.run hpre).exact hpost.1
      refine ⟨_, _, Recency.parts_staying _ e, ?_, ?_⟩
      · rw [run_append]
        exact congrArg Recency.entries hput
      · rw [run_append]
        exact congrArg Recency.evictions hput
    · rw [show (c.run uses).entries = (c.recency.run uses).entries from
        congrArg Recency.entries state]
      exact Recency.order_run hempty uses
  · exact ((regular_new capacity megabytes true).run uses).forgets
      ((new capacity megabytes true).kept_run uses).expires key

theorem refines_recency_reused : (new 2 512 false).InRange reused ∧
    (new 2 512 false).RefinesRecency reused ∧
    ((new 2 512 true).run reused).Forgets ⟨"a", [1]⟩ := by
  have h : (new 2 512 false).InRange reused := by decide +kernel
  have hr := refines_recency 2 512 reused
  exact ⟨h, hr.1 h, hr.2 ⟨"a", [1]⟩⟩

/-- **If the sum of two sizes exceeds a word, an entry stays that should be evicted.** -/
theorem not_refinesRecency : ¬ (new 10 512 false).RefinesRecency overflowing :=
  fun h => absurd h.state (by decide +kernel)

end PixelFlow.Cache
