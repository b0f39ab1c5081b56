import PixelFlow.Cache

/-!
# What a cache may hold

Look-ups add no entries, and storing adds the stored one only; so whatever is true of all entries
stays true as long as it is true of those that are stored.

* `Cache.mem_of_get`: no look-up brings an entry.
* **`Cache.get_eq_some`**: what a look-up finds is an entry of its key.
* **`Cache.mem_of_put`**: after storing, there are old entries and the new one.
-/

namespace PixelFlow.Cache

variable {c : Cache} {x : Entry} {key : CacheKey} {outputs : Table String Value}

theorem mem_of_drop (h : x ∈ (c.drop key).entries) : x ∈ c.entries := by
  unfold drop at h
  split at h
  · exact h
  · exact List.mem_of_mem_eraseP h

/-- The cache in which a key is looked up, without what has expired. -/
def swept (c : Cache) (key : CacheKey) : Cache := if c.expires then c.drop key else c

theorem mem_of_swept (h : x ∈ (c.swept key).entries) : x ∈ c.entries := by
  unfold swept at h
  split at h
  · exact mem_of_drop h
  · exact h

theorem find?_spec (h : c.find? key = some x) : x ∈ c.entries ∧ x.key = key :=
  ⟨List.mem_of_find?_eq_some h, by simpa using List.find?_some h⟩

/-- **What a look-up finds are the outputs of an entry of its key.** -/
theorem get_eq_some (h : (c.get key).1 = some outputs) :
    ∃ x ∈ c.entries, x.key = key ∧ x.outputs = outputs := by
  rw [get, ← swept] at h
  split at h
  · next x hx =>
    obtain ⟨hm, hk⟩ := find?_spec hx
    exact ⟨x, mem_of_swept hm, hk, Option.some.inj h⟩
  · cases h

theorem mem_of_get (h : x ∈ (c.get key).2.entries) : x ∈ c.entries := by
  rw [get, ← swept] at h
  split at h
  · next y hy =>
    rcases List.mem_append.1 h with h | h
    · exact mem_of_swept (List.mem_of_mem_eraseP h)
    · rw [List.mem_singleton.1 h]
      exact mem_of_swept (find?_spec hy).1
  · exact mem_of_swept h

theorem mem_of_makeRoom {k : UInt64} {l : List Entry} (hl : l = c.entries)
    (h : x ∈ (makeRoom k l c).entries) : x ∈ c.entries := by
  induction l generalizing c with
  | nil => exact h
  | cons e l ih =>
    unfold makeRoom at h
    split at h
    · rw [← hl]
      exact List.mem_cons_of_mem e (ih (c := c.evict e l) rfl h)
    · exact h

/-- **After storing, each entry is the stored one or an old one.** -/
theorem mem_of_put {e : Entry} (h : x ∈ (c.put e).entries) : x = e ∨ x ∈ c.entries := by
  unfold put at h
  dsimp only at h
  rcases List.mem_append.1 h with h | h
  · have hm : x ∈ (makeRoom e.size (c.drop e.key).entries (c.drop e.key)).entries := by
      split at h
      · next heq =>
        split at h
        · rw [heq]
          exact List.mem_cons_of_mem _ h
        · exact h
      · exact h
    exact .inr (mem_of_drop (mem_of_makeRoom rfl hm))
  · exact .inl (List.mem_singleton.1 h)

end PixelFlow.Cache
