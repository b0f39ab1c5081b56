/-!
# Insertion-ordered tables

A table lists its entries in the order in which their keys came first. Writing a key that is there
keeps its place and replaces its value; erasing a key closes the gap.

* `Table.get?_insert`, `Table.get?_erase`: what a lookup finds after a change.
* `Table.keys_insert_of_mem`, `Table.keys_insert_of_notMem`: an old key keeps its place, a new one
  comes last.
-/

namespace PixelFlow

universe u v

/-- Entries with distinct keys, in the order of their first insertion. -/
structure Table (κ : Type u) (α : Type v) where
  entries : List (κ × α)
  nodup : (entries.map Prod.fst).Nodup

namespace Table

variable {κ : Type u} {α : Type v} {β : Type v}

theorem ext {s t : Table κ α} (h : s.entries = t.entries) : s = t := by
  cases s; cases t; cases h; rfl

instance [DecidableEq κ] [DecidableEq α] : DecidableEq (Table κ α) := fun s t =>
  if h : s.entries = t.entries then isTrue (ext h) else isFalse fun e => h (e ▸ rfl)

/-- The table without entries. -/
def empty : Table κ α := ⟨[], List.nodup_nil⟩

instance : EmptyCollection (Table κ α) := ⟨empty⟩
instance : Inhabited (Table κ α) := ⟨empty⟩

/-- The keys, oldest first. -/
def keys (t : Table κ α) : List κ := t.entries.map Prod.fst

/-- The values, in the order of their keys. -/
def values (t : Table κ α) : List α := t.entries.map Prod.snd

/-- The number of entries. -/
def size (t : Table κ α) : Nat := t.entries.length

def isEmpty (t : Table κ α) : Bool := t.entries.isEmpty

section Lookup

variable [DecidableEq κ]

/-- The value in a list of entries under a key. -/
def lookup (k : κ) : List (κ × α) → Option α
  | [] => none
  | (k', v) :: r => if k' = k then some v else lookup k r

def get? (t : Table κ α) (k : κ) : Option α := lookup k t.entries

def contains (t : Table κ α) (k : κ) : Bool := (t.get? k).isSome

instance : Membership κ (Table κ α) := ⟨fun t k => k ∈ t.keys⟩

instance (t : Table κ α) (k : κ) : Decidable (k ∈ t) := inferInstanceAs (Decidable (k ∈ t.keys))

/-- Write an entry into a list of entries: in place if the key is there, else at the end. -/
def write (k : κ) (v : α) : List (κ × α) → List (κ × α)
  | [] => [(k, v)]
  | (k', v') :: r => if k' = k then (k, v) :: r else (k', v') :: write k v r

theorem fst_write (k : κ) (v : α) (l : List (κ × α)) :
    (write k v l).map Prod.fst =
      if k ∈ l.map Prod.fst then l.map Prod.fst else l.map Prod.fst ++ [k] := by
  induction l with
  | nil => simp [write]
  | cons e r ih =>
    obtain ⟨k', v'⟩ := e
    by_cases h : k' = k
    · subst h; simp [write]
    · have h' : ¬ k = k' := fun e => h e.symm
      simp only [write, h, if_false, List.map_cons, ih, List.mem_cons, h', false_or]
      split <;> simp

theorem nodup_write (k : κ) (v : α) {l : List (κ × α)} (h : (l.map Prod.fst).Nodup) :
    ((write k v l).map Prod.fst).Nodup := by
  rw [fst_write]
  split
  · exact h
  · next hk =>
    refine List.nodup_append.2 ⟨h, by simp, ?_⟩
    intro a ha b hb e
    simp only [List.mem_singleton] at hb
    subst hb; subst e; exact hk ha

/-- Write one entry. -/
def insert (t : Table κ α) (k : κ) (v : α) : Table κ α :=
  ⟨write k v t.entries, nodup_write k v t.nodup⟩

/-- Remove the entry of a key, if any. -/
def erase (t : Table κ α) (k : κ) : Table κ α :=
  ⟨t.entries.filter fun e => e.1 ≠ k, t.nodup.sublist (List.filter_sublist.map _)⟩

/-- Change the value of a key, if it is there. -/
def modify (t : Table κ α) (k : κ) (f : α → α) : Table κ α :=
  ⟨t.entries.map fun e => if e.1 = k then (e.1, f e.2) else e, by
    have : (t.entries.map fun e => if e.1 = k then (e.1, f e.2) else e).map Prod.fst =
        t.entries.map Prod.fst := by
      rw [List.map_map]
      refine List.map_congr_left fun e _ => ?_
      simp only [Function.comp]
      split <;> rfl
    rw [this]; exact t.nodup⟩

/-- Write all entries of a list, in order. -/
def insertMany (t : Table κ α) (l : List (κ × α)) : Table κ α :=
  l.foldl (fun t e => t.insert e.1 e.2) t

/-- The table of a list of entries: a repeated key keeps its first place and its last value. -/
def ofList (l : List (κ × α)) : Table κ α := empty.insertMany l

/-- Whether two tables hold equal values under the same keys, in whatever order. -/
def agrees (eq : α → α → Bool) (s t : Table κ α) : Bool :=
  s.size == t.size && s.entries.all fun e =>
    match t.get? e.1 with
    | some v => eq e.2 v
    | none => false

/-! ## Lookups after changes -/

@[simp] theorem get?_empty (k : κ) : (empty : Table κ α).get? k = none := rfl

theorem lookup_write (k j : κ) (v : α) (l : List (κ × α)) :
    lookup j (write k v l) = if k = j then some v else lookup j l := by
  induction l with
  | nil => simp [write, lookup]
  | cons e r ih =>
    obtain ⟨k', v'⟩ := e
    by_cases h : k' = k
    · subst h; by_cases hj : k' = j <;> simp [write, lookup, hj]
    · by_cases hj : k' = j
      · subst hj; have : ¬ k = k' := fun e => h e.symm
        simp [write, lookup, h, this]
      · simp [write, lookup, h, hj, ih]

theorem get?_insert (t : Table κ α) (k j : κ) (v : α) :
    (t.insert k v).get? j = if k = j then some v else t.get? j := lookup_write ..

@[simp] theorem get?_insert_self (t : Table κ α) (k : κ) (v : α) :
    (t.insert k v).get? k = some v := by simp [get?_insert]

theorem lookup_filter (k j : κ) (l : List (κ × α)) :
    lookup j (l.filter fun e => e.1 ≠ k) = if k = j then none else lookup j l := by
  induction l with
  | nil => simp [lookup]
  | cons e r ih =>
    obtain ⟨k', v'⟩ := e
    by_cases h : k' = k
    · subst h
      by_cases hj : k' = j
      · subst hj; simpa using ih
      · simpa [lookup, hj] using ih
    · by_cases hj : k' = j
      · subst hj; have : ¬ k = k' := fun e => h e.symm
        simp [lookup, h, this]
      · simp only [ne_eq, decide_not] at ih
        simp [lookup, h, hj, ih]

theorem get?_erase (t : Table κ α) (k j : κ) :
    (t.erase k).get? j = if k = j then none else t.get? j := lookup_filter ..

theorem lookup_map (k j : κ) (f : α → α) (l : List (κ × α)) :
    lookup j (l.map fun e => if e.1 = k then (e.1, f e.2) else e) =
      if k = j then (lookup j l).map f else lookup j l := by
  induction l with
  | nil => simp [lookup]
  | cons e r ih =>
    obtain ⟨k', v'⟩ := e
    by_cases h : k' = k
    · subst h
      by_cases hj : k' = j
      · simp [lookup, hj]
      · simp only [List.map_cons, if_true, lookup, hj, if_false, ih]
    · by_cases hj : k' = j
      · subst hj; have : ¬ k = k' := fun e => h e.symm
        simp [lookup, h, this]
      · simp only [List.map_cons, h, if_false, lookup, hj, ih]

theorem get?_modify (t : Table κ α) (k j : κ) (f : α → α) :
    (t.modify k f).get? j = if k = j then (t.get? j).map f else t.get? j := lookup_map ..

theorem isSome_lookup_iff (k : κ) (l : List (κ × α)) :
    (lookup k l).isSome ↔ k ∈ l.map Prod.fst := by
  induction l with
  | nil => simp [lookup]
  | cons e r ih =>
    obtain ⟨k', v'⟩ := e
    by_cases h : k' = k
    · simp [lookup, h]
    · have : ¬ k = k' := fun e => h e.symm
      simp [lookup, h, this, ih]

theorem contains_iff (t : Table κ α) (k : κ) : t.contains k ↔ k ∈ t.keys := isSome_lookup_iff ..

theorem mem_iff_isSome (t : Table κ α) (k : κ) : k ∈ t.keys ↔ (t.get? k).isSome :=
  (isSome_lookup_iff ..).symm

theorem lookup_eq_some_iff {l : List (κ × α)} (h : (l.map Prod.fst).Nodup) (k : κ) (v : α) :
    lookup k l = some v ↔ (k, v) ∈ l := by
  induction l with
  | nil => simp [lookup]
  | cons e r ih =>
    obtain ⟨k', v'⟩ := e
    obtain ⟨hk, hr⟩ := List.nodup_cons.1 (show (k' :: r.map Prod.fst).Nodup from h)
    by_cases he : k' = k
    · subst he
      have : ∀ w, (k', w) ∈ r → False := fun w hw => hk (List.mem_map.2 ⟨_, hw, rfl⟩)
      simp only [lookup, if_true, Option.some.injEq, List.mem_cons, Prod.mk.injEq, true_and]
      exact ⟨fun e => Or.inl e.symm, fun o => o.elim Eq.symm fun hw => (this v hw).elim⟩
    · have : ¬ k = k' := fun e => he e.symm
      simp [lookup, he, this, ih hr]

theorem get?_eq_some_iff (t : Table κ α) (k : κ) (v : α) :
    t.get? k = some v ↔ (k, v) ∈ t.entries := lookup_eq_some_iff t.nodup k v

/-! ## Keys after changes -/

theorem keys_insert (t : Table κ α) (k : κ) (v : α) :
    (t.insert k v).keys = if k ∈ t.keys then t.keys else t.keys ++ [k] := fst_write ..

theorem keys_insert_of_mem {t : Table κ α} {k : κ} (h : k ∈ t.keys) (v : α) :
    (t.insert k v).keys = t.keys := by simp [keys_insert, h]

theorem keys_insert_of_notMem {t : Table κ α} {k : κ} (h : k ∉ t.keys) (v : α) :
    (t.insert k v).keys = t.keys ++ [k] := by simp [keys_insert, h]

theorem keys_erase (t : Table κ α) (k : κ) :
    (t.erase k).keys = t.keys.filter fun j => j ≠ k := by
  simp only [keys, erase, List.filter_map]
  rfl

theorem keys_modify (t : Table κ α) (k : κ) (f : α → α) : (t.modify k f).keys = t.keys := by
  simp only [keys, modify, List.map_map]
  refine List.map_congr_left fun e _ => ?_
  simp only [Function.comp]
  split <;> rfl

end Lookup

theorem nodup_keys (t : Table κ α) : t.keys.Nodup := t.nodup

/-- Map the values. -/
def map (f : α → β) (t : Table κ α) : Table κ β :=
  ⟨t.entries.map fun e => (e.1, f e.2), by
    rw [List.map_map]; exact t.nodup⟩

end Table

end PixelFlow
