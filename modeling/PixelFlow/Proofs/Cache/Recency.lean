import PixelFlow.Proofs.Cache.Memory
import Mathlib.Data.List.Dedup
import Mathlib.Data.List.Infix
import Mathlib.Data.Nat.Find

/-!
# Recency lists

A recency list is what a cache is for: a list of entries from the least to the most recently used
one. To store an entry is to put it last, behind those of the other entries beside which it fits;
the ones before them are evicted. To find an entry is to put it last as well.

* `Recency`: the list, its bounds and its counts; `Recency.put`, `Recency.get`, `Recency.clear`.
* `Recency.staying`, `Recency.evicted`: who stays and who goes; **`Recency.parts_staying`**: no more
  go than need to.
* **`Recency.mem_run`**: an entry is there iff it has been stored and nothing has ended it since.
* **`Recency.order_run`**: the entries come in the order in which they were last used.
* `Recency.looked_run`, `Recency.evictions_run`: the counts.
-/

namespace PixelFlow

open Cache (Use total)

structure Recency where
  capacity : Nat
  /-- The greatest memory that entries may take together. -/
  limit : Nat
  /-- From the least to the most recently used one. -/
  entries : List Entry
  hits : Nat
  misses : Nat
  evictions : Nat
deriving DecidableEq

namespace Recency

variable {r : Recency} {e x : Entry} {key : CacheKey} {u : Use} {l : List Entry}

/-- The entries of all keys but one, in order. -/
def others (r : Recency) (key : CacheKey) : List Entry := r.entries.filter (·.key ≠ key)

/-- An entry fits beside others if they are within the limit together and there is a place. -/
def Fits (r : Recency) (e : Entry) (beside : List Entry) : Prop :=
  total beside + e.size.toNat ≤ r.limit ∧ beside.length < r.capacity

instance : Decidable (r.Fits e l) := inferInstanceAs (Decidable (_ ∧ _))

/-- The entries that stay when one is stored: the longest end of the others beside which it fits,
and none if there is no such end. -/
def staying (r : Recency) (e : Entry) : List Entry :=
  ((r.others e.key).tails.find? fun beside => r.Fits e beside).getD []

/-- The entries that are evicted in a use: when one is stored, the others that do not stay. -/
def evicted (r : Recency) : Use → List Entry
  | .put e => (r.others e.key).take ((r.others e.key).length - (r.staying e).length)
  | _ => []

/-- Store an entry. -/
def put (r : Recency) (e : Entry) : Recency :=
  { r with
    entries := r.staying e ++ [e]
    evictions := r.evictions + (r.evicted (.put e)).length }

/-- Look a key up. -/
def get (r : Recency) (key : CacheKey) : Option (Table String Value) × Recency :=
  match r.entries.find? (·.key == key) with
  | some x => (some x.outputs, { r with entries := r.others key ++ [x], hits := r.hits + 1 })
  | none => (none, { r with misses := r.misses + 1 })

/-- Forget all entries. -/
def clear (r : Recency) : Recency := { r with entries := [] }

/-- Do something to a recency list. Only a look-up answers. -/
def use (r : Recency) : Use → Option (Table String Value) × Recency
  | .put e => (none, r.put e)
  | .get key => r.get key
  | .clear => (none, r.clear)

/-- What is left of a recency list after a sequence of uses. -/
def run (r : Recency) : List Use → Recency
  | [] => r
  | u :: uses => (r.use u).2.run uses

/-- What a sequence of uses answers, one by one. -/
def answers (r : Recency) : List Use → List (Option (Table String Value))
  | [] => []
  | u :: uses => (r.use u).1 :: (r.use u).2.answers uses

/-- The entries that a sequence of uses evicts, one after the other. -/
def evictees (r : Recency) : List Use → List Entry
  | [] => []
  | u :: uses => r.evicted u ++ (r.use u).2.evictees uses

theorem run_append (r : Recency) (us vs : List Use) : r.run (us ++ vs) = (r.run us).run vs := by
  induction us generalizing r with
  | nil => rfl
  | cons u us ih => exact ih _

/-! ## Who stays -/

/-- **When an entry is stored, the others fall into those that go and those that stay**: the new one
fits beside the latter unless there is none, and it does not fit beside any more. -/
structure Parts (r : Recency) (e : Entry) (going staying : List Entry) : Prop where
  parts : r.others e.key = going ++ staying
  fits : staying ≠ [] → r.Fits e staying
  longest : ∀ l, l <:+ r.others e.key → r.Fits e l → l.length ≤ staying.length

/-- The longest end of a list with a property is found by leaving out one element after another. -/
theorem find?_tails {p : List Entry → Prop} [DecidablePred p] {n : Nat}
    (enough : n < l.length → p (l.drop n)) (needed : ∀ i < n, i < l.length → ¬ p (l.drop i)) :
    (l.tails.find? fun s => p s).getD [] = l.drop n := by
  induction l generalizing n with
  | nil => by_cases h : p [] <;> simp [h]
  | cons x l ih =>
    rw [List.tails_cons]
    cases n with
    | zero =>
      have h : p (x :: l) := enough (Nat.zero_lt_succ _)
      simp [h]
    | succ n =>
      have h : ¬ p (x :: l) := needed 0 (Nat.zero_lt_succ n) (Nat.zero_lt_succ _)
      rw [List.find?_cons_of_neg (by simpa using h), List.drop_succ_cons]
      refine ih (fun hn => ?_) fun i hi hl => ?_
      · simpa using enough (Nat.succ_lt_succ hn)
      · simpa using needed (i + 1) (Nat.succ_lt_succ hi) (Nat.succ_lt_succ hl)

theorem staying_suffix (r : Recency) (e : Entry) : r.staying e <:+ r.others e.key := by
  rw [staying]
  cases h : (r.others e.key).tails.find? fun beside => r.Fits e beside with
  | none => exact List.nil_suffix
  | some l => exact (List.mem_tails l _).1 (List.mem_of_find?_eq_some h)

theorem evicted_append_staying (r : Recency) (e : Entry) :
    r.evicted (.put e) ++ r.staying e = r.others e.key :=
  (List.suffix_iff_eq_append.1 (r.staying_suffix e))

/-- **No more entries are evicted than need to be.** -/
theorem parts_staying (r : Recency) (e : Entry) :
    r.Parts e (r.evicted (.put e)) (r.staying e) := by
  have hex : ∃ n, n = (r.others e.key).length ∨ r.Fits e ((r.others e.key).drop n) := ⟨_, .inl rfl⟩
  have spec := Nat.find_spec hex
  have needed : ∀ i < Nat.find hex, ¬ r.Fits e ((r.others e.key).drop i) := fun i hi =>
    (not_or.1 (Nat.find_min hex hi)).2
  generalize Nat.find hex = n at spec needed
  have enough : n < (r.others e.key).length → r.Fits e ((r.others e.key).drop n) := fun h =>
    spec.resolve_left (Nat.ne_of_lt h)
  have hs : r.staying e = (r.others e.key).drop n :=
    find?_tails enough fun i hi _ => needed i hi
  refine ⟨(r.evicted_append_staying e).symm, fun h => ?_, fun l hl hf => ?_⟩
  · rw [hs] at h ⊢
    exact enough (Nat.lt_of_not_le fun hle => h (List.drop_eq_nil_of_le hle))
  · have hn : n ≤ (r.others e.key).length - l.length := by
      by_contra hlt
      refine needed _ (Nat.lt_of_not_le hlt) ?_
      rwa [← List.suffix_iff_eq_drop.1 hl]
    have := hl.length_le
    rw [hs, List.length_drop]
    omega

/-! ## What is there -/

/-- No key comes twice. -/
def Distinct (r : Recency) : Prop := (r.entries.map (·.key)).Nodup

theorem mem_others : x ∈ r.others key ↔ x ∈ r.entries ∧ x.key ≠ key := by
  simp [others]

namespace Distinct

theorem eq_of_key (h : r.Distinct) (he : e ∈ r.entries) (hx : x ∈ r.entries)
    (hk : e.key = x.key) : e = x :=
  List.inj_on_of_nodup_map h he hx hk

/-- Where no key comes twice, a look-up finds whatever is there. -/
theorem find? (h : r.Distinct) :
    r.entries.find? (·.key == key) = some x ↔ x ∈ r.entries ∧ x.key = key := by
  constructor
  · intro hf
    exact ⟨List.mem_of_find?_eq_some hf, by simpa using List.find?_some hf⟩
  · rintro ⟨hx, rfl⟩
    cases hf : r.entries.find? (·.key == x.key) with
    | none => simp at hf; exact absurd rfl (hf x hx)
    | some y =>
      have hk : y.key = x.key := by simpa using List.find?_some hf
      rw [h.eq_of_key (List.mem_of_find?_eq_some hf) hx hk]

theorem use (h : r.Distinct) (u : Use) : (r.use u).2.Distinct := by
  have hothers : ∀ key, ((r.others key).map (·.key)).Nodup := fun key =>
    h.sublist (List.filter_sublist.map _)
  cases u with
  | put e =>
    have hs := r.staying_suffix e
    refine Cache.distinct_concat ((hothers e.key).sublist (hs.sublist.map _)) fun y hy => ?_
    exact (mem_others.1 (hs.subset hy)).2
  | get key =>
    show (r.get key).2.Distinct
    rw [get]
    cases hf : r.entries.find? (·.key == key) with
    | none => exact h
    | some x =>
      obtain ⟨_, rfl⟩ := h.find?.1 hf
      exact Cache.distinct_concat (hothers x.key) fun y hy => (mem_others.1 hy).2
  | clear => exact List.nodup_nil

theorem run (h : r.Distinct) (uses : List Use) : (r.run uses).Distinct := by
  induction uses generalizing r with
  | nil => exact h
  | cons u uses ih => exact ih (h.use u)

end Distinct

/-- A use ends what is stored under a key if it forgets everything, if it stores another result
under the key, or if it evicts the entry. -/
def Ends (r : Recency) (key : CacheKey) (u : Use) : Prop :=
  u = .clear ∨ (∃ e, u = .put e ∧ e.key = key) ∨ ∃ x ∈ r.evicted u, x.key = key

/-- **An entry is there after a use iff it has just been stored, or was there before and is not
ended.** -/
theorem mem_use (h : r.Distinct) :
    e ∈ (r.use u).2.entries ↔ u = .put e ∨ e ∈ r.entries ∧ ¬ r.Ends e.key u := by
  cases u with
  | put x =>
    have hn : ((r.evicted (.put x) ++ r.staying x).map (·.key)).Nodup := by
      rw [r.evicted_append_staying x]
      exact h.sublist (List.filter_sublist.map _)
    have hs : e ∈ r.staying x ↔ e ∈ r.others x.key ∧ ¬ ∃ y ∈ r.evicted (.put x), y.key = e.key := by
      rw [← r.evicted_append_staying x, List.mem_append]
      rw [List.map_append, List.nodup_append] at hn
      constructor
      · intro he
        refine ⟨.inr he, fun ⟨y, hy, hk⟩ => ?_⟩
        exact hn.2.2 _ (List.mem_map_of_mem hy) _ (List.mem_map_of_mem he) hk
      · rintro ⟨he | he, hx⟩
        · exact absurd ⟨e, he, rfl⟩ hx
        · exact he
    show e ∈ r.staying x ++ [x] ↔ _
    rw [List.mem_append, List.mem_singleton, hs, mem_others]
    simp only [Ends, Use.put.injEq, reduceCtorEq, false_or, not_or, exists_eq_left']
    tauto
  | get key =>
    have hi : ∀ k, ¬ r.Ends k (.get key) := by simp [Ends, evicted]
    show e ∈ (r.get key).2.entries ↔ _
    rw [get]
    cases hf : r.entries.find? (·.key == key) with
    | none => simp [hi]
    | some x =>
      obtain ⟨hx, rfl⟩ := h.find?.1 hf
      simp only [List.mem_append, List.mem_singleton, mem_others, hi, reduceCtorEq, false_or]
      constructor
      · rintro (he | rfl)
        · exact ⟨he.1, not_false⟩
        · exact ⟨hx, not_false⟩
      · rintro ⟨he, _⟩
        by_cases hk : e.key = x.key
        · exact .inr (h.eq_of_key he hx hk)
        · exact .inl ⟨he, hk⟩
  | clear => simp [use, clear, Ends]

/-- **An entry is remembered if it has been stored and nothing has ended it since.** -/
def Remembers (r : Recency) (uses : List Use) (e : Entry) : Prop :=
  ∃ pre post, uses = pre ++ .put e :: post ∧
    ∀ mid u rest, post = mid ++ u :: rest → ¬ (r.run (pre ++ .put e :: mid)).Ends e.key u

theorem remembers_concat {uses : List Use} : r.Remembers (uses ++ [u]) e ↔
    u = .put e ∨ r.Remembers uses e ∧ ¬ (r.run uses).Ends e.key u := by
  constructor
  · rintro ⟨pre, post, hsplit, hkept⟩
    induction post using List.reverseRecOn with
    | nil => exact .inl (List.append_inj_right' hsplit rfl |> List.singleton_inj.1)
    | append_singleton post v =>
      rw [← List.cons_append, ← List.append_assoc] at hsplit
      obtain ⟨rfl, hv⟩ := List.append_inj' hsplit rfl
      obtain rfl := List.singleton_inj.1 hv
      refine .inr ⟨⟨pre, post, rfl, fun mid w rest hpost => ?_⟩, hkept post u [] rfl⟩
      exact hkept mid w (rest ++ [u]) (by simp [hpost])
  · rintro (rfl | ⟨⟨pre, post, rfl, hkept⟩, hu⟩)
    · exact ⟨uses, [], rfl, fun mid w rest hpost => by simp at hpost⟩
    · refine ⟨pre, post ++ [u], by simp, fun mid w rest hpost => ?_⟩
      induction rest using List.reverseRecOn with
      | nil =>
        obtain ⟨rfl, hw⟩ := List.append_inj' hpost rfl
        obtain rfl := List.singleton_inj.1 hw
        exact hu
      | append_singleton rest v =>
        rw [← List.cons_append, ← List.append_assoc] at hpost
        exact hkept mid w rest (List.append_inj_left' hpost rfl)

/-- **What is there after a run is what is remembered.** -/
theorem mem_run (hr : r.entries = []) (uses : List Use) :
    e ∈ (r.run uses).entries ↔ r.Remembers uses e := by
  have hd : r.Distinct := by
    rw [Distinct, hr]
    exact List.nodup_nil
  induction uses using List.reverseRecOn with
  | nil => simp [run, hr, Remembers]
  | append_singleton uses u ih =>
    rw [run_append, remembers_concat]
    exact (mem_use (hd.run uses)).trans (or_congr_right (and_congr_left fun _ => ih))

/-! ## The order -/

/-- The keys that a use brings to the end: that of an entry that is stored or found. -/
def touches (r : Recency) : Use → List CacheKey
  | .put e => [e.key]
  | .get key => if (r.get key).1.isSome then [key] else []
  | .clear => []

/-- The keys that a sequence of uses brings to the end, one after the other. -/
def touched (r : Recency) : List Use → List CacheKey
  | [] => []
  | u :: uses => r.touches u ++ (r.use u).2.touched uses

theorem touched_append (r : Recency) (us vs : List Use) :
    r.touched (us ++ vs) = r.touched us ++ (r.run us).touched vs := by
  induction us generalizing r with
  | nil => rfl
  | cons u us ih =>
    show r.touches u ++ _ = _ ++ _ ++ _
    rw [List.append_assoc]
    exact congrArg (r.touches u ++ ·) (ih _)

/-- Without its earlier occurrences, a last element comes behind all others. -/
theorem dedup_concat (l : List CacheKey) (k : CacheKey) :
    (l ++ [k]).dedup = l.dedup.filter (· ≠ k) ++ [k] := by
  induction l with
  | nil => simp
  | cons a l ih =>
    rw [List.cons_append]
    by_cases ha : a ∈ l
    · rw [List.dedup_cons_of_mem ha, List.dedup_cons_of_mem (List.mem_append_left _ ha), ih]
    · rw [List.dedup_cons_of_notMem ha]
      by_cases hk : a = k
      · rw [List.dedup_cons_of_mem (by simp [hk]), ih, List.filter_cons_of_neg (by simpa using hk)]
      · rw [List.dedup_cons_of_notMem (by simp [ha, hk]), ih,
          List.filter_cons_of_pos (by simpa using hk), List.cons_append]

/-- An entry that is put behind some of the others is the last one that was used. -/
theorem order_concat {t : List CacheKey} (h : (r.entries.map (·.key)).Sublist t.dedup)
    (hl : l.Sublist (r.others e.key)) : ((l ++ [e]).map (·.key)).Sublist (t ++ [e.key]).dedup := by
  rw [dedup_concat, List.map_append]
  refine List.Sublist.append ?_ (.refl _)
  have hmap : (r.others e.key).map (·.key) = (r.entries.map (·.key)).filter (· ≠ e.key) := by
    rw [others, List.filter_map]
    rfl
  exact (hl.map _).trans (hmap ▸ h.filter _)

theorem order_use {t : List CacheKey} (h : (r.entries.map (·.key)).Sublist t.dedup) (u : Use) :
    ((r.use u).2.entries.map (·.key)).Sublist (t ++ r.touches u).dedup := by
  cases u with
  | put e => exact order_concat h (r.staying_suffix e).sublist
  | get key =>
    show ((r.get key).2.entries.map _).Sublist (t ++ if (r.get key).1.isSome then _ else _).dedup
    rw [get]
    cases hf : r.entries.find? (·.key == key) with
    | none => simpa using h
    | some x =>
      obtain rfl : x.key = key := by simpa using List.find?_some hf
      exact order_concat h (.refl _)
  | clear => exact List.nil_sublist _

/-- **Entries come in the order in which they were last stored or found.** -/
theorem order_run (hr : r.entries = []) (uses : List Use) :
    ((r.run uses).entries.map (·.key)).Sublist (r.touched uses).dedup := by
  induction uses using List.reverseRecOn with
  | nil =>
    show (r.entries.map _).Sublist _
    rw [hr]
    exact List.nil_sublist _
  | append_singleton uses u ih =>
    have h := order_use ih u
    rw [run_append, touched_append]
    simpa only [touched, run, List.append_nil] using h

/-! ## The counts -/

/-- **Each look-up hits or misses.** -/
theorem looked_run (r : Recency) (uses : List Use) :
    (r.run uses).hits + (r.run uses).misses = r.hits + r.misses + uses.countP (·.isGet) := by
  induction uses generalizing r with
  | nil => rfl
  | cons u uses ih =>
    have first : (r.use u).2.hits + (r.use u).2.misses =
        r.hits + r.misses + if u.isGet then 1 else 0 := by
      cases u with
      | put e => rfl
      | get key =>
        show (r.get key).2.hits + (r.get key).2.misses = r.hits + r.misses + 1
        rw [get]
        cases r.entries.find? (·.key == key) with
        | none => rfl
        | some x => exact Nat.add_right_comm _ _ _
      | clear => rfl
    rw [run, ih, first, List.countP_cons]
    omega

/-- **What is counted as an eviction is the eviction of one entry.** -/
theorem evictions_run (r : Recency) (uses : List Use) :
    (r.run uses).evictions = r.evictions + (r.evictees uses).length := by
  induction uses generalizing r with
  | nil => rfl
  | cons u uses ih =>
    have first : (r.use u).2.evictions = r.evictions + (r.evicted u).length := by
      cases u with
      | put e => rfl
      | get key =>
        show (r.get key).2.evictions = r.evictions
        rw [get]
        cases r.entries.find? (·.key == key) <;> rfl
      | clear => rfl
    rw [run, ih, first, evictees, List.length_append, Nat.add_assoc]

end Recency

end PixelFlow
