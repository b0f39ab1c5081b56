import PixelFlow.Table
import Mathlib.Data.List.Forall2
import Mathlib.Data.List.Nodup
import Mathlib.Data.Option.Basic

/-!
# Tables after many changes

* `Table.get?_insertMany_const`, `Table.get?_eraseMany`: look-ups after a list of keys was written
  with one value, or erased.
* `perm_cons_eraseP`: a list is the element that is found first, with what else there is.
* `Table.get?_ofList_rel`: tables of related entries have related values.
* `Table.ofList_entries`: a table is that of the list of its entries.
* `Table.ext_get?`: tables with the same keys in the same order and the same values are equal.
-/

namespace PixelFlow

/-- The first element that is found and all others are the whole list. -/
theorem perm_cons_eraseP {α : Type} {p : α → Bool} {a : α} {l : List α} (h : l.find? p = some a) :
    l.Perm (a :: l.eraseP p) := by
  induction l with
  | nil => cases h
  | cons b l ih =>
    rw [List.find?_cons] at h
    split at h
    · next hb =>
      cases h
      rw [List.eraseP_cons_of_pos hb]
    · next hb =>
      rw [List.eraseP_cons_of_neg (by simpa using hb)]
      exact ((ih h).cons b).trans (.swap a b _)

namespace Table

universe u v

variable {κ : Type u} {α β : Type v} [DecidableEq κ]

theorem insertMany_cons (t : Table κ α) (e : κ × α) (l : List (κ × α)) :
    t.insertMany (e :: l) = (t.insert e.1 e.2).insertMany l := rfl

theorem get?_insertMany_const (t : Table κ α) (ks : List κ) (v : α) (j : κ) :
    (t.insertMany (ks.map fun k => (k, v))).get? j = if j ∈ ks then some v else t.get? j := by
  induction ks generalizing t with
  | nil => simp [insertMany]
  | cons k ks ih =>
    rw [List.map_cons, insertMany_cons, ih, get?_insert]
    by_cases hj : j ∈ ks
    · simp [hj]
    · by_cases hk : k = j
      · simp [hk]
      · have : ¬ j = k := fun e => hk e.symm
        simp [hj, hk, this]

theorem get?_eraseMany (t : Table κ α) (ks : List κ) (j : κ) :
    (ks.foldl erase t).get? j = if j ∈ ks then none else t.get? j := by
  induction ks generalizing t with
  | nil => simp
  | cons k ks ih =>
    rw [List.foldl_cons, ih, get?_erase]
    by_cases hj : j ∈ ks
    · simp [hj]
    · by_cases hk : k = j
      · simp [hk]
      · have : ¬ j = k := fun e => hk e.symm
        simp [hj, hk, this]

theorem mem_keys_of_get? {t : Table κ α} {k : κ} {v : α} (h : t.get? k = some v) : k ∈ t.keys := by
  rw [mem_iff_isSome, h]; rfl

theorem mem_values_of_get? {t : Table κ α} {k : κ} {v : α} (h : t.get? k = some v) :
    v ∈ t.values :=
  List.mem_map.2 ⟨(k, v), (get?_eq_some_iff ..).1 h, rfl⟩

theorem contains_eq_false_iff {t : Table κ α} {k : κ} : t.contains k = false ↔ t.get? k = none := by
  rw [contains, Option.isSome_eq_false_iff, Option.isNone_iff_eq_none]

theorem get?_map (f : α → β) (t : Table κ α) (k : κ) : (t.map f).get? k = (t.get? k).map f := by
  have h : ∀ l : List (κ × α), lookup k (l.map fun e => (e.1, f e.2)) = (lookup k l).map f := by
    intro l
    induction l with
    | nil => rfl
    | cons e r ih =>
      simp only [List.map_cons, lookup]
      split
      · rfl
      · exact ih
  exact h t.entries

omit [DecidableEq κ] in
theorem keys_map (f : α → β) (t : Table κ α) : (t.map f).keys = t.keys := by
  simp [keys, map, Function.comp_def]

/-- Only the value under the key matters for a change of it. -/
theorem modify_congr (t : Table κ α) (k : κ) {f f' : α → α}
    (h : ∀ v, t.get? k = some v → f v = f' v) : t.modify k f = t.modify k f' := by
  refine ext (List.map_congr_left fun e he => ?_)
  split
  · next hk => rw [h e.2 ((get?_eq_some_iff ..).2 (hk ▸ he))]
  · rfl

theorem modify_modify (t : Table κ α) (k : κ) (f f' : α → α) :
    (t.modify k f).modify k f' = t.modify k (f' ∘ f) := by
  refine ext ?_
  simp only [modify, List.map_map]
  refine List.map_congr_left fun e _ => ?_
  simp only [Function.comp]
  split <;> simp_all

/-- What is found after many writes was written or was there. -/
theorem get?_insertMany {t : Table κ α} {l : List (κ × α)} {k : κ} {v : α}
    (h : (t.insertMany l).get? k = some v) : (k, v) ∈ l ∨ t.get? k = some v := by
  induction l generalizing t with
  | nil => exact .inr h
  | cons e l ih =>
    rw [insertMany_cons] at h
    rcases ih h with h | h
    · exact .inl (by simp [h])
    · rw [get?_insert] at h
      split at h
      · next hk =>
        cases h
        exact .inl (by simp [← hk])
      · exact .inr h

/-- What is found in the table of a list is in the list. -/
theorem mem_of_get?_ofList {l : List (κ × α)} {k : κ} {v : α} (h : (ofList l).get? k = some v) :
    (k, v) ∈ l := (get?_insertMany h).resolve_right fun h => Option.some_ne_none v h.symm

theorem mem_keys_ofList {l : List (κ × α)} {k : κ} :
    k ∈ (ofList l).keys ↔ k ∈ l.map Prod.fst := by
  have key : ∀ (l : List (κ × α)) (t : Table κ α),
      k ∈ (t.insertMany l).keys ↔ k ∈ t.keys ∨ k ∈ l.map Prod.fst := by
    intro l
    induction l with
    | nil => exact fun t => (or_iff_left (List.not_mem_nil)).symm
    | cons x l ih =>
      intro t
      rw [insertMany_cons, ih, keys_insert, List.map_cons, List.mem_cons, ← or_assoc]
      refine or_congr_left ?_
      split
      · next hx =>
        refine (or_iff_left_of_imp ?_).symm
        rintro rfl
        exact hx
      · rw [List.mem_append, List.mem_singleton]
  exact (key l empty).trans (or_iff_right (List.not_mem_nil))

/-- In a list without repeated keys each entry is found. -/
theorem get?_ofList_of_mem {l : List (κ × α)} (hl : (l.map Prod.fst).Nodup) {k : κ} {v : α}
    (h : (k, v) ∈ l) : (ofList l).get? k = some v := by
  have hk : k ∈ (ofList l).keys := mem_keys_ofList.2 (List.mem_map_of_mem h)
  obtain ⟨w, hw⟩ := Option.isSome_iff_exists.1 ((mem_iff_isSome ..).1 hk)
  cases List.inj_on_of_nodup_map hl (mem_of_get?_ofList hw) h rfl
  exact hw

/-- A new key comes last, with its value. -/
theorem entries_insert_of_notMem {t : Table κ α} {k : κ} (h : k ∉ t.keys) (v : α) :
    (t.insert k v).entries = t.entries ++ [(k, v)] := by
  have key : ∀ l : List (κ × α), k ∉ l.map Prod.fst → write k v l = l ++ [(k, v)] := by
    intro l
    induction l with
    | nil => exact fun _ => rfl
    | cons e l ih =>
      intro h
      obtain ⟨he, hl⟩ := not_or.1 (mt List.mem_cons.2 h)
      rw [write, if_neg (Ne.symm he), ih hl, List.cons_append]
  exact key t.entries h

/-- The table of the entries of a table is the table. -/
theorem ofList_entries (t : Table κ α) : ofList t.entries = t := by
  have key : ∀ (l : List (κ × α)) (s : Table κ α), ((s.entries ++ l).map Prod.fst).Nodup →
      (s.insertMany l).entries = s.entries ++ l := by
    intro l
    induction l with
    | nil => exact fun s _ => (List.append_nil s.entries).symm
    | cons e l ih =>
      intro s nodup
      have new : e.1 ∉ s.keys := by
        rw [List.map_append, List.nodup_append] at nodup
        exact fun mem => nodup.2.2 _ mem _ List.mem_cons_self rfl
      have entries := entries_insert_of_notMem new e.2
      rw [insertMany_cons, ih _ (by rwa [entries, List.append_assoc]), entries, List.append_assoc,
        List.singleton_append]
  exact ext (key t.entries empty t.nodup)

/-- Writing keys that are there keeps the keys and their order. -/
theorem keys_insertMany_of_mem {t : Table κ α} {l : List (κ × α)} (h : ∀ e ∈ l, e.1 ∈ t.keys) :
    (t.insertMany l).keys = t.keys := by
  induction l generalizing t with
  | nil => rfl
  | cons e l ih =>
    have same := keys_insert_of_mem (h e (List.mem_cons_self ..)) e.2
    rw [insertMany_cons, ih, same]
    rw [same]
    exact fun x hx => h x (List.mem_cons_of_mem _ hx)

/-- Look-ups in lists with the same keys, whose values are related, find related values. -/
theorem lookup_rel {r : α → α → Prop} {l m : List (κ × α)}
    (h : List.Forall₂ (fun x y => x.1 = y.1 ∧ r x.2 y.2) l m) (k : κ) :
    Option.Rel r (lookup k l) (lookup k m) := by
  induction h with
  | nil => exact .none
  | @cons x y l m hxy _ ih =>
    rw [lookup, lookup, hxy.1]
    split
    · exact .some hxy.2
    · exact ih

theorem lookup_eq_none {k : κ} {l : List (κ × α)} (h : k ∉ l.map Prod.fst) : lookup k l = none := by
  rwa [← Option.not_isSome_iff_eq_none, isSome_lookup_iff]

/-- Lists with the same distinct keys, in which look-ups find related values, are related. -/
theorem forall₂_of_lookup_rel {r : α → α → Prop} {l m : List (κ × α)}
    (hk : l.map Prod.fst = m.map Prod.fst) (hl : (l.map Prod.fst).Nodup)
    (h : ∀ k, Option.Rel r (lookup k l) (lookup k m)) :
    List.Forall₂ (fun x y => x.1 = y.1 ∧ r x.2 y.2) l m := by
  induction l generalizing m with
  | nil =>
    obtain rfl := List.map_eq_nil_iff.1 hk.symm
    exact .nil
  | cons x l ih =>
    obtain _ | ⟨y, m⟩ := m
    · cases hk
    obtain ⟨hxy, hk⟩ := List.cons.inj hk
    obtain ⟨hx, hl⟩ := List.nodup_cons.1 hl
    refine .cons ⟨hxy, ?_⟩ (ih hk hl fun k => ?_)
    · have := h x.1
      rw [lookup, lookup, if_pos rfl, if_pos hxy.symm] at this
      cases this
      assumption
    · by_cases e : x.1 = k
      · rw [lookup_eq_none (e ▸ hx), lookup_eq_none (hk ▸ e ▸ hx)]
        exact .none
      · have := h k
        rwa [lookup, lookup, if_neg e, if_neg (hxy ▸ e)] at this

/-- A table is told by the order of its keys and what is found under them. -/
theorem ext_get? {s t : Table κ α} (hk : s.keys = t.keys) (h : ∀ k, s.get? k = t.get? k) :
    s = t := by
  have rel := forall₂_of_lookup_rel (r := Eq) hk s.nodup fun k => by
    show Option.Rel Eq (s.get? k) (t.get? k)
    rw [h k]
    cases t.get? k
    · exact .none
    · exact .some rfl
  exact ext (List.forall₂_eq_eq_eq ▸ rel.imp fun _ _ h => Prod.ext h.1 h.2)

theorem get?_ofList_rel {r : α → α → Prop} {l m : List (κ × α)}
    (h : List.Forall₂ (fun x y => x.1 = y.1 ∧ r x.2 y.2) l m) (k : κ) :
    Option.Rel r ((ofList l).get? k) ((ofList m).get? k) := by
  have key : ∀ s t : Table κ α, Option.Rel r (s.get? k) (t.get? k) →
      Option.Rel r ((s.insertMany l).get? k) ((t.insertMany m).get? k) := by
    induction h with
    | nil => exact fun _ _ h => h
    | @cons x y l m hxy _ ih =>
      intro s t h
      rw [insertMany_cons, insertMany_cons]
      refine ih _ _ ?_
      rw [get?_insert, get?_insert, hxy.1]
      split
      · exact .some hxy.2
      · exact h
  exact key empty empty .none

omit [DecidableEq κ] in
theorem length_keys (t : Table κ α) : t.keys.length = t.size := List.length_map _

end Table

end PixelFlow
