import PixelFlow.Registry
import PixelFlow.Proofs.Table
import Mathlib.Data.List.Induction
import Mathlib.Data.List.Nodup
import Mathlib.Data.String.Basic

/-!
# The two indexes of the registry

The registry keeps its variants by identifier and, for each category, the identifiers that are in
it. A variant that is replaced may leave one category for another.

* `Registry.standing`: the registrations that no later call undoes, read off the calls alone.
* `Registry.Lists`: both indexes of a registry hold the variants of one list, in its order.
* `Registry.Lists.unregister`, `Registry.Lists.register`: what a call does to that list.
* `Registry.lists_run`: after any calls it is the list of what stands.
* `Registry.keys_collected`, `Registry.get?_collected`: the groups before they are sorted.
* **`Registry.indexes_agree`**: identifiers, categories and groups tell of the same variants, each
  in the order of registration.
-/

namespace PixelFlow

/-- Of a list that gets longer at its end, only a new element is a first occurrence. -/
theorem eraseDups_concat {α : Type} [DecidableEq α] (l : List α) (a : α) :
    (l ++ [a]).eraseDups = if a ∈ l then l.eraseDups else l.eraseDups ++ [a] := by
  rw [List.eraseDups_append, List.removeAll, List.filter_cons]
  by_cases h : a ∈ l <;> simp [h, List.eraseDups_cons]

namespace Registry

/-! ## Calls and what they leave -/

/-- A call that changes a registry. -/
inductive Call
  | register (v : Variant)
  | unregister (id : String)

namespace Call

/-- The identifier that a call is about. -/
def id : Call → String
  | register v => v.metadata.id
  | unregister id => id

/-- What a call registers. -/
def added : Call → List Variant
  | register v => [v]
  | unregister _ => []

end Call

def call (r : Registry) : Call → Registry
  | .register v => r.register v
  | .unregister id => r.unregister id

/-- The registry after a list of calls. -/
def run (calls : List Call) : Registry := calls.foldl call empty

/-- The metadata of the variants, in the order of their identifiers. -/
def listed (r : Registry) : List NodeMetadata := r.ids.filterMap r.metadata?

/-- The registrations after which no call is about the same identifier, in their order. -/
def standing : List Call → List Variant
  | [] => []
  | k :: ks => (k.added.filter fun v => ks.all fun j => j.id ≠ v.metadata.id) ++ standing ks

/-- One more call takes away what was registered under its identifier and adds its own. -/
theorem standing_concat (ks : List Call) (k : Call) :
    standing (ks ++ [k]) = ((standing ks).filter fun v => v.metadata.id ≠ k.id) ++ k.added := by
  induction ks with
  | nil => cases k <;> simp [standing, Call.added]
  | cons j ks ih =>
    rw [List.cons_append, standing, standing, ih, List.filter_append, List.append_assoc,
      List.filter_filter]
    congr 2
    funext v
    simp [Bool.and_comm, eq_comm]

/-- **The variants of a list are what both indexes hold, in its order.** -/
structure Lists (r : Registry) (l : List Variant) : Prop where
  entries : r.variants.entries = l.map fun v => (v.metadata.id, v)
  idsOf : ∀ c, r.idsOf c = (l.filter fun v => v.metadata.category = c).map (·.metadata.id)

namespace Lists

variable {r : Registry} {l : List Variant}

theorem ids (h : r.Lists l) : r.ids = l.map (·.metadata.id) := by
  rw [Registry.ids, Table.keys, h.entries, List.map_map]
  rfl

theorem values (h : r.Lists l) : r.variants.values = l := by
  rw [Table.values, h.entries, List.map_map]
  exact List.map_id l

theorem nodup (h : r.Lists l) : (l.map (·.metadata.id)).Nodup := h.ids ▸ r.variants.nodup_keys

theorem variant? (h : r.Lists l) {id : String} {v : Variant} :
    r.variants.get? id = some v ↔ v ∈ l ∧ v.metadata.id = id := by
  rw [Table.get?_eq_some_iff, h.entries, List.mem_map]
  constructor
  · rintro ⟨w, hw, e⟩
    cases e
    exact ⟨hw, rfl⟩
  · rintro ⟨hv, rfl⟩
    exact ⟨v, hv, rfl⟩

theorem metadata? (h : r.Lists l) {v : Variant} (hv : v ∈ l) :
    r.metadata? v.metadata.id = some v.metadata := by
  rw [Registry.metadata?, Registry.variant?, h.variant?.2 ⟨hv, rfl⟩]
  rfl

theorem listed (h : r.Lists l) : r.listed = l.map (·.metadata) := by
  rw [Registry.listed, h.ids, List.filterMap_map, ← List.filterMap_eq_map]
  exact List.filterMap_congr fun v hv => h.metadata? hv

/-- A removal takes the identifier out of both indexes, and nothing else. -/
theorem unregister (h : r.Lists l) (id : String) :
    (r.unregister id).Lists (l.filter fun v => v.metadata.id ≠ id) := by
  unfold Registry.unregister
  split
  · next absent =>
    have keep : (l.filter fun v => v.metadata.id ≠ id) = l := by
      refine List.filter_eq_self.2 fun v hv => decide_eq_true fun e => ?_
      rw [h.variant?.2 ⟨hv, e⟩] at absent
      cases absent
    rwa [keep]
  · next v found =>
    obtain ⟨hv, rfl⟩ := h.variant?.1 found
    refine ⟨?_, fun c => ?_⟩
    · show r.variants.entries.filter (fun e => e.1 ≠ v.metadata.id) = _
      rw [h.entries, List.filter_map]
      rfl
    · rw [Registry.idsOf, Table.get?_modify]
      split
      · next hc =>
        have ids := congrArg (List.filter fun i => decide (i ≠ v.metadata.id)) (h.idsOf c)
        rw [List.filter_map, Registry.idsOf] at ids
        rw [List.filter_comm]
        refine Eq.trans ?_ ids
        cases r.categories.get? c <;> rfl
      · next hc =>
        -- the category of the variant is another one, so none of `c` has its identifier
        rw [← Registry.idsOf, h.idsOf c, List.filter_filter]
        refine congrArg _ (List.filter_congr fun w hw => ?_)
        have : w.metadata.category = c → w.metadata.id ≠ v.metadata.id := fun hwc e =>
          hc (List.inj_on_of_nodup_map h.nodup hw hv e ▸ hwc)
        simpa using this

/-- A registration comes last, in its own category and among all, and replaces what has its
identifier. -/
theorem register (h : r.Lists l) (v : Variant) :
    (r.register v).Lists ((l.filter fun w => w.metadata.id ≠ v.metadata.id) ++ [v]) := by
  have rest := h.unregister v.metadata.id
  have new : v.metadata.id ∉ (r.unregister v.metadata.id).variants.keys := by
    rw [← Registry.ids, rest.ids]
    simp
  refine ⟨?_, fun c => ?_⟩
  · rw [Registry.register, Table.entries_insert_of_notMem new, rest.entries, List.map_append]
    rfl
  · rw [Registry.register, Registry.idsOf, Table.get?_insert, List.filter_append, List.map_append,
      ← rest.idsOf c]
    split
    · next hc => simp [hc]
    · next hc => simp [hc, Registry.idsOf]

end Lists

/-- **After any calls, both indexes hold what stands.** -/
theorem lists_run (calls : List Call) : (run calls).Lists (standing calls) := by
  induction calls using List.reverseRecOn with
  | nil => exact ⟨rfl, fun _ => rfl⟩
  | append_singleton ks k ih =>
    rw [run, List.foldl_concat, standing_concat]
    cases k with
    | register v => exact ih.register v
    | unregister id =>
      rw [Call.added, List.append_nil]
      exact ih.unregister id

/-! ## Groups -/

/-- The groups have the categories of the variants, in the order in which they first occur. -/
theorem keys_collected (l : List Variant) :
    Table.keys (l.foldl collect ∅) = (l.map (·.metadata.category)).eraseDups := by
  induction l using List.reverseRecOn with
  | nil => rfl
  | append_singleton l v ih =>
    rw [List.foldl_concat, collect, Table.keys_insert, ih, List.map_append, List.map_singleton,
      eraseDups_concat]
    simp only [List.mem_eraseDups]

/-- A group has the metadata of its category, in the order of the variants. -/
theorem get?_collected (l : List Variant) (c : Category) :
    (Table.get? (l.foldl collect ∅) c).getD [] =
      (l.map (·.metadata)).filter fun m => m.category = c := by
  induction l using List.reverseRecOn with
  | nil => rfl
  | append_singleton l v ih =>
    rw [List.foldl_concat, collect, Table.get?_insert, List.map_append, List.filter_append, ← ih]
    split
    · next h => simp [h]
    · next h => simp [h]

/-- Metadata by name, those of one name in their old order. -/
structure SortedFrom (own group : List NodeMetadata) : Prop where
  perm : group.Perm own
  byName : group.Pairwise fun a b => a.name ≤ b.name
  ties : ∀ name, (group.filter fun m => m.name = name) = own.filter fun m => m.name = name

theorem sortedFrom_mergeSort (own : List NodeMetadata) :
    SortedFrom own (own.mergeSort fun a b => a.name ≤ b.name) := by
  have perm := List.mergeSort_perm own fun a b => a.name ≤ b.name
  have trans : ∀ a b c : NodeMetadata, decide (a.name ≤ b.name) → decide (b.name ≤ c.name) →
      decide (a.name ≤ c.name) := fun a b c hab hbc =>
    decide_eq_true ((of_decide_eq_true hab).trans (of_decide_eq_true hbc))
  have total : ∀ a b : NodeMetadata, decide (a.name ≤ b.name) || decide (b.name ≤ a.name) :=
    fun a b => by simpa using le_total a.name b.name
  refine ⟨perm, (List.pairwise_mergeSort trans total own).imp of_decide_eq_true, fun name => ?_⟩
  -- metadata of one name are sorted already, so the stable sort keeps them as they are
  have kept : (own.filter fun m => m.name = name).Sublist
      (own.mergeSort fun a b => a.name ≤ b.name) :=
    List.sublist_mergeSort trans total
      (List.pairwise_filter.2 (List.pairwise_of_forall fun a b ha hb => by simp_all))
      List.filter_sublist
  have sub := kept.filter fun m => decide (m.name = name)
  simp only [List.filter_filter, Bool.and_self] at sub
  exact (sub.eq_of_length (perm.filter _).length_eq.symm).symm

/-- **The indexes of the registry tell of the same variants.** After any calls the identifiers are
those of the registrations that stand, each once and in the order of their registration; those of a
category are the ones whose variant is in it now, in the same order; and the groups are those of the
categories that occur, in the order in which they first occur, each with all metadata of its
category, by name, and in the order of registration where names are the same. -/
theorem indexes_agree (calls : List Call) :
    (run calls).ids.Nodup ∧
    (run calls).ids = (standing calls).map (·.metadata.id) ∧
    (run calls).listed = (standing calls).map (·.metadata) ∧
    (∀ c, (run calls).idsOf c =
      (run calls).ids.filter fun id => ((run calls).metadata? id).any (·.category = c)) ∧
    (run calls).groupedByCategory.keys = ((run calls).listed.map (·.category)).eraseDups ∧
    ∀ c group, (run calls).groupedByCategory.get? c = some group →
      SortedFrom ((run calls).listed.filter (·.category = c)) group := by
  have lists := lists_run calls
  refine ⟨lists.ids ▸ lists.nodup, lists.ids, lists.listed, fun c => ?_, ?_,
    fun c group found => ?_⟩
  · rw [lists.idsOf, lists.ids, List.filter_map]
    refine congrArg _ (List.filter_congr fun v hv => ?_)
    rw [Function.comp_apply, lists.metadata? hv]
    rfl
  · rw [groupedByCategory, Table.keys_map, keys_collected, lists.values, lists.listed, List.map_map]
    rfl
  · rw [groupedByCategory, Table.get?_map, Option.map_eq_some_iff, lists.values] at found
    obtain ⟨own, found, rfl⟩ := found
    have owns := get?_collected (standing calls) c
    rw [found, Option.getD_some] at owns
    rw [lists.listed, ← owns]
    exact sortedFrom_mergeSort own

end Registry

end PixelFlow
