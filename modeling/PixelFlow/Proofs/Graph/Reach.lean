import Mathlib.Logic.Relation
import PixelFlow.Graph.Reach
import PixelFlow.Proofs.Table

/-!
# What a search finds

A search visits exactly the places that steps lead to. Along links this makes `Graph.reaches`,
`Graph.ancestors` and `Graph.hasPendingAncestor` statements about paths.

* `Graph.Feeds`: one node feeds another directly; `Graph.mem_successors`,
  `Graph.mem_predecessors`.
* `explore_induction`: a search turn by turn.
* **`mem_explore`**: the search is sound and complete.
* **`Graph.reaches_iff`**, **`Graph.mem_ancestors`**: paths of any length, and of one link at least.
-/

namespace PixelFlow

open Relation

/-! ## The search -/

section Search

variable {α : Type} [DecidableEq α] {places : List α} {next : α → List α}
  (hp : ∀ a, a ∉ places → next a = [])

include hp

/-- Where only finitely many places have neighbours, a turn skips the first of the queue or visits
it and queues its neighbours, whether it is one of these places or not. -/
theorem explore_induction {P : List α → List α → List α → Prop}
    (done : ∀ visited, P visited [] visited)
    (skip : ∀ visited a queue found, a ∈ visited →
      P visited queue found → P visited (a :: queue) found)
    (visit : ∀ visited a queue found, a ∉ visited →
      P (visited ++ [a]) (queue ++ next a) found → P visited (a :: queue) found)
    (visited queue : List α) : P visited queue (explore places next visited queue) := by
  fun_induction explore places next visited queue with
  | case1 visited => exact done visited
  | case2 visited a queue ha ih => exact skip _ _ _ _ ha ih
  | case3 visited a queue ha _ ih => exact visit _ _ _ _ ha ih
  | case4 visited a queue ha hn ih =>
    refine visit _ _ _ _ ha ?_
    rwa [hp a hn, List.append_nil]

theorem subset_explore (visited queue : List α) :
    (∀ a ∈ visited, a ∈ explore places next visited queue) ∧
      ∀ a ∈ queue, a ∈ explore places next visited queue := by
  apply explore_induction hp (P := fun visited queue found =>
    (∀ a ∈ visited, a ∈ found) ∧ ∀ a ∈ queue, a ∈ found)
  case done => exact fun visited => ⟨fun _ h => h, by simp⟩
  case skip =>
    intro visited a queue found ha ih
    exact ⟨ih.1, by simpa using ⟨ih.1 a ha, ih.2⟩⟩
  case visit =>
    intro visited a queue found _ ih
    refine ⟨fun b hb => ih.1 b (List.mem_append_left _ hb), fun b hb => ?_⟩
    rcases List.mem_cons.1 hb with rfl | hb
    · exact ih.1 b (by simp)
    · exact ih.2 b (List.mem_append_left _ hb)

/-- What is found was visited before or is led to from the queue. -/
theorem of_mem_explore (visited queue : List α) : ∀ b ∈ explore places next visited queue,
    b ∈ visited ∨ ∃ a ∈ queue, ReflTransGen (fun x y => y ∈ next x) a b := by
  apply explore_induction hp (P := fun visited queue found => ∀ b ∈ found,
    b ∈ visited ∨ ∃ a ∈ queue, ReflTransGen (fun x y => y ∈ next x) a b)
  case done => exact fun visited b hb => .inl hb
  case skip =>
    intro visited a queue found _ ih b hb
    rcases ih b hb with h | ⟨c, hc, h⟩
    · exact .inl h
    · exact .inr ⟨c, by simp [hc], h⟩
  case visit =>
    intro visited a queue found _ ih b hb
    rcases ih b hb with h | ⟨c, hc, h⟩
    · rcases List.mem_append.1 h with h | h
      · exact .inl h
      · exact .inr ⟨a, by simp, by rw [List.mem_singleton.1 h]⟩
    · rcases List.mem_append.1 hc with hc | hc
      · exact .inr ⟨c, by simp [hc], h⟩
      · exact .inr ⟨a, by simp, .head hc h⟩

/-- The frontier invariant: a neighbour of a visited place is visited or queued. At the end of the
search nothing is queued. -/
theorem explore_closed (visited queue : List α)
    (hv : ∀ a ∈ visited, ∀ b ∈ next a, b ∈ visited ∨ b ∈ queue) :
    ∀ a ∈ explore places next visited queue, ∀ b ∈ next a,
      b ∈ explore places next visited queue := by
  revert hv
  apply explore_induction hp (P := fun visited queue found =>
    (∀ a ∈ visited, ∀ b ∈ next a, b ∈ visited ∨ b ∈ queue) → ∀ a ∈ found, ∀ b ∈ next a, b ∈ found)
  case done => exact fun visited hv a ha b hb => (hv a ha b hb).resolve_right (by simp)
  case skip =>
    intro visited a queue found ha ih hv
    refine ih fun c hc b hb => ?_
    rcases hv c hc b hb with h | h
    · exact .inl h
    · rcases List.mem_cons.1 h with rfl | h
      · exact .inl ha
      · exact .inr h
  case visit =>
    intro visited a queue found _ ih hv
    refine ih fun c hc b hb => ?_
    rcases List.mem_append.1 hc with hc | hc
    · rcases hv c hc b hb with h | h
      · exact .inl (List.mem_append_left _ h)
      · rcases List.mem_cons.1 h with rfl | h
        · exact .inl (by simp)
        · exact .inr (List.mem_append_left _ h)
    · rw [List.mem_singleton.1 hc] at hb
      exact .inr (List.mem_append_right _ hb)

/-- **The search finds exactly what steps from the queue lead to.** -/
theorem mem_explore (queue : List α) (b : α) :
    b ∈ explore places next [] queue ↔
      ∃ a ∈ queue, ReflTransGen (fun x y => y ∈ next x) a b := by
  constructor
  · intro hb
    exact (of_mem_explore hp [] queue b hb).resolve_left (by simp)
  · rintro ⟨a, ha, h⟩
    induction h with
    | refl => exact (subset_explore hp [] queue).2 a ha
    | tail _ hbc ih => exact explore_closed hp [] queue (by simp) _ ih _ hbc

end Search

namespace Graph

/-! ## Neighbours -/

/-- A link runs from one node to another. -/
def Feeds (g : Graph) (a b : NodeId) : Prop :=
  ∃ l ∈ g.links, g.owner? l.source = some a ∧ g.owner? l.sink = some b

theorem mem_foldl_distinct {α : Type} [DecidableEq α] (l seen : List α) (a : α) :
    a ∈ l.foldl (fun seen a => if a ∈ seen then seen else seen ++ [a]) seen ↔
      a ∈ seen ∨ a ∈ l := by
  induction l generalizing seen with
  | nil => simp
  | cons b l ih =>
    rw [List.foldl_cons, ih]
    split
    · next h =>
      rw [List.mem_cons]
      constructor
      · rintro (h' | h')
        · exact .inl h'
        · exact .inr (.inr h')
      · rintro (h' | rfl | h')
        · exact .inl h'
        · exact .inl h
        · exact .inr h'
    · simp [or_assoc]

@[simp] theorem mem_distinct {α : Type} [DecidableEq α] {l : List α} {a : α} :
    a ∈ distinct l ↔ a ∈ l := by
  rw [distinct, mem_foldl_distinct]; simp

theorem nodup_distinct {α : Type} [DecidableEq α] (l : List α) : (distinct l).Nodup := by
  have h : ∀ l seen : List α, seen.Nodup →
      (l.foldl (fun seen a => if a ∈ seen then seen else seen ++ [a]) seen).Nodup := by
    intro l
    induction l with
    | nil => exact fun _ h => h
    | cons b l ih =>
      intro seen hs
      refine ih _ ?_
      show (if b ∈ seen then seen else seen ++ [b]).Nodup
      split
      · exact hs
      · next hb =>
        refine List.nodup_append.2 ⟨hs, by simp, fun a ha c hc e => hb ?_⟩
        rwa [← List.mem_singleton.1 hc, ← e]
  exact h l [] List.nodup_nil

theorem mem_successors {g : Graph} {a b : NodeId} : b ∈ g.successors a ↔ g.Feeds a b := by
  simp only [successors, mem_distinct, List.mem_filterMap, linksFrom, List.mem_filter, beq_iff_eq,
    Feeds]
  constructor
  · rintro ⟨l, ⟨hl, hs⟩, ht⟩; exact ⟨l, hl, hs, ht⟩
  · rintro ⟨l, hl, hs, ht⟩; exact ⟨l, ⟨hl, hs⟩, ht⟩

instance (g : Graph) (a b : NodeId) : Decidable (g.Feeds a b) :=
  decidable_of_iff (b ∈ g.successors a) mem_successors

theorem nodup_successors (g : Graph) (a : NodeId) : (g.successors a).Nodup := nodup_distinct _

theorem mem_predecessors {g : Graph} {a b : NodeId} : a ∈ g.predecessors b ↔ g.Feeds a b := by
  simp only [predecessors, mem_distinct, List.mem_filterMap, linksTo, List.mem_filter, beq_iff_eq,
    Feeds]
  constructor
  · rintro ⟨l, ⟨hl, ht⟩, hs⟩; exact ⟨l, hl, hs, ht⟩
  · rintro ⟨l, hl, hs, ht⟩; exact ⟨l, ⟨hl, ht⟩, hs⟩

theorem Feeds.source_mem {g : Graph} {a b : NodeId} (h : g.Feeds a b) : a ∈ g.portOwners :=
  let ⟨_, _, hs, _⟩ := h
  Table.mem_values_of_get? hs

theorem Feeds.sink_mem {g : Graph} {a b : NodeId} (h : g.Feeds a b) : b ∈ g.portOwners :=
  let ⟨_, _, _, ht⟩ := h
  Table.mem_values_of_get? ht

theorem successors_eq_nil (g : Graph) (a : NodeId) (h : a ∉ g.portOwners) : g.successors a = [] :=
  List.eq_nil_iff_forall_not_mem.2 fun _ hb => h (mem_successors.1 hb).source_mem

theorem predecessors_eq_nil (g : Graph) (b : NodeId) (h : b ∉ g.portOwners) :
    g.predecessors b = [] :=
  List.eq_nil_iff_forall_not_mem.2 fun _ ha => h (mem_predecessors.1 ha).sink_mem

/-! ## Paths -/

/-- **A node is reached iff links lead to it.** -/
theorem reaches_iff {g : Graph} {a b : NodeId} : g.reaches a b ↔ ReflTransGen g.Feeds a b := by
  rw [reaches, decide_eq_true_iff, reachable, mem_explore g.successors_eq_nil]
  simp only [List.mem_singleton, exists_eq_left, mem_successors]

/-- **The ancestors of a node are those from which links lead to it, one at least.** -/
theorem mem_ancestors {g : Graph} {a b : NodeId} : a ∈ g.ancestors b ↔ TransGen g.Feeds a b := by
  have hs : ∀ c, ReflTransGen (fun x y => g.Feeds y x) c a ↔ ReflTransGen g.Feeds a c := fun c =>
    reflTransGen_swap
  rw [ancestors, mem_explore g.predecessors_eq_nil, TransGen.tail'_iff]
  simp only [mem_predecessors, hs]
  exact exists_congr fun c => and_comm

theorem hasPendingAncestor_iff {g : Graph} {b : NodeId} : g.hasPendingAncestor b ↔
    ∃ a n, TransGen g.Feeds a b ∧ g.node? a = some n ∧ n.state.isPending := by
  simp only [hasPendingAncestor, List.any_eq_true, mem_ancestors, Option.any_eq_true]
  constructor
  · rintro ⟨a, h, n, hn, hp⟩; exact ⟨a, n, h, hn, hp⟩
  · rintro ⟨a, n, h, hn, hp⟩; exact ⟨a, h, n, hn, hp⟩

end Graph

end PixelFlow
