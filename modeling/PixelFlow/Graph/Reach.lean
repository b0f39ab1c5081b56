import PixelFlow.Graph.Basic

/-!
# Reachability

A search visits what can be reached from a list of places by following a relation. It queues every
neighbour of a place that it visits, and skips what it has seen.

* `explore`: the search, over a finite list of the places that have neighbours.
* **`Graph.reaches`**: whether links lead from one node to another, or the nodes are the same.
* **`Graph.ancestors`**: the nodes from which links lead to a node.
* `Graph.hasPendingAncestor`: whether one of those has work left.
-/

namespace PixelFlow

/-- Visit the queued places and what can be reached from them. What is outside of `places` has
no neighbours. -/
def explore {α : Type} [DecidableEq α] (places : List α) (next : α → List α)
    (visited queue : List α) : List α :=
  match queue with
  | [] => visited
  | a :: queue =>
    if a ∈ visited then explore places next visited queue
    else if a ∈ places then explore places next (visited ++ [a]) (queue ++ next a)
    else explore places next (visited ++ [a]) queue
termination_by ((places.filter (· ∉ visited)).length, queue.length)
decreasing_by
  · exact Prod.Lex.right _ (by simp)
  · refine Prod.Lex.left _ _ ?_
    have hle : ∀ l : List α, (l.filter (· ∉ visited ++ [a])).length ≤
        (l.filter (· ∉ visited)).length := fun l => by
      rw [← List.countP_eq_length_filter, ← List.countP_eq_length_filter]
      exact List.countP_mono_left fun b _ hb => by
        simp only [List.mem_append, decide_eq_true_eq, not_or] at hb ⊢
        exact hb.1
    obtain ⟨l, r, rfl⟩ := List.append_of_mem (show a ∈ places from ‹_›)
    have hl := hle l
    have hr := hle r
    simp only [List.filter_append, List.length_append, List.filter_cons]
    have ha : a ∉ visited := ‹_›
    simp [ha]
    simp at hl hr
    omega
  · have hle : (places.filter (· ∉ visited ++ [a])).length ≤
        (places.filter (· ∉ visited)).length := by
      rw [← List.countP_eq_length_filter, ← List.countP_eq_length_filter]
      exact List.countP_mono_left fun b _ hb => by
        simp only [List.mem_append, decide_eq_true_eq, not_or] at hb ⊢
        exact hb.1
    rcases Nat.lt_or_eq_of_le hle with h | h
    · exact Prod.Lex.left _ _ h
    · rw [h]; exact Prod.Lex.right _ (by simp)

namespace Graph

/-- The nodes that own a port; only those have neighbours. -/
def portOwners (g : Graph) : List NodeId := g.owners.values

/-- The nodes that can be reached from a node, itself included. -/
def reachable (g : Graph) (start : NodeId) : List NodeId :=
  explore g.portOwners g.successors [] [start]

/-- Whether links lead from one node to another; every node leads to itself. -/
def reaches (g : Graph) (start goal : NodeId) : Bool := goal ∈ g.reachable start

/-- The nodes from which a node can be reached by one link at least. -/
def ancestors (g : Graph) (id : NodeId) : List NodeId :=
  explore g.portOwners g.predecessors [] (g.predecessors id)

/-- Whether an ancestor has work left, so that the inputs of the node are about to change. -/
def hasPendingAncestor (g : Graph) (id : NodeId) : Bool :=
  (g.ancestors id).any fun u => (g.node? u).any (·.state.isPending)

end Graph

end PixelFlow
