import PixelFlow.Proofs.Graph.Cycle

/-!
# Searches as loops

A search takes the places off its queue one by one. The queue may hold a place twice, or one that
has been visited since it was queued, and nothing bounds the number of turns. One search goes on
until nothing is queued; another is broken off as soon as a goal comes first. Links may run in
cycles here.

* **`Search.Runs`**: the loop without a bound, as a relation, for any condition to stop at.
* `Search.Runs.unique`: it ends in one way at most; `Search.runs_explore`: it ends.
* `Search.Runs.early`: a loop that stops earlier is a first part of the longer one.
* `Search.exists_runs_goal`: a goal comes first exactly if the whole search would visit it.
* `Graph.Walk`: links that lead from one node to another, one after the other.
* **`Graph.Anchored.searched`**: which nodes are reached, which are ancestors, and which of those
  have work left, in terms of walks.
-/

namespace PixelFlow

open Relation

/-- A search under way: what it has visited, and what it has queued. -/
structure Search (α : Type) where
  visited : Finset α
  queue : List α

namespace Search

variable {α : Type} [DecidableEq α] {next : α → List α} {stop stop' : Search α → Prop}
  {s t t' : Search α} {a goal : α}

/-! ## The loop -/

/-- **One turn**: the first place is taken off the queue. If it is new, it is visited and all its
neighbours are queued. -/
def turn (next : α → List α) (s : Search α) : Search α :=
  match s.queue with
  | [] => s
  | a :: queue =>
    if a ∈ s.visited then ⟨s.visited, queue⟩ else ⟨insert a s.visited, queue ++ next a⟩

/-- **Turn after turn until it is time to stop**, however many turns that takes. -/
inductive Runs (next : α → List α) (stop : Search α → Prop) : Search α → Search α → Prop
  | done {s : Search α} (h : stop s) : Runs next stop s s
  | turn {s t : Search α} (h : ¬ stop s) (ht : Runs next stop (s.turn next) t) :
    Runs next stop s t

/-- Nothing is queued any more. -/
def Spent (s : Search α) : Prop := s.queue = []

/-- The goal comes first in the queue. -/
def Meets (goal : α) (s : Search α) : Prop := s.queue.head? = some goal

/-- **The loop ends in one way at most.** -/
theorem Runs.unique (h : Runs next stop s t) (h' : Runs next stop s t') : t = t' := by
  induction h with
  | done h =>
    cases h' with
    | done => rfl
    | turn hn => exact absurd h hn
  | turn hn _ ih =>
    cases h' with
    | done h' => exact absurd h' hn
    | turn _ ht' => exact ih ht'

theorem Runs.stopped (h : Runs next stop s t) : stop t := by
  induction h with
  | done h => exact h
  | turn _ _ ih => exact ih

/-- What every turn keeps holds at the end. -/
theorem Runs.keeps {P : Search α → Prop} (h : Runs next stop s t) (hs : P s)
    (step : ∀ s, ¬ stop s → P s → P (s.turn next)) : P t := by
  induction h with
  | done => exact hs
  | turn hn _ ih => exact ih (step _ hn hs)

/-- **A loop that stops earlier ends if the longer one does**, which goes on from there. -/
theorem Runs.early (h : Runs next stop s t) (hi : ∀ s, stop s → stop' s) :
    ∃ t', Runs next stop' s t' ∧ Runs next stop t' t := by
  induction h with
  | done h => exact ⟨_, .done (hi _ h), .done h⟩
  | @turn s t hn ht ih =>
    by_cases hs : stop' s
    · exact ⟨s, .done hs, .turn hn ht⟩
    · obtain ⟨t', early, rest⟩ := ih
      exact ⟨t', .turn hs early, rest⟩

/-! ## The whole search -/

theorem turn_of_mem {visited : Finset α} (h : a ∈ visited) (queue : List α) :
    turn next ⟨visited, a :: queue⟩ = ⟨visited, queue⟩ := if_pos h

theorem turn_of_notMem {visited : Finset α} (h : a ∉ visited) (queue : List α) :
    turn next ⟨visited, a :: queue⟩ = ⟨insert a visited, queue ++ next a⟩ := if_neg h

omit [DecidableEq α] in
theorem not_spent (visited : Finset α) (a : α) (queue : List α) :
    ¬ Spent ⟨visited, a :: queue⟩ := List.cons_ne_nil a queue

/-- **The loop ends with what `explore` finds**, if only finitely many places have neighbours. -/
theorem runs_explore {places : List α} (hp : ∀ a, a ∉ places → next a = [])
    (visited queue : List α) : Runs next Spent ⟨visited.toFinset, queue⟩
      ⟨(explore places next visited queue).toFinset, []⟩ := by
  -- `explore` ends because a turn visits one of these places or leaves a shorter queue.
  apply explore_induction hp (P := fun visited queue found =>
    Runs next Spent ⟨visited.toFinset, queue⟩ ⟨found.toFinset, []⟩)
  case done => exact fun visited => .done rfl
  case skip =>
    intro visited a queue found ha ih
    refine .turn (not_spent _ a queue) ?_
    rwa [turn_of_mem (List.mem_toFinset.2 ha)]
  case visit =>
    intro visited a queue found ha ih
    have snoc : (visited ++ [a]).toFinset = insert a visited.toFinset := by
      ext b
      simp
    refine .turn (not_spent _ a queue) ?_
    rwa [turn_of_notMem (mt List.mem_toFinset.1 ha), ← snoc]

theorem visited_subset_turn (s : Search α) : s.visited ⊆ (s.turn next).visited := by
  unfold turn
  split
  · exact subset_rfl
  · split_ifs
    · exact subset_rfl
    · exact Finset.subset_insert ..

/-! ## A goal -/

/-- The goal is visited in the turn in which it comes first, if not before. -/
theorem Meets.mem_turn (h : s.Meets goal) : goal ∈ (s.turn next).visited := by
  obtain ⟨visited, queue⟩ := s
  obtain ⟨queue, rfl⟩ := List.head?_eq_some_iff.1 h
  by_cases hg : goal ∈ visited
  · rwa [turn_of_mem hg]
  · rw [turn_of_notMem hg]
    exact Finset.mem_insert_self ..

/-- Before the goal comes first no turn visits it. -/
theorem notMem_turn (h : ¬ s.Meets goal) (hg : goal ∉ s.visited) :
    goal ∉ (s.turn next).visited := by
  obtain ⟨visited, queue⟩ := s
  cases queue with
  | nil => exact hg
  | cons a queue =>
    by_cases ha : a ∈ visited
    · rwa [turn_of_mem ha]
    · rw [turn_of_notMem ha]
      refine fun hm => (Finset.mem_insert.1 hm).elim (fun e => h ?_) hg
      exact congrArg some e.symm

/-- **If the whole search ends, so does the one for a goal**, and the goal comes first in it exactly
if the whole search visits the goal. -/
theorem exists_runs_goal (h : Runs next Spent s t) (goal : α) (hg : goal ∉ s.visited) :
    ∃ t', Runs next (fun s => s.Spent ∨ s.Meets goal) s t' ∧
      (t'.Meets goal ↔ goal ∈ t.visited) := by
  have sooner : ∀ s : Search α, s.Spent → s.Spent ∨ s.Meets goal := fun _ hs => .inl hs
  obtain ⟨t', early, rest⟩ := h.early sooner
  refine ⟨t', early, fun hm => ?_, fun hm => ?_⟩
  · cases rest with
    | done hs =>
      rw [Meets, show t.queue = [] from hs] at hm
      cases hm
    | turn _ ht => exact ht.keeps hm.mem_turn fun s _ hs => visited_subset_turn s hs
  · rcases early.stopped with hs | hs
    · obtain rfl := rest.unique (.done hs)
      have unmet := early.keeps hg fun s hn hs => notMem_turn (fun hm => hn (.inr hm)) hs
      exact absurd hm unmet
    · exact hs

end Search

theorem NodeState.isPending_iff {s : NodeState} :
    s.isPending = true ↔ s = .dirty ∨ ∃ k, s = .computing k := by
  cases s <;> simp [isPending]

namespace Graph

variable {g : Graph} {a b : NodeId}

/-! ## Walks -/

/-- **The links lead from one node to another**: each begins where the one before it ends. -/
inductive Walk (g : Graph) : NodeId → List Link → NodeId → Prop
  | nil {a : NodeId} : Walk g a [] a
  | cons {a b c : NodeId} {l : Link} {ls : List Link} (hl : l ∈ g.links)
    (hs : g.owner? l.source = some a) (ht : g.owner? l.sink = some b) (hw : Walk g b ls c) :
    Walk g a (l :: ls) c

theorem exists_walk : (∃ ls, g.Walk a ls b) ↔ ReflTransGen g.Feeds a b := by
  constructor
  · rintro ⟨ls, h⟩
    induction h with
    | nil => exact .refl
    | cons hl hs ht _ ih => exact .head ⟨_, hl, hs, ht⟩ ih
  · intro h
    induction h using ReflTransGen.head_induction_on with
    | refl => exact ⟨[], .nil⟩
    | head hf _ ih =>
      obtain ⟨l, hl, hs, ht⟩ := hf
      obtain ⟨ls, hw⟩ := ih
      exact ⟨l :: ls, .cons hl hs ht hw⟩

theorem exists_walk_ne_nil : (∃ ls, ls ≠ [] ∧ g.Walk a ls b) ↔ TransGen g.Feeds a b := by
  rw [TransGen.head'_iff]
  constructor
  · rintro ⟨ls, hne, h⟩
    cases h with
    | nil => exact absurd rfl hne
    | cons hl hs ht hw => exact ⟨_, ⟨_, hl, hs, ht⟩, exists_walk.1 ⟨_, hw⟩⟩
  · rintro ⟨c, ⟨l, hl, hs, ht⟩, h⟩
    obtain ⟨ls, hw⟩ := exists_walk.2 h
    exact ⟨l :: ls, List.cons_ne_nil l ls, .cons hl hs ht hw⟩

/-! ## The searches of a graph -/

/-- The search along links that begins with `a` and is broken off once `b` comes first ends, and
`found` says whether it was broken off. -/
def Seeks (g : Graph) (a b : NodeId) (found : Bool) : Prop :=
  ∃ t, Search.Runs g.successors (fun s => s.Spent ∨ s.Meets b) ⟨∅, [a]⟩ t ∧
    (found = true ↔ t.Meets b)

/-- The search against links that begins with the nodes that feed `b`, but not with `b`, ends, and
`visited` is what it has visited then. -/
def Collects (g : Graph) (b : NodeId) (visited : Finset NodeId) : Prop :=
  ∃ t, Search.Runs g.predecessors Search.Spent ⟨∅, g.predecessors b⟩ t ∧ t.visited = visited

/-- **The search for a node ends, in one way, and answers as `reaches` does.** -/
theorem seeks_iff (g : Graph) (a b : NodeId) (found : Bool) :
    g.Seeks a b found ↔ found = g.reaches a b := by
  have whole := Search.runs_explore g.successors_eq_nil [] [a]
  obtain ⟨t, early, meets⟩ := Search.exists_runs_goal whole b (Finset.notMem_empty b)
  have answer : t.Meets b ↔ g.reaches a b = true := by
    rw [meets, List.mem_toFinset, reaches, reachable, decide_eq_true_iff]
  constructor
  · rintro ⟨t', h, hf⟩
    obtain rfl := h.unique early
    exact Bool.eq_iff_iff.2 (hf.trans answer)
  · rintro rfl
    exact ⟨t, early, answer.symm⟩

/-- **The search for all ancestors ends, in one way, with these.** -/
theorem collects_iff (g : Graph) (b : NodeId) (visited : Finset NodeId) :
    g.Collects b visited ↔ visited = (g.ancestors b).toFinset := by
  have whole := Search.runs_explore g.predecessors_eq_nil [] (g.predecessors b)
  constructor
  · rintro ⟨t, h, rfl⟩
    obtain rfl := h.unique whole
    rfl
  · rintro rfl
    exact ⟨_, whole, rfl⟩

/-- **What the searches of a graph come to**, with cycles or without. -/
structure Searched (g : Graph) : Prop where
  /-- The search for a node ends, in one way, with the answer that there is a walk or none. -/
  seeks : ∀ a b found, g.Seeks a b found ↔ found = g.reaches a b
  reaches : ∀ a b, g.reaches a b = true ↔ ∃ ls, g.Walk a ls b
  /-- The search for ancestors ends, in one way, with the nodes from which walks of one link at
  least lead here. -/
  collects : ∀ b visited, g.Collects b visited ↔ visited = (g.ancestors b).toFinset
  ancestors : ∀ a b, a ∈ g.ancestors b ↔ ∃ ls, ls ≠ [] ∧ g.Walk a ls b
  /-- They are nodes of the graph. -/
  present : ∀ a b, a ∈ g.ancestors b → a ∈ g.nodeIds
  /-- A node is among its own ancestors exactly if one that it feeds leads back to it. -/
  self : ∀ b, b ∈ g.ancestors b ↔ ∃ c, g.Feeds b c ∧ g.reaches c b = true
  /-- Work is left above a node exactly if one of its ancestors is dirty or computing. -/
  pending : ∀ b, g.hasPendingAncestor b = true ↔ ∃ a ∈ g.ancestors b, ∃ n, g.node? a = some n ∧
    (n.state = .dirty ∨ ∃ k, n.state = .computing k)
  /-- It does not matter in which order the visited nodes are asked for work left. -/
  unordered : ∀ (b : NodeId) (order : List NodeId), g.Collects b order.toFinset →
    (order.any fun a => (g.node? a).any (·.state.isPending)) = g.hasPendingAncestor b

/-- **In every graph whose links join its nodes the searches end and are exact.** -/
theorem Anchored.searched (hg : g.Anchored) : g.Searched := by
  constructor
  case seeks => exact g.seeks_iff
  case reaches => exact fun a b => reaches_iff.trans exists_walk.symm
  case collects => exact g.collects_iff
  case ancestors => exact fun a b => mem_ancestors.trans exists_walk_ne_nil.symm
  case present =>
    intro a b ha
    obtain ⟨c, hf, -⟩ := TransGen.head'_iff.1 (mem_ancestors.1 ha)
    exact (hg.feeds_nodeIds hf).1
  case self =>
    intro b
    rw [mem_ancestors, TransGen.head'_iff]
    exact exists_congr fun c => and_congr_right' reaches_iff.symm
  case pending =>
    intro b
    rw [hasPendingAncestor_iff]
    constructor
    · rintro ⟨a, n, ha, hn, hp⟩
      exact ⟨a, mem_ancestors.2 ha, n, hn, NodeState.isPending_iff.1 hp⟩
    · rintro ⟨a, ha, n, hn, hp⟩
      exact ⟨a, n, mem_ancestors.1 ha, hn, NodeState.isPending_iff.2 hp⟩
  case unordered =>
    intro b order h
    have same := List.toFinset.ext_iff.1 ((g.collects_iff b _).1 h)
    rw [hasPendingAncestor, Bool.eq_iff_iff, List.any_eq_true, List.any_eq_true]
    exact exists_congr fun a => and_congr_left' (same a)

/-- Two nodes on a cycle are their own ancestors; one that they feed is not, and leads nowhere. -/
theorem searched_tangled : tangled.Anchored ∧
    (∀ found, tangled.Seeks ⟨.mint 3 0⟩ ⟨.mint 2 0⟩ found ↔ found = true) ∧
    (∀ found, tangled.Seeks ⟨.mint 2 0⟩ ⟨.mint 0 0⟩ found ↔ found = false) ∧
    (¬ ∃ ls, tangled.Walk ⟨.mint 2 0⟩ ls ⟨.mint 0 0⟩) ∧
    (∀ visited, tangled.Collects ⟨.mint 2 0⟩ visited ↔
      visited = [⟨.mint 1 0⟩, ⟨.mint 0 0⟩, ⟨.mint 3 0⟩].toFinset) ∧
    (∃ ls, ls ≠ [] ∧ tangled.Walk ⟨.mint 1 0⟩ ls ⟨.mint 1 0⟩) ∧
    ∃ a ∈ tangled.ancestors ⟨.mint 2 0⟩, ∃ n, tangled.node? a = some n ∧
      (n.state = .dirty ∨ ∃ k, n.state = .computing k) := by
  have hg : tangled.Anchored := of_decide_eq_true (by cbv)
  have far : tangled.reaches ⟨.mint 3 0⟩ ⟨.mint 2 0⟩ = true := by cbv
  have back : tangled.reaches ⟨.mint 2 0⟩ ⟨.mint 0 0⟩ = false := by cbv
  have above : tangled.ancestors ⟨.mint 2 0⟩ = [⟨.mint 1 0⟩, ⟨.mint 0 0⟩, ⟨.mint 3 0⟩] := by cbv
  have self : tangled.ancestors ⟨.mint 1 0⟩ = [⟨.mint 0 0⟩, ⟨.mint 1 0⟩, ⟨.mint 3 0⟩] := by cbv
  have left : tangled.hasPendingAncestor ⟨.mint 2 0⟩ = true := by cbv
  have h := hg.searched
  refine ⟨hg, far ▸ h.seeks _ _, back ▸ h.seeks _ _, fun hw => ?_, above ▸ h.collects _,
    (h.ancestors _ _).1 (by rw [self]; decide), (h.pending _).1 left⟩
  exact Bool.false_ne_true (back.symm.trans ((h.reaches _ _).2 hw))

end Graph

end PixelFlow
