import Mathlib.Data.List.Permutation
import PixelFlow.Builtin.Arithmetic
import PixelFlow.Proofs.Graph.Order

/-!
# Cycles and the topological order

The queue is worked off without a bound on the rounds, and each node that is taken is counted off
at the nodes that it feeds. Links need not be sound here: they may run in cycles, and any number of
them may join the same two nodes.

* **`Graph.Takes`**: the loop without a bound, as a relation; it breaks off where a count would fall
  below zero.
* `Graph.Takes.unique`: it ends in one way at most; `Graph.Taking.takes`: it ends, and unbroken.
* `Graph.Sorts.idxOf_lt`: along each link the order rises.
* **`Graph.Anchored.ordered`**: there is an order exactly when there is no cycle, and otherwise the
  error names the nodes on a cycle or downstream of one.
-/

namespace PixelFlow.Graph

open Relation

variable {g : Graph} {degrees left : Table NodeId Nat} {queue taken : List NodeId} {id : NodeId}

/-! ## The loop -/

/-- Take one feeding node off the count of a node, unless nothing is left to take off. -/
def release? (degrees : Table NodeId Nat) (queue : List NodeId) (id : NodeId) :
    Option (Table NodeId Nat × List NodeId) :=
  match degrees.get? id with
  | none => some (degrees, queue)
  | some 0 => none
  | some (d + 1) => some (degrees.insert id d, if d = 0 then queue ++ [id] else queue)

/-- **Take nodes until the queue is empty.** The loop ends with the counts that are left and the
nodes in order, or with `none` where it breaks off because a count is used up. -/
inductive Takes (g : Graph) : Table NodeId Nat → List NodeId → List NodeId →
    Option (Table NodeId Nat × List NodeId) → Prop
  | done {degrees : Table NodeId Nat} {taken : List NodeId} :
    Takes g degrees [] taken (some (degrees, taken))
  | broken {degrees : Table NodeId Nat} {id : NodeId} {queue taken : List NodeId}
    (h : (g.successors id).foldlM (fun (d, q) s => release? d q s) (degrees, queue) = none) :
    Takes g degrees (id :: queue) taken none
  | next {degrees degrees' : Table NodeId Nat} {id : NodeId} {queue queue' taken : List NodeId}
    {o : Option (Table NodeId Nat × List NodeId)}
    (h : (g.successors id).foldlM (fun (d, q) s => release? d q s) (degrees, queue) =
      some (degrees', queue'))
    (ht : Takes g degrees' queue' (taken ++ [id]) o) : Takes g degrees (id :: queue) taken o

/-- **The loop ends in one way at most.** -/
theorem Takes.unique {o o' : Option (Table NodeId Nat × List NodeId)}
    (h : g.Takes degrees queue taken o) (h' : g.Takes degrees queue taken o') : o = o' := by
  induction h generalizing o' with
  | done =>
    cases h'
    rfl
  | broken h =>
    cases h' with
    | broken => rfl
    | next h' => cases h.symm.trans h'
  | next h _ ih =>
    cases h' with
    | broken h' => cases h.symm.trans h'
    | next h' ht' =>
      obtain ⟨rfl, rfl⟩ := Prod.mk.inj (Option.some.inj (h.symm.trans h'))
      exact ih ht'

/-! ## No count falls below zero -/

theorem release?_eq (h : degrees.get? id ≠ some 0) (queue : List NodeId) :
    release? degrees queue id = some (release degrees queue id) := by
  rw [release?, release]
  cases hd : degrees.get? id with
  | none => rfl
  | some d =>
    cases d with
    | zero => exact absurd hd h
    | succ d => rfl

/-- Distinct nodes are counted off one by one: no one of them uses up the count of another. -/
theorem foldlM_release? {l : List NodeId} (hl : l.Nodup) (queue : List NodeId)
    (h : ∀ b ∈ l, degrees.get? b ≠ some 0) :
    l.foldlM (fun (d, q) s => release? d q s) (degrees, queue) =
      some (l.foldl (fun (d, q) s => release d q s) (degrees, queue)) := by
  induction l generalizing degrees queue with
  | nil => rfl
  | cons a l ih =>
    obtain ⟨ha, hl⟩ := List.nodup_cons.1 hl
    rw [List.foldlM_cons, List.foldl_cons]
    show (release? degrees queue a).bind _ = _
    rw [release?_eq (h a (List.mem_cons_self ..)), Option.bind_some]
    have rest : ∀ b ∈ l, (release degrees queue a).1.get? b ≠ some 0 := fun b hb => by
      have : a ≠ b := fun e => ha (e ▸ hb)
      rw [get?_release, if_neg this]
      exact h b (List.mem_cons_of_mem _ hb)
    exact ih hl (release degrees queue a).2 rest

/-- A node that is about to be taken is still counted at the nodes that it feeds. -/
theorem Taking.pos (hg : g.Anchored) (h : g.Taking degrees (id :: queue) taken) {b : NodeId}
    (hb : b ∈ g.successors id) : degrees.get? b ≠ some 0 := by
  have hf := mem_successors.1 hb
  rw [h.degree b (hg.feeds_nodeIds hf).2]
  exact fun hz => notMem_before h.nodup (hg.waits_eq_zero.1 (Option.some.inj hz) id hf)

/-- **The loop ends, unbroken, and fuel for each node once is enough.** -/
theorem Taking.takes (hg : g.Anchored) {fuel : Nat} (h : g.Taking degrees queue taken)
    (hf : fuel + taken.length = g.nodes.size) :
    g.Takes degrees queue taken (some (g.takeReady fuel degrees queue taken)) := by
  induction fuel generalizing degrees queue taken with
  | zero =>
    obtain rfl := h.queue_nil (by omega)
    exact .done
  | succ fuel ih =>
    cases queue with
    | nil => exact .done
    | cons id queue =>
      refine .next (foldlM_release? (nodup_successors g id) queue fun b => h.pos hg) ?_
      refine ih (h.step hg) ?_
      rw [List.length_append, List.length_singleton]
      omega

/-! ## The nodes that are left -/

theorem keys_release (degrees : Table NodeId Nat) (queue : List NodeId) (id : NodeId) :
    (release degrees queue id).1.keys = degrees.keys := by
  rw [release]
  split
  · rfl
  · next h => exact Table.keys_insert_of_mem (Table.mem_keys_of_get? h) _

theorem keys_takeReady (g : Graph) (fuel : Nat) (degrees : Table NodeId Nat)
    (queue taken : List NodeId) :
    (g.takeReady fuel degrees queue taken).1.keys = degrees.keys := by
  have all : ∀ (l : List NodeId) (d : Table NodeId Nat) (q : List NodeId),
      (l.foldl (fun (d, q) s => release d q s) (d, q)).1.keys = d.keys := by
    intro l
    induction l with
    | nil => exact fun _ _ => rfl
    | cons a l ih => exact fun d q => (ih ..).trans (keys_release d q a)
  induction fuel generalizing degrees queue taken with
  | zero => rfl
  | succ fuel ih =>
    cases queue with
    | nil => rfl
    | cons id queue => exact (ih ..).trans (all ..)

/-- **The nodes whose count is not used up are the blocked ones.** -/
theorem Taking.mem_left (hg : g.Anchored) (h : g.Taking left [] taken)
    (hk : left.keys = g.nodeIds) : id ∈ withDegree left false ↔ g.Blocked id := by
  have free := h.free id
  rw [List.append_nil, h.mem_taken hg] at free
  rw [mem_withDegree]
  constructor
  · rintro ⟨d, hd, hz⟩
    have hi : id ∈ g.nodeIds := hk ▸ Table.mem_keys_of_get? hd
    rw [h.degree id hi] at hd
    by_contra hb
    have := (free.1 ⟨hi, hb⟩).2
    simp [Option.some.inj hd ▸ this] at hz
  · intro hb
    have hi : id ∈ g.nodeIds := hb.mem_nodeIds hg
    refine ⟨_, h.degree id hi, beq_eq_false_iff_ne.2 fun hw => ?_⟩
    exact (free.2 ⟨hi, hw⟩).2 hb

/-- All nodes have been taken exactly when none is blocked. -/
theorem Taking.length_eq (hg : g.Anchored) (h : g.Taking left [] taken) :
    taken.length = g.nodes.size ↔ ∀ id, ¬ g.Blocked id := by
  constructor
  · intro hl id hb
    have nodup := h.nodup
    rw [List.append_nil] at nodup
    have sub : taken.Subperm g.nodeIds :=
      List.subperm_of_subset nodup fun b hb => ((h.mem_taken hg b).1 hb).1
    have perm : taken.Perm g.nodeIds :=
      sub.perm_of_length_le (by rw [hl, nodeIds, Table.length_keys])
    exact ((h.mem_taken hg id).1 (perm.mem_iff.2 (hb.mem_nodeIds hg))).2 hb
  · exact fun hb => (h.sorts hg hb).length

/-! ## The order -/

/-- **Along each link the order rises.** -/
theorem Sorts.idxOf_lt {order : List NodeId} (h : g.Sorts order) (hi : id ∈ order) {a : NodeId}
    (hf : g.Feeds a id) : order.idxOf a < order.idxOf id := by
  obtain ⟨pre, post, rfl⟩ := List.append_of_mem hi
  have ha : a ∈ pre := h.closed pre id post rfl a hf
  rw [List.idxOf_append_of_mem ha, List.idxOf_append_of_notMem (notMem_before h.nodup),
    List.idxOf_cons_self]
  exact List.idxOf_lt_length_of_mem ha

/-- There is nothing blocked exactly when there is no cycle. -/
theorem not_blocked_iff : (∀ id, ¬ g.Blocked id) ↔ ∀ id, ¬ TransGen g.Feeds id id :=
  ⟨fun h id hc => h id ⟨id, hc, .refl⟩, fun h _ ⟨c, hc, _⟩ => h c hc⟩

/-- **What the loop ends with, and what the order is.** -/
theorem Anchored.exists_takes (hg : g.Anchored) : ∃ left taken,
    g.Takes g.inDegrees (withDegree g.inDegrees true) [] (some (left, taken)) ∧
      g.Taking left [] taken ∧ left.keys = g.nodeIds ∧
      g.topologicalOrder = if taken.length = g.nodes.size then .ok taken
        else .error (.cycleDetected (withDegree left false)) := by
  have start := taking_start g
  refine ⟨_, _, start.takes hg (by simp), start.run hg (by simp), ?_, rfl⟩
  exact (keys_takeReady ..).trans (keys_inDegrees g)

/-- **What putting the graph in order comes to**, with cycles or without. -/
structure Ordered (g : Graph) : Prop where
  /-- The loop ends, in one way and unbroken, and the order is read off what it ends with. -/
  loop : ∃ left taken,
    (∀ o, g.Takes g.inDegrees (withDegree g.inDegrees true) [] o ↔ o = some (left, taken)) ∧
      g.topologicalOrder = if taken.length = g.nodes.size then .ok taken
        else .error (.cycleDetected (withDegree left false))
  /-- There is an order exactly when there is no cycle. -/
  ok_iff : (∃ order, g.topologicalOrder = .ok order) ↔ ∀ id, ¬ TransGen g.Feeds id id
  cycle_iff : g.hasCycle = true ↔ ∃ id, TransGen g.Feeds id id
  /-- An order has each node once, and each link runs from an earlier node to a later one. -/
  ok : ∀ order, g.topologicalOrder = .ok order → order.Nodup ∧
    (∀ id, id ∈ order ↔ id ∈ g.nodeIds) ∧
      ∀ l ∈ g.links, ∃ a ∈ order, ∃ b ∈ order,
        g.owner? l.source = some a ∧ g.owner? l.sink = some b ∧ order.idxOf a < order.idxOf b
  /-- An error lists, each once, the nodes on a cycle or downstream of one. -/
  error : ∀ x, g.topologicalOrder = .error x → ∃ nodes, x = .cycleDetected nodes ∧ nodes.Nodup ∧
    ∀ id, id ∈ nodes ↔ g.Blocked id

/-- **Every graph whose links join its nodes is put in order, or exactly what its cycles hold up is
reported.** -/
theorem Anchored.ordered (hg : g.Anchored) : g.Ordered := by
  obtain ⟨left, taken, takes, taking, keys, order⟩ := hg.exists_takes
  have ok_iff : (∃ order, g.topologicalOrder = .ok order) ↔ ∀ id, ¬ TransGen g.Feeds id id := by
    rw [← not_blocked_iff, ← taking.length_eq hg, order]
    split
    · next hl => exact ⟨fun _ => hl, fun _ => ⟨taken, rfl⟩⟩
    · next hl => exact ⟨nofun, fun h => absurd h hl⟩
  constructor
  case loop =>
    exact ⟨left, taken, fun o => ⟨fun h => h.unique takes, fun h => h ▸ takes⟩, order⟩
  case ok_iff => exact ok_iff
  case cycle_iff =>
    rw [← not_forall_not, ← ok_iff, hasCycle]
    cases g.topologicalOrder <;> simp
  case ok =>
    intro order' ho
    rw [order] at ho
    split at ho
    · next hl =>
      obtain rfl := Except.ok.inj ho
      have sorts := taking.sorts hg ((taking.length_eq hg).1 hl)
      refine ⟨sorts.nodup, sorts.mem, fun l hm => ?_⟩
      obtain ⟨a, ha, b, hb, hs, ht⟩ := hg l hm
      have hb := (sorts.mem b).2 hb
      exact ⟨a, (sorts.mem a).2 ha, b, hb, hs, ht, sorts.idxOf_lt hb ⟨l, hm, hs, ht⟩⟩
    · cases ho
  case error =>
    intro x hx
    rw [order] at hx
    split at hx
    · cases hx
    · have hx := (Except.error.inj hx).symm
      exact ⟨_, hx, nodup_withDegree .., fun id => taking.mem_left hg keys⟩

/-- Two nodes feed each other, one of them twice a third node; a fourth feeds the first. -/
def tangled : Graph :=
  let node k : Node := .new Builtin.math k
  let source k : PortId := ⟨.mint k 3⟩
  let links : List Link := [⟨source 0, ⟨.mint 1 1⟩⟩, ⟨source 1, ⟨.mint 0 1⟩⟩,
    ⟨source 1, ⟨.mint 2 1⟩⟩, ⟨source 1, ⟨.mint 2 2⟩⟩, ⟨source 3, ⟨.mint 0 2⟩⟩]
  { nodes := .ofList ((List.range 4).map fun k => ((node k).id, node k))
    owners := .ofList ((List.range 4).flatMap fun k => (node k).portIds.map (·, (node k).id))
    links := links
    incoming := .ofList (links.map fun l => (l.sink, l)) }

theorem ordered_tangled : tangled.Anchored ∧
    tangled.topologicalOrder = .error (.cycleDetected [⟨.mint 0 0⟩, ⟨.mint 1 0⟩, ⟨.mint 2 0⟩]) ∧
    ∀ id, id ∈ [⟨.mint 0 0⟩, ⟨.mint 1 0⟩, ⟨.mint 2 0⟩] ↔ tangled.Blocked id := by
  have hg : tangled.Anchored := of_decide_eq_true (by cbv)
  have hx : tangled.topologicalOrder =
    .error (.cycleDetected [⟨.mint 0 0⟩, ⟨.mint 1 0⟩, ⟨.mint 2 0⟩]) := by cbv
  obtain ⟨nodes, e, -, blocked⟩ := hg.ordered.error _ hx
  obtain rfl := GraphError.cycleDetected.inj e
  exact ⟨hg, hx, blocked⟩

end PixelFlow.Graph
