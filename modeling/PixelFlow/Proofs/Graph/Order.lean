import Mathlib.Order.WellFoundedSet
import PixelFlow.Graph.Order
import PixelFlow.Proofs.Graph.Sound

/-!
# The topological order

Nodes are taken until the queue is empty. Then those are left that a cycle holds up. A sound graph
has no cycle, so all its nodes are taken.

* `Graph.Anchored`: links join nodes that are there; nothing else is asked of the graph.
* `Graph.Blocked`: what lies on a cycle or downstream of one; the rest is well-founded.
* `Graph.waits`: how many nodes that feed a node have not been taken.
* `Graph.Taking`: what holds while nodes are taken; `Graph.Taking.step`, `Graph.Taking.run`.
* **`Graph.Taking.mem_taken`**: at the end the nodes are taken that are not blocked.
* **`Graph.Sound.topologicalOrder`**: a sound graph has an order, and it has each node once and
  after all nodes that feed it.
-/

namespace PixelFlow.Graph

open Relation

variable {g : Graph}

/-- Both ends of each link are ports of nodes of the graph. -/
def Anchored (g : Graph) : Prop :=
  ∀ l ∈ g.links, ∃ a ∈ g.nodeIds, ∃ b ∈ g.nodeIds,
    g.owner? l.source = some a ∧ g.owner? l.sink = some b

instance (g : Graph) : Decidable g.Anchored :=
  inferInstanceAs (Decidable (∀ l ∈ g.links, ∃ a ∈ g.nodeIds, ∃ b ∈ g.nodeIds,
    g.owner? l.source = some a ∧ g.owner? l.sink = some b))

/-- The node lies on a cycle or downstream of one. -/
def Blocked (g : Graph) (id : NodeId) : Prop :=
  ∃ c, TransGen g.Feeds c c ∧ ReflTransGen g.Feeds c id

/-! ## No infinite descent -/

theorem mem_nodeIds {id : NodeId} : id ∈ g.nodeIds ↔ ∃ n, g.node? id = some n := by
  rw [nodeIds, Table.mem_iff_isSome, Option.isSome_iff_exists]
  rfl

theorem Anchored.feeds_nodeIds (hg : g.Anchored) {a b : NodeId} (h : g.Feeds a b) :
    a ∈ g.nodeIds ∧ b ∈ g.nodeIds := by
  obtain ⟨l, hl, ha, hb⟩ := h
  obtain ⟨a', ha', b', hb', hs, ht⟩ := hg l hl
  obtain rfl := Option.some.inj (ha.symm.trans hs)
  obtain rfl := Option.some.inj (hb.symm.trans ht)
  exact ⟨ha', hb'⟩

theorem Sound.anchored (hg : g.Sound) : g.Anchored := fun l hl => by
  obtain ⟨p, q, hp, hq, -⟩ := hg.typed l hl
  have ha := hg.owner?_of_port? hp
  have hb := hg.owner?_of_port? hq
  have hs := mem_nodeIds.2 (hg.node?_owner ha)
  have ht := mem_nodeIds.2 (hg.node?_owner hb)
  exact ⟨p.node, hs, q.node, ht, ha, hb⟩

theorem Blocked.feeds {a b : NodeId} (h : g.Blocked a) (hf : g.Feeds a b) : g.Blocked b :=
  h.imp fun _ hc => ⟨hc.1, hc.2.tail hf⟩

theorem Blocked.mem_nodeIds (hg : g.Anchored) {id : NodeId} (h : g.Blocked id) :
    id ∈ g.nodeIds := by
  obtain ⟨c, hcc, hci⟩ := h
  obtain ⟨_, _, hf⟩ := TransGen.tail'_iff.1 (hcc.trans_left hci)
  exact (hg.feeds_nodeIds hf).2

/-- **Among the nodes that are not blocked feeding is well-founded.** -/
theorem wellFoundedOn_clear (g : Graph) :
    {id | id ∈ g.nodeIds ∧ ¬ g.Blocked id}.WellFoundedOn g.Feeds := by
  have hs : {id | id ∈ g.nodeIds ∧ ¬ g.Blocked id}.Finite :=
    (List.finite_toSet g.nodeIds).subset fun _ h => h.1
  have : Finite {id | id ∈ g.nodeIds ∧ ¬ g.Blocked id} := hs
  let above (a b : {id | id ∈ g.nodeIds ∧ ¬ g.Blocked id}) := TransGen g.Feeds a b
  have : IsTrans _ above := ⟨fun _ _ _ => TransGen.trans⟩
  have : Std.Irrefl above := ⟨fun a h => a.2.2 ⟨a, h, .refl⟩⟩
  exact Subrelation.wf (fun h => .single h) (Finite.wellFounded_of_trans_of_irrefl above)

theorem Sound.not_blocked (hg : g.Sound) (id : NodeId) : ¬ g.Blocked id :=
  fun ⟨c, hc, _⟩ => hg.acyclic c hc

/-- **In a sound graph feeding is well-founded.** -/
theorem Sound.wellFounded (hg : g.Sound) : WellFounded g.Feeds := by
  refine Subrelation.wf ?_ (Set.wellFoundedOn_iff.1 g.wellFoundedOn_clear)
  intro a b h
  obtain ⟨ha, hb⟩ := hg.anchored.feeds_nodeIds h
  exact ⟨h, ⟨ha, hg.not_blocked a⟩, hb, hg.not_blocked b⟩

/-! ## Counts -/

/-- The number of nodes that feed a node and have not been taken. -/
def waits (g : Graph) (taken : List NodeId) (b : NodeId) : Nat :=
  g.nodeIds.countP fun a => b ∈ g.successors a ∧ a ∉ taken

theorem Anchored.waits_eq_zero (hg : g.Anchored) {taken : List NodeId} {b : NodeId} :
    g.waits taken b = 0 ↔ ∀ a, g.Feeds a b → a ∈ taken := by
  rw [waits, List.countP_eq_zero]
  simp only [decide_eq_true_eq, not_and, not_not, mem_successors]
  exact ⟨fun h a ha => h a (hg.feeds_nodeIds ha).1 ha, fun h a _ ha => h a ha⟩

theorem waits_snoc (g : Graph) {taken : List NodeId} {id : NodeId} (hi : id ∈ g.nodeIds)
    (ht : id ∉ taken) (b : NodeId) : g.waits (taken ++ [id]) b =
      if b ∈ g.successors id then g.waits taken b - 1 else g.waits taken b := by
  have key : g.waits (taken ++ [id]) b =
      (g.nodeIds.erase id).countP fun a => b ∈ g.successors a ∧ a ∉ taken := by
    rw [waits, (List.perm_cons_erase hi).countP_eq, List.countP_cons_of_neg (by simp)]
    refine List.countP_congr fun a ha => ?_
    have : a ≠ id := ((Table.nodup_keys g.nodes).mem_erase_iff.1 ha).1
    simp [this]
  rw [key, List.countP_erase, ← waits]
  simp [hi, ht]
  split <;> rfl

theorem get?_foldl_modify (l : List NodeId) (t : Table NodeId Nat) (b : NodeId) :
    (l.foldl (fun t id => t.modify id (· + 1)) t).get? b = (t.get? b).map (· + l.count b) := by
  induction l generalizing t with
  | nil => simp
  | cons a l ih =>
    rw [List.foldl_cons, ih, Table.get?_modify, List.count_cons]
    by_cases h : a = b
    · subst h
      cases t.get? a
      · simp
      · simp [Nat.add_assoc, Nat.add_comm 1]
    · simp [h]

theorem count_flatMap_successors (g : Graph) (l : List NodeId) (b : NodeId) :
    (l.flatMap g.successors).count b = l.countP fun a => b ∈ g.successors a := by
  induction l with
  | nil => rfl
  | cons a l ih =>
    rw [List.flatMap_cons, List.count_append, ih, (nodup_successors g a).count,
      List.countP_cons, Nat.add_comm]
    simp

/-- At first each node waits for all nodes that feed it. -/
theorem get?_inDegrees (g : Graph) {b : NodeId} (hb : b ∈ g.nodeIds) :
    g.inDegrees.get? b = some (g.waits [] b) := by
  obtain ⟨n, hn⟩ := mem_nodeIds.1 hb
  rw [inDegrees, get?_foldl_modify, Table.get?_map, show g.nodes.get? b = some n from hn,
    count_flatMap_successors]
  simp [waits]

theorem keys_inDegrees (g : Graph) : g.inDegrees.keys = g.nodeIds := by
  have h : ∀ (l : List NodeId) (t : Table NodeId Nat),
      (l.foldl (fun t id => t.modify id (· + 1)) t).keys = t.keys := by
    intro l
    induction l with
    | nil => exact fun _ => rfl
    | cons a l ih => exact fun t => (ih _).trans (Table.keys_modify ..)
  rw [inDegrees, h, Table.keys_map]
  rfl

/-! ## Taking nodes -/

/-- Every node comes after all nodes that feed it. -/
def Closed (g : Graph) (l : List NodeId) : Prop :=
  ∀ pre b post, l = pre ++ b :: post → ∀ a, g.Feeds a b → a ∈ pre

theorem Closed.snoc {l : List NodeId} {b : NodeId} (h : g.Closed l)
    (hb : ∀ a, g.Feeds a b → a ∈ l) : g.Closed (l ++ [b]) := by
  intro pre c post e
  rcases List.eq_nil_or_concat post with rfl | ⟨post, x, rfl⟩
  · obtain ⟨rfl, hc⟩ := List.append_inj' e rfl
    obtain rfl := (List.cons.inj hc).1
    exact hb
  · rw [List.concat_eq_append, ← List.cons_append, ← List.append_assoc] at e
    obtain ⟨rfl, _⟩ := List.append_inj' e rfl
    exact h pre c post rfl

/-- A prefix has all that its nodes come from. -/
theorem Closed.mem_prefix {pre post : List NodeId} (h : g.Closed (pre ++ post)) {a b : NodeId}
    (hab : ReflTransGen g.Feeds a b) (hb : b ∈ pre) : a ∈ pre := by
  induction hab using ReflTransGen.head_induction_on with
  | refl => exact hb
  | head hf _ ih =>
    obtain ⟨x, y, rfl⟩ := List.append_of_mem ih
    exact List.mem_append_left _ (h x _ (y ++ post) (by simp) _ hf)

theorem notMem_before {pre post : List NodeId} {a : NodeId} (h : (pre ++ a :: post).Nodup) :
    a ∉ pre := fun ha =>
  (List.nodup_cons.1 (List.nodup_middle.1 h)).1 (List.mem_append_left _ ha)

/-- What holds while nodes are taken: a node is taken or queued as soon as it waits for none. -/
structure Taking (g : Graph) (degrees : Table NodeId Nat) (queue taken : List NodeId) : Prop where
  nodup : (taken ++ queue).Nodup
  degree : ∀ b ∈ g.nodeIds, degrees.get? b = some (g.waits taken b)
  free : ∀ b, b ∈ taken ++ queue ↔ b ∈ g.nodeIds ∧ g.waits taken b = 0
  closed : g.Closed taken

theorem mem_withDegree {t : Table NodeId Nat} {zero : Bool} {id : NodeId} :
    id ∈ withDegree t zero ↔ ∃ d, t.get? id = some d ∧ (d == 0) = zero := by
  simp only [withDegree, List.mem_map, List.mem_filter, beq_iff_eq]
  constructor
  · rintro ⟨⟨id, d⟩, ⟨he, hd⟩, rfl⟩
    exact ⟨d, (Table.get?_eq_some_iff ..).2 he, hd⟩
  · rintro ⟨d, hg, hd⟩
    exact ⟨(id, d), ⟨(Table.get?_eq_some_iff ..).1 hg, hd⟩, rfl⟩

theorem nodup_withDegree (t : Table NodeId Nat) (zero : Bool) : (withDegree t zero).Nodup :=
  (Table.nodup_keys t).sublist (List.filter_sublist.map _)

theorem taking_start (g : Graph) : g.Taking g.inDegrees (withDegree g.inDegrees true) [] where
  nodup := nodup_withDegree ..
  degree b hb := get?_inDegrees g hb
  free b := by
    rw [List.nil_append, mem_withDegree]
    constructor
    · rintro ⟨d, hg, hd⟩
      have hb : b ∈ g.nodeIds := keys_inDegrees g ▸ Table.mem_keys_of_get? hg
      rw [get?_inDegrees g hb] at hg
      exact ⟨hb, Option.some.inj hg ▸ beq_iff_eq.1 hd⟩
    · rintro ⟨hb, hw⟩
      exact ⟨_, get?_inDegrees g hb, beq_iff_eq.2 hw⟩
  closed pre b post h := by simp at h

/-- Only the count of the node itself changes. -/
theorem get?_release (d : Table NodeId Nat) (q : List NodeId) (a b : NodeId) :
    (release d q a).1.get? b = if a = b then (d.get? b).map (· - 1) else d.get? b := by
  rw [release]
  split
  · next h =>
    split
    · next e =>
      subst e
      rw [h]
      rfl
    · rfl
  · next k h =>
    rw [Table.get?_insert]
    split
    · next e =>
      subst e
      rw [h]
      rfl
    · rfl

theorem foldl_release {l : List NodeId} (hl : l.Nodup) (d : Table NodeId Nat) (q : List NodeId) :
    (∀ b, (l.foldl (fun (d, q) s => release d q s) (d, q)).1.get? b =
      if b ∈ l then (d.get? b).map (· - 1) else d.get? b) ∧
    (l.foldl (fun (d, q) s => release d q s) (d, q)).2 =
      q ++ l.filter fun s => (d.get? s).any (· ≤ 1) := by
  induction l generalizing d q with
  | nil => simp
  | cons a l ih =>
    obtain ⟨ha, hl⟩ := List.nodup_cons.1 hl
    rw [List.foldl_cons]
    show (∀ b, (l.foldl _ (release d q a)).1.get? b = _) ∧ (l.foldl _ (release d q a)).2 = _
    have other : ∀ b, b ≠ a → (release d q a).1.get? b = d.get? b := fun b hb => by
      rw [get?_release, if_neg hb.symm]
    have self : (release d q a).1.get? a = (d.get? a).map (· - 1) := by
      rw [get?_release, if_pos rfl]
    have queue : (release d q a).2 = q ++ [a].filter fun s => (d.get? s).any (· ≤ 1) := by
      rw [release]
      split
      · next h => simp [h]
      · next k h =>
        have : k - 1 = 0 ↔ k ≤ 1 := by omega
        simp only [this, List.filter_cons, List.filter_nil, h, Option.any_some, decide_eq_true_eq]
        split
        · rfl
        · rw [List.append_nil]
    obtain ⟨hd, hq⟩ := ih hl (release d q a).1 (release d q a).2
    refine ⟨fun b => ?_, ?_⟩
    · rw [hd]
      by_cases hb : b = a
      · subst hb
        rw [if_neg ha, if_pos (by simp), self]
      · simp only [other b hb, List.mem_cons, hb, false_or]
    · have : l.filter (fun s => ((release d q a).1.get? s).any (· ≤ 1)) =
          l.filter fun s => (d.get? s).any (· ≤ 1) :=
        List.filter_congr fun s hs => by rw [other s fun e => ha (e ▸ hs)]
      rw [hq, queue, this, List.append_assoc, ← List.filter_append, List.singleton_append]

/-- **Taking one node from the queue keeps the invariant.** -/
theorem Taking.step (hg : g.Anchored) {degrees : Table NodeId Nat} {id : NodeId}
    {queue taken : List NodeId} (h : g.Taking degrees (id :: queue) taken) :
    let r := (g.successors id).foldl (fun (d, q) s => release d q s) (degrees, queue)
    g.Taking r.1 r.2 (taken ++ [id]) := by
  obtain ⟨hd, hq⟩ := foldl_release (nodup_successors g id) degrees queue
  obtain ⟨hi, hw⟩ := (h.free id).1 (by simp)
  have ht := notMem_before h.nodup
  -- A successor of the node has waited for it, so it was neither taken nor queued.
  have pos : ∀ {b}, b ∈ g.successors id → 0 < g.waits taken b := fun {b} hb => by
    refine Nat.pos_of_ne_zero fun hz => ht ?_
    exact hg.waits_eq_zero.1 hz id (mem_successors.1 hb)
  have mem : ∀ {b}, b ∈ g.successors id → b ∈ g.nodeIds := fun hb =>
    (hg.feeds_nodeIds (mem_successors.1 hb)).2
  have new : ∀ b, b ∈ (g.successors id).filter (fun s => (degrees.get? s).any (· ≤ 1)) ↔
      b ∈ g.successors id ∧ g.waits taken b = 1 := fun b => by
    rw [List.mem_filter]
    refine and_congr_right fun hb => ?_
    have := pos hb
    rw [h.degree b (mem hb), Option.any_some, decide_eq_true_eq]
    omega
  have split : taken ++ [id] ++ (queue ++
      (g.successors id).filter fun s => (degrees.get? s).any (· ≤ 1)) =
      taken ++ id :: queue ++ (g.successors id).filter fun s => (degrees.get? s).any (· ≤ 1) := by
    simp
  refine ⟨?_, fun b hb => ?_, fun b => ?_, h.closed.snoc (hg.waits_eq_zero.1 hw)⟩
  · rw [hq, split]
    refine List.nodup_append.2 ⟨h.nodup, (nodup_successors g id).filter _, fun a ha b hb e => ?_⟩
    subst e
    have := (h.free a).1 ha
    have := (new a).1 hb
    omega
  · rw [hd, waits_snoc g hi ht, h.degree b hb]
    split <;> rfl
  · rw [hq, split, List.mem_append, h.free, new, waits_snoc g hi ht]
    by_cases hb : b ∈ g.successors id
    · have := pos hb
      simp only [hb, mem hb, true_and, if_true]
      omega
    · simp [hb]

/-! ## The order -/

/-- The list has each node of the graph once and after all nodes that feed it. -/
structure Sorts (g : Graph) (order : List NodeId) : Prop where
  nodup : order.Nodup
  mem : ∀ id, id ∈ order ↔ id ∈ g.nodeIds
  closed : g.Closed order

theorem Sorts.length {order : List NodeId} (h : g.Sorts order) : order.length = g.nodes.size := by
  rw [← Table.length_keys]
  exact ((List.perm_ext_iff_of_nodup h.nodup (Table.nodup_keys g.nodes)).2 h.mem).length_eq

/-- When as many nodes have been taken as there are, none is queued: no node is queued twice. -/
theorem Taking.queue_nil {degrees : Table NodeId Nat} {queue taken : List NodeId}
    (h : g.Taking degrees queue taken) (hf : taken.length = g.nodes.size) : queue = [] := by
  have sub : (taken ++ queue).Subperm g.nodeIds :=
    List.subperm_of_subset h.nodup fun b hb => ((h.free b).1 hb).1
  have := sub.length_le
  rw [List.length_append, nodeIds, Table.length_keys] at this
  exact List.eq_nil_of_length_eq_zero (by omega)

/-- **The queue runs empty**, and fuel for each node once is enough. -/
theorem Taking.run (hg : g.Anchored) {fuel : Nat} {degrees : Table NodeId Nat}
    {queue taken : List NodeId} (h : g.Taking degrees queue taken)
    (hf : fuel + taken.length = g.nodes.size) :
    let r := g.takeReady fuel degrees queue taken
    g.Taking r.1 [] r.2 := by
  induction fuel generalizing degrees queue taken with
  | zero =>
    obtain rfl := h.queue_nil (by omega)
    exact h
  | succ fuel ih =>
    cases queue with
    | nil => exact h
    | cons id queue =>
      refine ih (h.step hg) ?_
      rw [List.length_append, List.length_singleton]
      omega

/-- **When the queue is empty, the nodes have been taken that are not blocked.** -/
theorem Taking.mem_taken (hg : g.Anchored) {degrees : Table NodeId Nat} {taken : List NodeId}
    (h : g.Taking degrees [] taken) (b : NodeId) :
    b ∈ taken ↔ b ∈ g.nodeIds ∧ ¬ g.Blocked b := by
  have free := h.free
  have nodup := h.nodup
  rw [List.append_nil] at free nodup
  constructor
  · refine fun hb => ⟨((free b).1 hb).1, ?_⟩
    rintro ⟨c, hcc, hcb⟩
    have closed : g.Closed (taken ++ []) := by simpa using h.closed
    have hc : c ∈ taken := closed.mem_prefix hcb hb
    -- What feeds a node of a cycle on that cycle would have been taken before it and after it.
    obtain ⟨pre, post, rfl⟩ := List.append_of_mem hc
    obtain ⟨d, hcd, hdc⟩ := TransGen.tail'_iff.1 hcc
    exact notMem_before nodup (h.closed.mem_prefix hcd (h.closed pre c post rfl d hdc))
  · intro hb
    refine g.wellFoundedOn_clear.induction hb fun b hb ih => ?_
    refine (free b).2 ⟨hb.1, hg.waits_eq_zero.2 fun a ha => ?_⟩
    exact ih a ⟨(hg.feeds_nodeIds ha).1, fun h => hb.2 (h.feeds ha)⟩ ha

/-- When the queue is empty and no node is blocked, the taken nodes are in order. -/
theorem Taking.sorts (hg : g.Anchored) (hb : ∀ id, ¬ g.Blocked id) {degrees : Table NodeId Nat}
    {taken : List NodeId} (h : g.Taking degrees [] taken) : g.Sorts taken where
  nodup := by simpa using h.nodup
  mem id := by rw [h.mem_taken hg, and_iff_left (hb id)]
  closed := h.closed

/-- **A sound graph has a topological order.** -/
theorem Sound.topologicalOrder (hg : g.Sound) :
    ∃ order, g.topologicalOrder = .ok order ∧ g.Sorts order := by
  have h : g.Sorts (g.takeReady g.nodes.size _ _ _).2 :=
    ((taking_start g).run hg.anchored (by simp)).sorts hg.anchored hg.not_blocked
  refine ⟨_, ?_, h⟩
  rw [Graph.topologicalOrder]
  exact if_pos h.length

end PixelFlow.Graph
