import PixelFlow.Proofs.Engine.Turn
import PixelFlow.Proofs.Graph.Order

/-!
# One pass is enough

On a sound graph the scheduler visits the nodes in a topological order. A visited node is not dirty
any more, or one of its ancestors has work left; since later visits only touch later nodes, this
stays so, and after one pass over the graph no node is ready.

* `Graph.Ready`, `Graph.Quiet`: a node may be dispatched; no node may.
* **`Wave.schedule_eq`**: the scheduler is one pass in a topological order.
* **`Wave.schedule_induction`**: what every dispatch of a ready node keeps, the scheduler keeps.
* **`Wave.quiet_schedule`**: afterwards no node is ready.
-/

namespace PixelFlow

open Relation

/-- The node is dirty and no ancestor of it has work left. -/
def Graph.Ready (g : Graph) (id : NodeId) : Prop :=
  (∃ n, g.node? id = some n ∧ n.state = .dirty) ∧
    ∀ a n, TransGen g.Feeds a id → g.node? a = some n → n.state.isPending = false

theorem Graph.Ready.dirty {g : Graph} {id : NodeId} {n : Node} (h : g.Ready id)
    (hn : g.node? id = some n) : n.state = .dirty := by
  obtain ⟨⟨m, hm, hs⟩, _⟩ := h
  obtain rfl := Option.some.inj (hn.symm.trans hm)
  exact hs

/-- No node is ready. -/
def Graph.Quiet (g : Graph) : Prop := ∀ id, ¬ g.Ready id

namespace Wave

variable {w w' : Wave} {id : NodeId} {n : Node}

theorem isReady_iff : w.isReady id = true ↔ w.engine.graph.Ready id := by
  rw [isReady, Bool.and_eq_true, Bool.not_eq_true', ← Bool.not_eq_true,
    Graph.hasPendingAncestor_iff, Option.any_eq_true]
  refine and_congr ?_ ⟨fun h a n ha hn => ?_, fun h ⟨a, n, ha, hn, hp⟩ => ?_⟩
  · simp only [beq_iff_eq]
  · by_contra hp
    exact h ⟨a, n, ha, hn, by simpa using hp⟩
  · rw [h a n ha hn] at hp
    cases hp

/-! ## What a dispatch does to the graph -/

/-- A dispatch is a turn after which the node is not dirty. -/
theorem Dispatched.turns (h : Dispatched w id n w') : ∃ f spreads,
    w'.engine.graph = w.engine.graph.turn id f spreads ∧ (∀ m, (f m).bare = m.bare) ∧
      ∀ m, (f m).state ≠ .dirty := by
  cases h with
  | waits => exact ⟨(·.markWaiting), false, rfl, fun _ => rfl, fun _ => NodeState.noConfusion⟩
  | @refused _ e =>
    exact ⟨(·.store (.error e)), false, rfl, fun m => m.bare_store _, fun m => m.not_dirty_store _⟩
  | @inline _ o =>
    exact ⟨(·.beginCompute.store o), o.succeeds, rfl, fun m => m.beginCompute.bare_store _,
      fun m => m.beginCompute.not_dirty_store _⟩
  | @remembered _ _ o =>
    exact ⟨(·.store (.ok o)), true, rfl, fun m => m.bare_store _, fun m => m.not_dirty_store _⟩
  | submitted => exact ⟨(·.beginCompute), false, rfl, fun _ => rfl, fun _ => NodeState.noConfusion⟩

theorem Dispatched.bare (h : Dispatched w id n w') :
    w'.engine.graph.bare = w.engine.graph.bare := by
  obtain ⟨f, spreads, e, hf, _⟩ := h.turns
  rw [e, Graph.bare_turn _ _ hf]

/-- The other nodes stay as they are, or become dirty because the node feeds them. -/
theorem Dispatched.node?_other (hg : w.engine.graph.Sound) (h : Dispatched w id n w') {j : NodeId}
    (hj : id ≠ j) : w'.engine.graph.node? j = w.engine.graph.node? j ∨
      w.engine.graph.Feeds id j ∧
        w'.engine.graph.node? j = (w.engine.graph.node? j).map (·.markDirty) := by
  obtain ⟨f, spreads, e, _, _⟩ := h.turns
  rw [e, Graph.node?_turn hg, if_neg hj]
  split
  · next hs => exact .inr ⟨hs.2, rfl⟩
  · exact .inl rfl

theorem Dispatched.not_dirty (hg : w.engine.graph.Sound) (h : Dispatched w id n w') {m : Node}
    (hm : w'.engine.graph.node? id = some m) : m.state ≠ .dirty := by
  obtain ⟨f, spreads, e, _, hf⟩ := h.turns
  rw [e, Graph.node?_turn hg, if_pos rfl] at hm
  obtain ⟨m', _, rfl⟩ := Option.map_eq_some_iff.1 hm
  exact hf m'

/-- What comes before a node in a topological order stays as it is. -/
theorem Dispatched.node?_before (hg : w.engine.graph.Sound) (h : Dispatched w id n w')
    {pre post : List NodeId} (ho : w.engine.graph.Sorts (pre ++ id :: post)) {j : NodeId}
    (hj : j ∈ pre) : w'.engine.graph.node? j = w.engine.graph.node? j := by
  have hd := ho.nodup
  have hne : id ≠ j := by
    rintro rfl
    exact Graph.notMem_before hd hj
  refine (h.node?_other hg hne).resolve_right fun ⟨hf, _⟩ => ?_
  exact Graph.notMem_before hd (ho.closed.mem_prefix (.single hf) hj)

/-! ## One visit after the other -/

/-- Dispatch a node if it is ready. -/
def visit (w : Wave) (id : NodeId) : Wave := if w.isReady id then w.dispatch id else w

theorem pass_fst (w : Wave) (order : List NodeId) : (w.pass order).1 = order.foldl visit w := by
  have h : ∀ (l : List NodeId) (w : Wave) (b : Bool),
      (l.foldl (fun x id =>
        if x.1.isReady id then (x.1.dispatch id, true) else (x.1, x.2)) (w, b)).1 =
      l.foldl visit w := by
    intro l
    induction l with
    | nil => exact fun _ _ => rfl
    | cons a l ih =>
      intro w b
      rw [List.foldl_cons, List.foldl_cons, visit]
      dsimp only
      split
      · exact ih _ _
      · exact ih _ _
  exact h order w false

/-- A pass over a quiet graph does nothing. -/
theorem pass_of_quiet (hq : w.engine.graph.Quiet) (order : List NodeId) :
    w.pass order = (w, false) := by
  have h : ∀ (l : List NodeId) (b : Bool), l.foldl (fun x id =>
      if x.1.isReady id then (x.1.dispatch id, true) else (x.1, x.2)) (w, b) = (w, b) := by
    intro l b
    induction l with
    | nil => rfl
    | cons a l ih =>
      rw [List.foldl_cons]
      dsimp only
      rw [if_neg fun hr => hq a (isReady_iff.1 hr)]
      exact ih
  exact h order false

theorem visit_spec (hg : w.engine.graph.Sound) (id : NodeId) : w.visit id = w ∧
    ¬ w.engine.graph.Ready id ∨ ∃ n, w.engine.graph.Ready id ∧
      w.engine.graph.node? id = some n ∧ Dispatched w id n (w.visit id) := by
  unfold visit
  split
  · next hr =>
    have hr := isReady_iff.1 hr
    obtain ⟨n, hn, _⟩ := hr.1
    exact .inr ⟨n, hr, hn, dispatch_spec hg hn⟩
  · next hr => exact .inl ⟨rfl, fun h => hr (isReady_iff.2 h)⟩

theorem bare_visit (hg : w.engine.graph.Sound) (id : NodeId) :
    (w.visit id).engine.graph.bare = w.engine.graph.bare := by
  rcases visit_spec hg id with ⟨e, _⟩ | ⟨n, _, _, h⟩
  · rw [e]
  · exact h.bare

theorem visits_induction {P : Wave → Prop} (hg : w.engine.graph.Sound) (h : P w)
    (step : ∀ {v v' : Wave} {id : NodeId} {n : Node}, v.engine.graph.bare = w.engine.graph.bare →
      v.engine.graph.Sound → v.engine.graph.Ready id → v.engine.graph.node? id = some n →
      Dispatched v id n v' → P v → P v') (order : List NodeId) : P (order.foldl visit w) := by
  have key : ∀ (l : List NodeId) (v : Wave), v.engine.graph.bare = w.engine.graph.bare → P v →
      P (l.foldl visit v) := by
    intro l
    induction l with
    | nil => exact fun _ _ h => h
    | cons a l ih =>
      intro v hv h
      have hs := hg.of_bare hv
      refine ih (v.visit a) ((bare_visit hs a).trans hv) ?_
      rcases visit_spec hs a with ⟨e, _⟩ | ⟨n, hr, hn, hd⟩
      · rwa [e]
      · exact step hv hs hr hn hd h
  exact key order w rfl h

theorem bare_visits (hg : w.engine.graph.Sound) (order : List NodeId) :
    (order.foldl visit w).engine.graph.bare = w.engine.graph.bare :=
  visits_induction (P := fun v => v.engine.graph.bare = w.engine.graph.bare) hg rfl
    (fun _ _ _ _ hd h => hd.bare.trans h) order

theorem sorts_of_bare {g h : Graph} (e : h.bare = g.bare) {order : List NodeId}
    (ho : g.Sorts order) : h.Sorts order where
  nodup := ho.nodup
  mem id := by rw [ho.mem, Graph.nodeIds_of_bare e]
  closed pre b post hl a ha := ho.closed pre b post hl a (by rwa [Graph.feeds_of_bare e] at ha)

/-- **After a visit to each node in a topological order no node is ready.** -/
theorem quiet_visits (hg : w.engine.graph.Sound) {order : List NodeId}
    (ho : w.engine.graph.Sorts order) : (order.foldl visit w).engine.graph.Quiet := by
  -- The invariant of the pass: what has been visited is not ready.
  have key : ∀ (post pre : List NodeId) (v : Wave), order = pre ++ post →
      v.engine.graph.bare = w.engine.graph.bare → (∀ j ∈ pre, ¬ v.engine.graph.Ready j) →
      ∀ j ∈ order, ¬ (post.foldl visit v).engine.graph.Ready j := by
    intro post
    induction post with
    | nil =>
      intro pre v e _ h
      rw [e, List.append_nil]
      exact h
    | cons a post ih =>
      intro pre v e hv h
      have hs := hg.of_bare hv
      refine ih (pre ++ [a]) (v.visit a) (by simp [e]) ((bare_visit hs a).trans hv) fun j hj => ?_
      rcases visit_spec hs a with ⟨ev, hr⟩ | ⟨n, hr, hn, hd⟩
      · rw [ev]
        rcases List.mem_append.1 hj with hj | hj
        · exact h j hj
        · rwa [List.mem_singleton.1 hj]
      · have hso : v.engine.graph.Sorts (pre ++ a :: post) := e ▸ sorts_of_bare hv ho
        rcases List.mem_append.1 hj with hj | hj
        · -- An earlier node and its ancestors are as they were.
          rintro ⟨⟨m, hm, hmd⟩, hp⟩
          rw [hd.node?_before hs hso hj] at hm
          refine h j hj ⟨⟨m, hm, hmd⟩, fun b n' hb hn' => hp b n' ?_ ?_⟩
          · rwa [Graph.feeds_of_bare hd.bare]
          · rwa [hd.node?_before hs hso (hso.closed.mem_prefix hb.to_reflTransGen hj)]
        · obtain rfl := List.mem_singleton.1 hj
          rintro ⟨⟨m, hm, hd'⟩, _⟩
          exact hd.not_dirty hs hm hd'
  intro id hr
  have hid : id ∈ order := by
    obtain ⟨⟨n, hn, _⟩, _⟩ := hr
    rw [ho.mem, ← Graph.nodeIds_of_bare (bare_visits hg order)]
    exact Graph.mem_nodeIds.2 ⟨n, hn⟩
  exact key order [] w rfl rfl (fun _ h => nomatch h) id hid hr

/-! ## The scheduler -/

/-- **The scheduler visits each node once, in a topological order.** -/
theorem schedule_eq (hg : w.engine.graph.Sound) :
    ∃ order, w.engine.graph.Sorts order ∧ w.schedule = order.foldl visit w := by
  obtain ⟨order, he, ho⟩ := hg.topologicalOrder
  refine ⟨order, ho, ?_⟩
  rw [schedule, passes, he]
  dsimp only
  rw [pass_fst]
  have hs := hg.of_bare (bare_visits hg order)
  obtain ⟨order', he', _⟩ := hs.topologicalOrder
  split
  · cases w.engine.graph.nodes.size with
    | zero => rfl
    | succ fuel =>
      rw [passes, he']
      dsimp only
      rw [pass_of_quiet (quiet_visits hg ho)]
      rfl
  · rfl

theorem quiet_schedule (hg : w.engine.graph.Sound) : w.schedule.engine.graph.Quiet := by
  obtain ⟨order, ho, e⟩ := schedule_eq hg
  rw [e]
  exact quiet_visits hg ho

theorem bare_schedule (hg : w.engine.graph.Sound) :
    w.schedule.engine.graph.bare = w.engine.graph.bare := by
  obtain ⟨order, _, e⟩ := schedule_eq hg
  rw [e]
  exact bare_visits hg order

/-- **What holds at first and is kept by every dispatch of a ready node holds at the end.** -/
theorem schedule_induction {P : Wave → Prop} (hg : w.engine.graph.Sound) (h : P w)
    (step : ∀ {v v' : Wave} {id : NodeId} {n : Node}, v.engine.graph.bare = w.engine.graph.bare →
      v.engine.graph.Sound → v.engine.graph.Ready id → v.engine.graph.node? id = some n →
      Dispatched v id n v' → P v → P v') : P w.schedule := by
  obtain ⟨order, _, e⟩ := schedule_eq hg
  rw [e]
  exact visits_induction hg h step order

/-- On a quiet graph the scheduler does nothing. -/
theorem schedule_of_quiet (hg : w.engine.graph.Sound) (hq : w.engine.graph.Quiet) :
    w.schedule = w := by
  obtain ⟨order, _, e⟩ := schedule_eq hg
  rw [e, ← pass_fst, pass_of_quiet hq]

end Wave

end PixelFlow
