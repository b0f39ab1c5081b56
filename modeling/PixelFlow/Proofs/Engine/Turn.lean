import PixelFlow.Engine.Wave
import PixelFlow.Proofs.Graph.Change

/-!
# Turns

Whatever happens to a node in a wave is a turn: the node itself changes in its state, outputs,
generation and error, and after a success all nodes that it feeds become dirty. Dispatches and
deliveries are described by the turns that they take; nothing later opens their definitions.

* `Graph.turn`, `Wave.turn`: a turn; **`Graph.node?_turn`**: every node after it.
* `Wave.apply_eq`: an outcome is stored in one turn.
* **`Wave.dispatch_cases`**: the five ways in which a dispatch ends.
* **`Wave.accept_eq`**, `Wave.accept_stale`: what a delivery does.
-/

namespace PixelFlow

/-- Change a node; if the change spreads, the nodes that it feeds become dirty. -/
def Graph.turn (g : Graph) (id : NodeId) (f : Node → Node) (spreads : Bool) : Graph :=
  if spreads then (g.successors id).foldl Graph.markDirty (g.modifyNode id f) else g.modifyNode id f

/-- The node with the outcome of a compute. -/
def Node.store (n : Node) : Outcome → Node
  | .ok outputs => n.storeOutputs (Wave.outputsByPort n outputs)
  | .error e => n.storeError e

/-- Whether an outcome is a success. -/
def Outcome.succeeds : Outcome → Bool
  | .ok _ => true
  | .error _ => false

/-- What is recorded when an outcome is stored on a node. -/
def Outcome.records (n : Node) : Outcome → List Record
  | .ok outputs => [.event (.valueChanged n.id (Wave.outputsByPort n outputs))]
  | .error e => [.note (.failed e), .event (.failed n.id e)]

namespace Graph

variable {g : Graph}

theorem node?_foldl_markDirty (l : List NodeId) (g : Graph) (j : NodeId) :
    (l.foldl Graph.markDirty g).node? j =
      if j ∈ l then (g.node? j).map (·.markDirty) else g.node? j := by
  induction l generalizing g with
  | nil => simp
  | cons a l ih =>
    rw [List.foldl_cons, ih, Graph.markDirty, node?_modifyNode]
    by_cases h : a = j
    · subst h
      cases g.node? a <;> simp [Node.markDirty]
    · simp [h, Ne.symm h]

theorem bare_foldl_markDirty (l : List NodeId) (g : Graph) :
    (l.foldl Graph.markDirty g).bare = g.bare := by
  induction l generalizing g with
  | nil => rfl
  | cons a l ih =>
    rw [List.foldl_cons, ih]
    exact bare_modifyNode g a fun _ => rfl

/-- **A turn changes the node itself and those that it feeds.** -/
theorem node?_turn (hg : g.Sound) (id : NodeId) (f : Node → Node) (spreads : Bool) (j : NodeId) :
    (g.turn id f spreads).node? j =
      if id = j then (g.node? j).map f
      else if spreads ∧ g.Feeds id j then (g.node? j).map (·.markDirty)
      else g.node? j := by
  rw [turn]
  split
  · next h =>
    rw [node?_foldl_markDirty, node?_modifyNode]
    simp only [mem_successors]
    by_cases hj : id = j
    · subst hj
      rw [if_neg (hg.not_feeds_self id), if_pos rfl, if_pos rfl]
    · simp only [hj, if_false, h, true_and]
  · next h =>
    rw [node?_modifyNode, if_neg (c := spreads = true ∧ _) fun e => h e.1]

theorem bare_turn (g : Graph) (id : NodeId) {f : Node → Node} (hf : ∀ n, (f n).bare = n.bare)
    (spreads : Bool) : (g.turn id f spreads).bare = g.bare := by
  rw [turn]
  split
  · rw [bare_foldl_markDirty, bare_modifyNode g id hf]
  · exact bare_modifyNode g id hf

end Graph

theorem Node.bare_store (n : Node) (o : Outcome) : (n.store o).bare = n.bare := by
  cases o <;> rfl

theorem Node.generation_store (n : Node) (o : Outcome) :
    (n.store o).generation = n.generation := by
  cases o <;> rfl

theorem Node.not_computing_store (n : Node) (o : Outcome) (g : Nat) :
    (n.store o).state ≠ .computing g := by
  cases o <;> exact NodeState.noConfusion

theorem Node.not_dirty_store (n : Node) (o : Outcome) : (n.store o).state ≠ .dirty := by
  cases o <;> exact NodeState.noConfusion

/-- A failure keeps the outputs. -/
theorem Node.outputs_store {o : Outcome} (h : o.succeeds = false) (n : Node) :
    (n.store o).outputs = n.outputs := by
  cases o with
  | ok t => cases h
  | error x => rfl

namespace Wave

variable {w : Wave} {id : NodeId} {n : Node}

/-- A turn of a node, with what is recorded. -/
def turn (w : Wave) (id : NodeId) (f : Node → Node) (spreads : Bool) (about : List Record) : Wave :=
  { engine := { w.engine with graph := w.engine.graph.turn id f spreads }
    log := w.log ++ about ++
      if spreads then (w.engine.graph.successors id).map fun s => .event (.invalidated s) else [] }

/-- Count an outcome that is applied. -/
def tally (w : Wave) (o : Outcome) : Wave :=
  w.count fun s => { s with
    completed := s.completed + 1, failed := if o.succeeds then s.failed else s.failed + 1 }

/-! ## Outcomes -/

theorem foldl_invalidate (l : List NodeId) (w : Wave) (hl : ∀ s ∈ l, s ∈ w.engine.graph.nodeIds) :
    l.foldl invalidate w =
      { engine := { w.engine with graph := l.foldl Graph.markDirty w.engine.graph }
        log := w.log ++ l.map fun s => .event (.invalidated s) } := by
  induction l generalizing w with
  | nil => simp
  | cons a l ih =>
    have ha : w.engine.graph.hasNode a = true := (Table.contains_iff ..).2 (hl a (by simp))
    have hi : w.invalidate a = (w.modifyNode a (·.markDirty)).emit (.invalidated a) := by
      rw [invalidate, if_pos ha]
    have hs : ∀ s ∈ l, s ∈ (w.invalidate a).engine.graph.nodeIds := fun s hs => by
      rw [hi]
      show s ∈ (w.engine.graph.modifyNode a _).nodes.keys
      rw [Graph.modifyNode, Table.keys_modify]
      exact hl s (by simp [hs])
    rw [List.foldl_cons, ih _ hs, hi]
    simp [modifyNode, emit, Graph.markDirty]

theorem apply_eq (hg : w.engine.graph.Sound) (hn : w.engine.graph.node? id = some n)
    (o : Outcome) : w.apply id o =
      (w.tally o).turn id (·.store o) o.succeeds (Outcome.records n o) := by
  obtain rfl := hg.id_eq hn
  rw [apply, hn]
  cases o with
  | error e =>
    simp [tally, turn, count, note, emit, modifyNode, Outcome.succeeds, Outcome.records, Graph.turn,
      Node.store]
  | ok outputs =>
    have hs : ∀ s ∈ w.engine.graph.successors n.id, s ∈ w.engine.graph.nodeIds := fun s hs => by
      obtain ⟨m, hm⟩ := (hg.feeds_mem (Graph.mem_successors.1 hs)).2
      exact Table.mem_keys_of_get? hm
    have hk : (w.engine.graph.modifyNode n.id (·.storeOutputs (outputsByPort n outputs))) =
        w.engine.graph.modifyNode n.id (·.store (.ok outputs)) := by
      simp only [Graph.modifyNode]
      rw [Table.modify_congr _ _ fun m hm => ?_]
      cases hn.symm.trans hm
      rfl
    dsimp only
    rw [foldl_invalidate]
    · simp only [emit, modifyNode, count, hk]
      rfl
    · simp only [emit, modifyNode, count, Graph.nodeIds, Graph.modifyNode, Table.keys_modify]
      exact hs

/-! ## Dispatch -/

/-- The job that a node begins. -/
def newJob (w : Wave) (n : Node) (inputs : Table String Value) : Job where
  number := w.engine.stats.dispatched
  node := n.id
  generation := n.generation + 1
  variant := n.variant
  context := n.context inputs w.engine.stamp w.engine.files
  key := w.cacheKey? n inputs

/-- The wave with one more job, after a look into the cache. -/
def enlist (w : Wave) (j : Job) (cache : Cache) : Wave :=
  { w with
    engine.jobs := w.engine.jobs ++ [j]
    engine.cache := cache
    engine.stats.dispatched := w.engine.stats.dispatched + 1
    engine.inFlight := w.engine.inFlight + 1
    engine.stamp := w.engine.stamp + 1 }

/-- The wave after a look into the cache that found something. -/
def hit (w : Wave) (key : CacheKey) : Wave :=
  { w with
    engine.cache := (w.engine.cache.get key).2
    engine.stats.cacheHits := w.engine.stats.cacheHits + 1 }

/-- The wave in which a compute has its stamp and is run at once. -/
def started (w : Wave) : Wave := w.takeStamp.count fun s => { s with inline := s.inline + 1 }

/-- **The ways in which a dispatch ends**: the node waits for a port, its parameters are refused,
it computes at once, it is answered from the cache, or it computes in the background. -/
inductive Dispatched (w : Wave) (id : NodeId) (n : Node) : Wave → Prop
  | waits {port : String} (hi : w.engine.graph.inputs n = .error port) :
    Dispatched w id n (w.turn id (·.markWaiting) false
      [.note (.awaiting id port), .event (.waiting id port)])
  | refused {inputs : Table String Value} {e : ComputeError}
    (hi : w.engine.graph.inputs n = .ok inputs)
    (hc : n.metadata.checkParameters id n.parameters = .error e) :
    Dispatched w id n ((w.tally (.error e)).turn id (·.store (.error e)) false
      (Outcome.records n (.error e)))
  | inline {inputs : Table String Value} {o : Outcome}
    (hi : w.engine.graph.inputs n = .ok inputs)
    (hc : n.metadata.checkParameters id n.parameters = .ok ()) (ha : n.isAsynchronous = false)
    (ho : o = n.variant.run (n.context inputs w.engine.stamp w.engine.files)) :
    Dispatched w id n ((w.started.tally o).turn id (·.beginCompute.store o) o.succeeds
      (Outcome.records n o))
  | remembered {inputs : Table String Value} {key : CacheKey} {outputs : Table String Value}
    (hi : w.engine.graph.inputs n = .ok inputs)
    (hc : n.metadata.checkParameters id n.parameters = .ok ()) (ha : n.isAsynchronous = true)
    (hk : w.cacheKey? n inputs = some key) (hf : (w.engine.cache.get key).1 = some outputs) :
    Dispatched w id n (((w.hit key).tally (.ok outputs)).turn id (·.store (.ok outputs)) true
      (.note (.remembered id n.metadata.id) :: Outcome.records n (.ok outputs)))
  | submitted {inputs : Table String Value} {cache : Cache}
    (hi : w.engine.graph.inputs n = .ok inputs)
    (hc : n.metadata.checkParameters id n.parameters = .ok ()) (ha : n.isAsynchronous = true)
    (hk : cache = w.engine.cache ∨ ∃ key, cache = (w.engine.cache.get key).2) :
    Dispatched w id n ((w.enlist (w.newJob n inputs) cache).turn id (·.beginCompute) false
      [.note (.dispatched id (n.generation + 1))])

theorem runInline_eq (hg : w.engine.graph.Sound) (hn : w.engine.graph.node? n.id = some n)
    {inputs : Table String Value} {o : Outcome}
    (ho : o = n.variant.run (n.context inputs w.engine.stamp w.engine.files)) :
    w.runInline n inputs = (w.started.tally o).turn n.id (·.beginCompute.store o) o.succeeds
      (Outcome.records n o) := by
  have hb : (w.engine.graph.modifyNode n.id (·.beginCompute)).bare = w.engine.graph.bare :=
    Graph.bare_modifyNode _ _ fun _ => rfl
  have hn' : (w.engine.graph.modifyNode n.id (·.beginCompute)).node? n.id =
      some n.beginCompute := by
    rw [Graph.node?_modifyNode, if_pos rfl, hn]
    rfl
  have key := apply_eq (w := ((w.takeStamp.modifyNode n.id (·.beginCompute)).count fun s =>
    { s with inline := s.inline + 1 })) (hg.of_bare hb) hn' o
  rw [runInline, ← ho, key]
  -- The two changes of the node are one.
  have he : (w.engine.graph.modifyNode n.id (·.beginCompute)).modifyNode n.id (·.store o) =
      w.engine.graph.modifyNode n.id (·.beginCompute.store o) := by
    simp only [Graph.modifyNode, Table.modify_modify]
    rfl
  have hs : (w.engine.graph.modifyNode n.id (·.beginCompute)).turn n.id (·.store o) o.succeeds =
      w.engine.graph.turn n.id (·.beginCompute.store o) o.succeeds := by
    rw [Graph.turn, Graph.turn, he]
    rfl
  simp only [turn, tally, count, takeStamp, modifyNode, started, hs]
  cases o <;> rfl

theorem submit_eq (w : Wave) (n : Node) (inputs : Table String Value) (cache : Cache) :
    submit { w with engine.cache := cache } n inputs (w.cacheKey? n inputs) =
      (w.enlist (w.newJob n inputs) cache).turn n.id (·.beginCompute) false
        [.note (.dispatched n.id (n.generation + 1))] := by
  simp [submit, turn, Graph.turn, takeStamp, modifyNode, note, count, enlist, newJob]

theorem dispatch_spec (hg : w.engine.graph.Sound) (hn : w.engine.graph.node? id = some n) :
    Dispatched w id n (w.dispatch id) := by
  obtain rfl := hg.id_eq hn
  unfold dispatch
  rw [hn]
  dsimp only
  cases hi : w.engine.graph.inputs n with
  | error port =>
    have : Dispatched w n.id n _ := .waits hi
    simpa [turn, Graph.turn, note, modifyNode, emit] using this
  | ok inputs =>
    dsimp only
    cases hc : n.metadata.checkParameters n.id n.parameters with
    | error e =>
      dsimp only
      rw [apply_eq hg hn]
      exact .refused hi hc
    | ok u =>
      dsimp only
      cases ha : n.isAsynchronous with
      | false =>
        rw [if_neg (by simp), runInline_eq hg hn rfl]
        exact .inline hi hc ha rfl
      | true =>
        rw [if_pos rfl, runBackground]
        cases hk : w.cacheKey? n inputs with
        | none =>
          have := submit_eq w n inputs w.engine.cache
          rw [hk] at this
          dsimp only
          rw [this]
          exact .submitted hi hc ha (.inl rfl)
        | some key =>
          dsimp only
          cases hf : (w.engine.cache.get key).1 with
          | none =>
            have := submit_eq w n inputs (w.engine.cache.get key).2
            rw [hk] at this
            dsimp only
            rw [this]
            exact .submitted hi hc ha (.inr ⟨key, rfl⟩)
          | some outputs =>
            have := Dispatched.remembered hi hc ha hk hf
            have e := apply_eq (w := (w.hit key).note (.remembered n.id n.metadata.id)) hg hn
              (.ok outputs)
            show Dispatched w n.id n (((w.hit key).note _).apply n.id _)
            rw [e]
            convert this using 1
            simp [turn, tally, hit, note, count, Outcome.succeeds]

/-! ## Deliveries -/

/-- The wave when a completion has come in, and its result is remembered. -/
def received (w : Wave) (c : Completion) : Wave :=
  { w with engine.inFlight := w.engine.inFlight - 1 }.remember c

/-- All that a completion changes before it is applied or dropped. -/
theorem received_eq (w : Wave) (c : Completion) : ∃ cache, w.received c =
    { w with engine.inFlight := w.engine.inFlight - 1, engine.cache := cache } ∧
    (cache = w.engine.cache ∨ ∃ key outputs, c.key = some key ∧ c.outcome = .ok outputs ∧
      w.engine.options.useCache ∧ cache = w.engine.cache.put ⟨key, outputs, 0⟩) := by
  unfold received remember
  split
  · next key outputs hk ho =>
    split
    · next hu => exact ⟨_, rfl, .inr ⟨key, outputs, hk, ho, hu, rfl⟩⟩
    · exact ⟨_, rfl, .inl rfl⟩
  · exact ⟨_, rfl, .inl rfl⟩

theorem isCurrent_iff {c : Completion} : w.isCurrent c ↔ ∃ n, w.engine.graph.node? c.node = some n ∧
    n.generation = c.generation ∧ n.state = .computing c.generation := by
  simp [isCurrent, Option.any_eq_true, Node.accepts]

theorem isCurrent_received (w : Wave) (c d : Completion) :
    (w.received c).isCurrent d = w.isCurrent d := by
  obtain ⟨cache, e, _⟩ := w.received_eq c
  rw [e]
  rfl

/-- **A completion that is awaited is stored on its node.** -/
theorem accept_eq (hg : w.engine.graph.Sound) {c : Completion} (hc : w.isCurrent c = true)
    (hn : w.engine.graph.node? c.node = some n) : w.accept c =
      ((w.received c).tally c.outcome).turn c.node (·.store c.outcome) c.outcome.succeeds
        (Outcome.records n c.outcome) := by
  obtain ⟨cache, e, _⟩ := w.received_eq c
  have hs : (w.received c).engine.graph = w.engine.graph := by rw [e]
  rw [← apply_eq (by rwa [hs]) (by rwa [hs])]
  unfold accept
  exact if_pos ((isCurrent_received w c c).trans hc)

/-- **Any other completion is dropped.** -/
theorem accept_stale {c : Completion} (hc : w.isCurrent c = false) : w.accept c =
    ((w.received c).count fun s => { s with discarded := s.discarded + 1 }).note
      (.discarded c.node c.generation) := by
  unfold accept
  refine if_neg ?_
  rw [Bool.not_eq_true]
  exact (isCurrent_received w c c).trans hc

end Wave

end PixelFlow
