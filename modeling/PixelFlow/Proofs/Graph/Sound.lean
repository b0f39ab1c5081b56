import PixelFlow.Proofs.Graph.Reach

/-!
# Sound graphs

A graph keeps four structures that tell the same story: its nodes, the owners of their ports, its
links, and the link that enters each occupied sink. A sound graph has them in step, and no cycle.

* `Node.WellFormed`: the ports of a node are distinct and name it as their own.
* **`Graph.Sound`**: the four structures agree, links are well-typed, no node feeds itself.
* `Graph.Sound.endpoints`, `Graph.Sound.sink_unique`: what this says about links.
* `Graph.Sound.of_ports`: only links, owners and the ports of nodes matter.
* `Graph.bare`: the graph without what waves change in it.
-/

namespace PixelFlow

open Relation

/-- The ports of the node are distinct and name the node as their own. -/
structure Node.WellFormed (n : Node) : Prop where
  nodup : n.portIds.Nodup
  owned : ∀ p ∈ n.ports, p.node = n.id

namespace Graph

/-- **The four structures of the graph agree, every link runs from a source port to a sink port
of its type, and no node feeds itself along any number of links.** -/
structure Sound (g : Graph) : Prop where
  named : ∀ {id n}, g.node? id = some n → n.id = id ∧ n.WellFormed
  owners : ∀ p id, g.owner? p = some id ↔ ∃ n, g.node? id = some n ∧ p ∈ n.portIds
  incoming : ∀ s l, g.incoming? s = some l ↔ l ∈ g.links ∧ l.sink = s
  nodup : g.links.Nodup
  typed : ∀ l ∈ g.links, ∃ p q, g.port? l.source = some p ∧ g.port? l.sink = some q ∧
    p.kind = .source ∧ q.kind = .sink ∧ p.type = q.type
  acyclic : ∀ id, ¬ TransGen g.Feeds id id

theorem sound_empty : Sound empty where
  named h := by simp [node?, empty, Table.get?, Table.lookup, EmptyCollection.emptyCollection,
    Table.empty] at h
  owners p id := by
    simp [owner?, node?, empty, Table.get?, Table.lookup, EmptyCollection.emptyCollection,
      Table.empty]
  incoming s l := by
    simp [incoming?, empty, Table.get?, Table.lookup, EmptyCollection.emptyCollection, Table.empty]
  nodup := List.nodup_nil
  typed l hl := nomatch hl
  acyclic id h := by
    obtain ⟨_, ⟨l, hl, _⟩, _⟩ := TransGen.head'_iff.1 h
    exact nomatch hl

/-! ## Ports -/

/-- A port that is found belongs to the node that owns it. -/
theorem port?_eq_some {g : Graph} {p : PortId} {q : Port} (h : g.port? p = some q) :
    ∃ id n, g.owner? p = some id ∧ g.node? id = some n ∧ q ∈ n.ports ∧ q.id = p := by
  rw [port?] at h
  obtain ⟨id, hid, h⟩ := Option.bind_eq_some_iff.1 h
  obtain ⟨n, hn, h⟩ := Option.bind_eq_some_iff.1 h
  exact ⟨id, n, hid, hn, List.mem_of_find?_eq_some h, by simpa using List.find?_some h⟩

theorem port?_eq_find? {g : Graph} {p : PortId} {id : NodeId} {n : Node}
    (ho : g.owner? p = some id) (hn : g.node? id = some n) :
    g.port? p = n.ports.find? (·.id == p) := by
  simp only [port?, ho, hn, Option.bind_eq_bind, Option.bind_some]

theorem port?_congr {g h : Graph} (p : PortId) (ho : h.owner? p = g.owner? p)
    (hn : ∀ id, (h.node? id).map (·.ports) = (g.node? id).map (·.ports)) :
    h.port? p = g.port? p := by
  have key : ∀ f : Graph, f.port? p = (f.owner? p).bind fun id =>
      ((f.node? id).map (·.ports)).bind fun ps => ps.find? (·.id == p) := fun f => by
    rw [port?]
    show (f.owner? p).bind _ = _
    congr 1
    funext id
    cases f.node? id <;> rfl
  rw [key, key, ho]
  simp only [hn]

namespace Sound

variable {g : Graph}

theorem id_eq (hg : g.Sound) {id : NodeId} {n : Node} (h : g.node? id = some n) : n.id = id :=
  (hg.named h).1

theorem wellFormed (hg : g.Sound) {id : NodeId} {n : Node} (h : g.node? id = some n) :
    n.WellFormed := (hg.named h).2

/-- A node owns its ports. -/
theorem owner?_port (hg : g.Sound) {id : NodeId} {n : Node} {p : Port} (h : g.node? id = some n)
    (hp : p ∈ n.ports) : g.owner? p.id = some id :=
  (hg.owners ..).2 ⟨n, h, List.mem_map_of_mem hp⟩

/-- The owner of a port is in the graph. -/
theorem node?_owner (hg : g.Sound) {p : PortId} {id : NodeId} (h : g.owner? p = some id) :
    ∃ n, g.node? id = some n := ((hg.owners ..).1 h).imp fun _ h => h.1

/-- The node that a port names as its own is the one that owns it. -/
theorem owner?_of_port? (hg : g.Sound) {p : PortId} {q : Port} (h : g.port? p = some q) :
    g.owner? p = some q.node := by
  obtain ⟨id, n, ho, hn, hq, _⟩ := port?_eq_some h
  rw [ho, (hg.wellFormed hn).owned q hq, hg.id_eq hn]

theorem port?_of_mem (hg : g.Sound) {id : NodeId} {n : Node} {p : Port} (h : g.node? id = some n)
    (hp : p ∈ n.ports) : g.port? p.id = some p := by
  have hf : ∀ l : List Port, (l.map (·.id)).Nodup → p ∈ l → l.find? (·.id == p.id) = some p := by
    intro l
    induction l with
    | nil => exact fun _ h => nomatch h
    | cons q l ih =>
      intro hd hm
      obtain ⟨hq, hl⟩ := List.nodup_cons.1 hd
      rcases List.mem_cons.1 hm with rfl | hm
      · simp
      · have : q.id ≠ p.id := fun e => hq (List.mem_map.2 ⟨p, hm, e.symm⟩)
        rw [List.find?_cons_of_neg (by simpa using this)]
        exact ih hl hm
  rw [port?_eq_find? (hg.owner?_port h hp) h]
  exact hf _ (hg.wellFormed h).nodup hp

/-! ## Links -/

/-- **Every link runs from a source port of one node of the graph to a sink port of another.** -/
theorem endpoints (hg : g.Sound) {l : Link} (hl : l ∈ g.links) : ∃ m n p q,
    g.node? m.id = some m ∧ g.node? n.id = some n ∧ p ∈ m.ports ∧ q ∈ n.ports ∧ p.id = l.source ∧
      q.id = l.sink ∧ p.kind = .source ∧ q.kind = .sink ∧ p.type = q.type := by
  obtain ⟨p, q, hp, hq, hk, hk', ht⟩ := hg.typed l hl
  obtain ⟨a, m, _, hm, hpm, hpi⟩ := port?_eq_some hp
  obtain ⟨b, n, _, hn, hqn, hqi⟩ := port?_eq_some hq
  refine ⟨m, n, p, q, ?_, ?_, hpm, hqn, hpi, hqi, hk, hk', ht⟩
  · rw [hg.id_eq hm, hm]
  · rw [hg.id_eq hn, hn]

/-- The ends of a link have owners, and the one feeds the other. -/
theorem link_feeds (hg : g.Sound) {l : Link} (hl : l ∈ g.links) :
    ∃ a b, g.owner? l.source = some a ∧ g.owner? l.sink = some b ∧ g.Feeds a b := by
  obtain ⟨p, q, hp, hq, _⟩ := hg.typed l hl
  have ha := hg.owner?_of_port? hp
  have hb := hg.owner?_of_port? hq
  exact ⟨_, _, ha, hb, l, hl, ha, hb⟩

/-- At most one link enters a sink. -/
theorem sink_unique (hg : g.Sound) {l k : Link} (hl : l ∈ g.links) (hk : k ∈ g.links)
    (h : l.sink = k.sink) : l = k :=
  Option.some.inj (((hg.incoming k.sink l).2 ⟨hl, h⟩).symm.trans
    ((hg.incoming k.sink k).2 ⟨hk, rfl⟩))

theorem feeds_mem (hg : g.Sound) {a b : NodeId} (h : g.Feeds a b) :
    (∃ m, g.node? a = some m) ∧ ∃ n, g.node? b = some n :=
  let ⟨_, _, ha, hb⟩ := h
  ⟨hg.node?_owner ha, hg.node?_owner hb⟩

theorem not_feeds_self (hg : g.Sound) (a : NodeId) : ¬ g.Feeds a a :=
  fun h => hg.acyclic a (.single h)

/-! ## What soundness depends on -/

/-- **Soundness is about links, owners and the ports of nodes only.** -/
theorem of_ports {h : Graph} (hg : g.Sound) (hl : h.links = g.links) (ho : h.owners = g.owners)
    (hi : h.incoming = g.incoming)
    (hn : ∀ id, (h.node? id).map (fun n => (n.id, n.ports)) =
      (g.node? id).map fun n => (n.id, n.ports)) : h.Sound := by
  have node : ∀ {id n}, h.node? id = some n →
      ∃ m, g.node? id = some m ∧ m.id = n.id ∧ m.ports = n.ports := by
    intro id n hid
    have := hn id
    rw [hid, Option.map_some] at this
    obtain ⟨m, hm, e⟩ := Option.map_eq_some_iff.1 this.symm
    simp only [Prod.mk.injEq] at e
    exact ⟨m, hm, e⟩
  have node' : ∀ {id m}, g.node? id = some m →
      ∃ n, h.node? id = some n ∧ m.id = n.id ∧ m.ports = n.ports := by
    intro id m hid
    have := hn id
    rw [hid, Option.map_some] at this
    obtain ⟨n, hn, e⟩ := Option.map_eq_some_iff.1 this
    simp only [Prod.mk.injEq] at e
    exact ⟨n, hn, e.1.symm, e.2.symm⟩
  have owner : ∀ p, h.owner? p = g.owner? p := fun p => by rw [owner?, ho, owner?]
  have port : ∀ p, h.port? p = g.port? p := fun p => port?_congr p (owner p) fun id => by
    have := congrArg (Option.map Prod.snd) (hn id)
    rwa [Option.map_map, Option.map_map] at this
  have feeds : h.Feeds = g.Feeds := by
    funext a b
    simp only [Feeds, hl, owner]
  refine ⟨fun {id n} hid => ?_, fun p id => ?_, fun s l => ?_, hl ▸ hg.nodup, fun l hm => ?_, ?_⟩
  · obtain ⟨m, hm, hi, hp⟩ := node hid
    refine ⟨hi ▸ hg.id_eq hm, ?_, fun p hp' => ?_⟩
    · have := (hg.wellFormed hm).nodup
      rwa [Node.portIds, hp] at this
    · rw [(hg.wellFormed hm).owned p (hp ▸ hp'), hi]
  · rw [owner, hg.owners]
    constructor
    · rintro ⟨m, hm, hp⟩
      obtain ⟨n, hn, _, e⟩ := node' hm
      exact ⟨n, hn, by rwa [Node.portIds, ← e]⟩
    · rintro ⟨n, hn, hp⟩
      obtain ⟨m, hm, _, e⟩ := node hn
      exact ⟨m, hm, by rwa [Node.portIds, e]⟩
  · rw [incoming?, hi, hl]
    exact hg.incoming s l
  · rw [port, port]
    exact hg.typed l (hl ▸ hm)
  · rw [feeds]
    exact hg.acyclic

end Sound

/-! ## Bare graphs -/

end Graph

/-- The node as it is without its state, outputs, generation and error. -/
def Node.bare (n : Node) : Node :=
  { n with state := .dirty, outputs := ∅, generation := 0, lastError := none }

namespace Graph

/-- The graph without the states, outputs, generations and errors of its nodes. -/
def bare (g : Graph) : Graph := { g with nodes := g.nodes.map Node.bare }

theorem node?_bare (g : Graph) (id : NodeId) : g.bare.node? id = (g.node? id).map Node.bare :=
  Table.get?_map ..

theorem bare_modifyNode (g : Graph) (id : NodeId) {f : Node → Node}
    (hf : ∀ n, (f n).bare = n.bare) : (g.modifyNode id f).bare = g.bare := by
  have : (g.nodes.modify id f).map Node.bare = g.nodes.map Node.bare := by
    refine Table.ext ?_
    simp only [Table.map, Table.modify, List.map_map]
    refine List.map_congr_left fun e _ => ?_
    simp only [Function.comp]
    split
    · rw [hf]
    · rfl
  simp only [bare, modifyNode, this]

theorem nodeIds_bare (g : Graph) : g.bare.nodeIds = g.nodeIds := Table.keys_map ..

section Bare

variable {g h : Graph} (e : h.bare = g.bare)

include e

theorem links_of_bare : h.links = g.links := by
  show h.bare.links = g.bare.links
  rw [e]

theorem owner?_of_bare (p : PortId) : h.owner? p = g.owner? p := by
  show h.bare.owner? p = g.bare.owner? p
  rw [e]

theorem incoming?_of_bare (s : PortId) : h.incoming? s = g.incoming? s := by
  show h.bare.incoming? s = g.bare.incoming? s
  rw [e]

theorem feeds_of_bare : h.Feeds = g.Feeds := by
  show h.bare.Feeds = g.bare.Feeds
  rw [e]

theorem nodeIds_of_bare : h.nodeIds = g.nodeIds := by
  rw [← nodeIds_bare, e, nodeIds_bare]

theorem node?_of_bare {id : NodeId} {n : Node} (hn : h.node? id = some n) :
    ∃ m, g.node? id = some m ∧ m.bare = n.bare := by
  have := congrArg (Graph.node? · id) e
  simp only [node?_bare, hn, Option.map_some] at this
  exact Option.map_eq_some_iff.1 this.symm

theorem Sound.of_bare (hg : g.Sound) : h.Sound := by
  have ho : h.bare.owners = g.bare.owners := by rw [e]
  have hi : h.bare.incoming = g.bare.incoming := by rw [e]
  refine hg.of_ports (links_of_bare e) ho hi fun id => ?_
  have := congrArg (fun f => (Graph.node? f id).map fun n => (n.id, n.ports)) e
  simp only [node?_bare, Option.map_map] at this
  exact this

end Bare

end Graph

end PixelFlow
