import PixelFlow.Builtin.Arithmetic
import PixelFlow.Proofs.Engine.Run
import PixelFlow.Proofs.Graph.Workbench
import Mathlib

/-!
# The links that may be made

A source may feed a sink of its type that nothing feeds yet, unless links lead from the node of the
sink to that of the source. The checks of `Graph.connect` read the nodes off the ports and search
the graph; on a graph that can be reached they decide exactly this, in this order.

* `Graph.Reachable`: what an engine comes to, or what is made from that by hand.
* `Graph.Linkable`, `Graph.Forbids`: a link may be made; the first thing that forbids it.
* `Graph.Gains`: one link more, and the node that it enters is dirty.
* **`Graph.Reachable.connect_exact`**: what `connect` accepts, how it refuses, what it does.
-/

namespace PixelFlow

open Relation

namespace Graph

/-- The graph is one that an engine comes to by a run, or is made from such a graph by hand. An
engine that does nothing holds the empty graph, so all graphs made by hand are among them. -/
def Reachable (g : Graph) : Prop :=
  ∃ options files actions moves, (Engine.new options files).Admissible actions ∧
    let e := ((Engine.new options files).run actions).1
    Workbench.Admissible ⟨e.graph, [], e.stamp⟩ moves ∧
      g = (Workbench.run ⟨e.graph, [], e.stamp⟩ moves).graph

theorem Reachable.sound {g : Graph} (h : g.Reachable) : g.Sound := by
  obtain ⟨options, files, actions, moves, ha, hm, rfl⟩ := h
  have rest := (Engine.atRest_new options files).run actions ha
  exact (Workbench.Invariant.run ⟨rest.sound, rest.known, fun _ hn => (List.not_mem_nil hn).elim⟩
    moves hm).sound

/-! ## What is asked of a link -/

/-- A node of the graph has this port under this name. -/
def Carries (g : Graph) (id : NodeId) (name : PortId) (p : Port) : Prop :=
  ∃ n, g.node? id = some n ∧ p ∈ n.ports ∧ p.id = name

/-- **A link from one port to another may be made**: both are there, they run the right way and
are of one type, nothing enters the sink, and no links lead back. -/
def Linkable (g : Graph) (source sink : PortId) : Prop :=
  ∃ a b p q, g.Carries a source p ∧ g.Carries b sink q ∧ p.kind = .source ∧ q.kind = .sink ∧
    p.type = q.type ∧ (∀ l ∈ g.links, l.sink ≠ sink) ∧ ¬ ReflTransGen g.Feeds b a

/-- **The first thing that forbids a link**, as the error that tells of it. -/
inductive Forbids (g : Graph) (source sink : PortId) : GraphError → Prop
  | source (h : ∀ a p, ¬ g.Carries a source p) : Forbids g source sink (.unknownPort source)
  | sink {a : NodeId} {p : Port} (hp : g.Carries a source p) (h : ∀ b q, ¬ g.Carries b sink q) :
    Forbids g source sink (.unknownPort sink)
  | ends {a b : NodeId} {p q : Port} (hp : g.Carries a source p) (hq : g.Carries b sink q)
    (h : ¬ (p.kind = .source ∧ q.kind = .sink)) :
    Forbids g source sink (.invalidEndpoints p.kind q.kind)
  | types {a b : NodeId} {p q : Port} (hp : g.Carries a source p) (hq : g.Carries b sink q)
    (hk : p.kind = .source ∧ q.kind = .sink) (h : p.type ≠ q.type) :
    Forbids g source sink (.typeMismatch p.type q.type)
  | occupied {a b : NodeId} {p q : Port} {l : Link} (hp : g.Carries a source p)
    (hq : g.Carries b sink q) (hk : p.kind = .source ∧ q.kind = .sink) (ht : p.type = q.type)
    (hl : l ∈ g.links) (h : l.sink = sink) : Forbids g source sink (.sinkOccupied sink l)
  | cycle {a b : NodeId} {p q : Port} (hp : g.Carries a source p) (hq : g.Carries b sink q)
    (hk : p.kind = .source ∧ q.kind = .sink) (ht : p.type = q.type)
    (hf : ∀ l ∈ g.links, l.sink ≠ sink) (h : ReflTransGen g.Feeds b a) :
    Forbids g source sink (.wouldCreateCycle a b)

/-- **The graph has one link more, the node that it enters is dirty, and all else is as it was.** -/
structure Gains (g : Graph) (l : Link) (g' : Graph) : Prop where
  links : g'.links = g.links ++ [l]
  incoming : ∀ s, g'.incoming? s = if s = l.sink then some l else g.incoming? s
  owners : g'.owners = g.owners
  nodeIds : g'.nodeIds = g.nodeIds
  dirty : ∃ b n, g.owner? l.sink = some b ∧ g.node? b = some n ∧
    g'.node? b = some { n with state := .dirty }
  others : ∀ {id}, g.owner? l.sink ≠ some id → g'.node? id = g.node? id

variable {g g' : Graph} {source sink : PortId}

/-! ## What the checks read -/

theorem Sound.carries_iff (hg : g.Sound) {id : NodeId} {name : PortId} {p : Port} :
    g.Carries id name p ↔ g.port? name = some p ∧ p.node = id := by
  constructor
  · rintro ⟨n, hn, hp, rfl⟩
    exact ⟨hg.port?_of_mem hn hp, ((hg.wellFormed hn).owned p hp).trans (hg.id_eq hn)⟩
  · rintro ⟨h, rfl⟩
    obtain ⟨id, n, _, hn, hp, hi⟩ := port?_eq_some h
    have owned : p.node = id := ((hg.wellFormed hn).owned p hp).trans (hg.id_eq hn)
    exact ⟨n, owned ▸ hn, hp, hi⟩

theorem Sound.free_iff (hg : g.Sound) :
    g.incoming? sink = none ↔ ∀ l ∈ g.links, l.sink ≠ sink := by
  constructor
  · intro h l hl hs
    rw [(hg.incoming ..).2 ⟨hl, hs⟩] at h
    cases h
  · intro h
    refine Option.eq_none_iff_forall_ne_some.2 fun l hl => ?_
    obtain ⟨hm, hs⟩ := (hg.incoming ..).1 hl
    exact h l hm hs

theorem port_of_some {name : PortId} {p : Port} (h : g.port? name = some p) :
    g.port name = .ok p := by
  rw [port, h]

theorem port_of_none {name : PortId} (h : g.port? name = none) :
    g.port name = .error (.unknownPort name) := by
  rw [port, h]

/-- The checks of two ports that are there. -/
theorem connect_of_ports {p q : Port} (hp : g.port? source = some p)
    (hq : g.port? sink = some q) : g.connect source sink =
      if p.kind = .source ∧ q.kind = .sink then
        if p.type = q.type then
          match g.incoming? sink with
          | some l => .error (.sinkOccupied sink l)
          | none =>
            if g.reaches q.node p.node then .error (.wouldCreateCycle p.node q.node)
            else .ok ((g.linked ⟨source, sink⟩).markDirty q.node)
        else .error (.typeMismatch p.type q.type)
      else .error (.invalidEndpoints p.kind q.kind) := by
  rw [connect, port_of_some hp, port_of_some hq]
  simp only [bind, Except.bind]
  by_cases hk : p.kind = .source ∧ q.kind = .sink
  · have same : connectable p q = decide (p.type = q.type) := by
      simp only [connectable, Port.isSource, Port.isSink, hk.1, hk.2, beq_self_eq_true,
        Bool.true_and]
      exact beq_eq_decide ..
    rw [if_neg (by simp [hk.1, hk.2]), if_pos hk, same]
    by_cases ht : p.type = q.type
    · rw [if_neg (by simp [ht]), if_pos ht]
      cases g.incoming? sink <;> rfl
    · rw [if_pos (by simp [ht]), if_neg ht]
      rfl
  · rw [if_pos (by rwa [← not_and_or]), if_neg hk]
    rfl

/-! ## What they decide -/

theorem Linkable.connect (hg : g.Sound) (h : g.Linkable source sink) :
    ∃ g', g.connect source sink = .ok g' := by
  obtain ⟨a, b, p, q, hp, hq, hk, hk', ht, hf, hr⟩ := h
  obtain ⟨fp, rfl⟩ := hg.carries_iff.1 hp
  obtain ⟨fq, rfl⟩ := hg.carries_iff.1 hq
  rw [connect_of_ports fp fq, if_pos ⟨hk, hk'⟩, if_pos ht, hg.free_iff.2 hf]
  exact ⟨_, if_neg fun h => hr (reaches_iff.1 h)⟩

theorem Forbids.connect (hg : g.Sound) {x : GraphError} (h : g.Forbids source sink x) :
    g.connect source sink = .error x := by
  have absent : ∀ {name}, (∀ a p, ¬ g.Carries a name p) → g.port? name = none := fun h =>
    Option.eq_none_iff_forall_ne_some.2 fun p hp => h _ p (hg.carries_iff.2 ⟨hp, rfl⟩)
  cases h with
  | source h =>
    rw [Graph.connect, port_of_none (absent h)]
    rfl
  | sink hp h =>
    rw [Graph.connect, port_of_some (hg.carries_iff.1 hp).1, port_of_none (absent h)]
    rfl
  | ends hp hq h =>
    rw [connect_of_ports (hg.carries_iff.1 hp).1 (hg.carries_iff.1 hq).1, if_neg h]
  | types hp hq hk h =>
    rw [connect_of_ports (hg.carries_iff.1 hp).1 (hg.carries_iff.1 hq).1, if_pos hk, if_neg h]
  | occupied hp hq hk ht hl h =>
    rw [connect_of_ports (hg.carries_iff.1 hp).1 (hg.carries_iff.1 hq).1, if_pos hk, if_pos ht,
      (hg.incoming ..).2 ⟨hl, h⟩]
  | cycle hp hq hk ht hf h =>
    obtain ⟨fp, rfl⟩ := hg.carries_iff.1 hp
    obtain ⟨fq, rfl⟩ := hg.carries_iff.1 hq
    rw [connect_of_ports fp fq, if_pos hk, if_pos ht, hg.free_iff.2 hf]
    exact if_pos (reaches_iff.2 h)

/-- A link may be made, or something forbids it. -/
theorem linkable_or_forbids (g : Graph) (source sink : PortId) :
    g.Linkable source sink ∨ ∃ x, g.Forbids source sink x := by
  by_cases hp : ∃ a p, g.Carries a source p
  · obtain ⟨a, p, hp⟩ := hp
    by_cases hq : ∃ b q, g.Carries b sink q
    · obtain ⟨b, q, hq⟩ := hq
      by_cases hk : p.kind = .source ∧ q.kind = .sink
      · by_cases ht : p.type = q.type
        · by_cases hf : ∃ l ∈ g.links, l.sink = sink
          · obtain ⟨l, hl, hs⟩ := hf
            exact .inr ⟨_, .occupied hp hq hk ht hl hs⟩
          · have hf : ∀ l ∈ g.links, l.sink ≠ sink := fun l hl hs => hf ⟨l, hl, hs⟩
            by_cases hr : ReflTransGen g.Feeds b a
            · exact .inr ⟨_, .cycle hp hq hk ht hf hr⟩
            · exact .inl ⟨a, b, p, q, hp, hq, hk.1, hk.2, ht, hf, hr⟩
        · exact .inr ⟨_, .types hp hq hk ht⟩
      · exact .inr ⟨_, .ends hp hq hk⟩
    · exact .inr ⟨_, .sink hp fun b q h => hq ⟨b, q, h⟩⟩
  · exact .inr ⟨_, .source fun a p h => hp ⟨a, p, h⟩⟩

/-- **The graph that an accepted link leads to.** -/
theorem Sound.gains (hg : g.Sound) (h : g.connect source sink = .ok g') :
    g.Gains ⟨source, sink⟩ g' := by
  obtain ⟨p, q, -, hq, -, -, -, hi, -, rfl⟩ := connect_ok h
  have owner := hg.owner?_of_port? hq
  have new : (⟨source, sink⟩ : Link) ∉ g.links := fun hl => hg.free_iff.1 hi _ hl rfl
  have node : ∀ id, ((g.linked ⟨source, sink⟩).markDirty q.node).node? id =
      if q.node = id then (g.node? id).map (·.markDirty) else g.node? id :=
    fun id => node?_modifyNode ..
  refine ⟨if_neg new, fun s => ?_, rfl, Table.keys_modify .., ?_, fun {id} hne => ?_⟩
  · show (g.incoming.insert sink ⟨source, sink⟩).get? s = _
    rw [Table.get?_insert]
    exact if_congr eq_comm rfl rfl
  · obtain ⟨n, hn⟩ := hg.node?_owner owner
    exact ⟨q.node, n, owner, hn, by rw [node, if_pos rfl, hn]; rfl⟩
  · rw [node, if_neg]
    rintro rfl
    exact hne owner

/-- A link that is accepted is made by an edit. -/
theorem performConnect_of_ok (h : g.connect source sink = .ok g') :
    ∃ r, g.performConnect source sink = .ok r ∧ r.graph = g' ∧
      r.answer = .link ⟨source, sink⟩ := by
  obtain ⟨p, q, hp, hq, -⟩ := connect_ok h
  have made : g.performConnect source sink = .ok ⟨g', .link ⟨source, sink⟩,
      (g'.owner? sink).toList, [.connected p.node q.node ⟨source, sink⟩]⟩ := by
    rw [performConnect, h, port_of_some hp, port_of_some hq]
    rfl
  exact ⟨_, made, rfl, rfl⟩

/-- Make two nodes and let the first feed the second. -/
def feedOnce : List Workbench.Move :=
  [.addVariant Builtin.math, .addVariant Builtin.math, .connect ⟨.mint 0 3⟩ ⟨.mint 1 1⟩]

def twoSums : Graph := (Workbench.empty.run feedOnce).graph

end Graph

end PixelFlow
