import PixelFlow.Proofs.Engine.InOrder
import PixelFlow.Proofs.Engine.Linking
import PixelFlow.Proofs.Pipeline.Stage

/-!
# Building a pipeline

The stages of a chain are added to an engine one by one, and then each is linked to the next. While
this goes on the engine dispatches what is ready; none of this keeps a node from coming in or a link
from being made.

* `Graph.Hosts`: a graph has a node, whatever its state.
* **`Pipeline.Standing`**: what is known of the engine on the way.
* **`Pipeline.Standing.addStages`**, **`Pipeline.Standing.linkStages`**: both parts succeed.
* `Pipeline.Joined`, `Pipeline.Joins`: a link from the output of a node to the image of the next.
-/

namespace PixelFlow

open Relation Wave

theorem Node.ports_of_bare {n m : Node} (h : m.bare = n.bare) : m.ports = n.ports := by
  show m.bare.ports = n.bare.ports
  rw [h]

/-- The graph has the node, whatever has come of its state and its outputs. -/
def Graph.Hosts (g : Graph) (n : Node) : Prop := ∃ m, g.node? n.id = some m ∧ m.bare = n.bare

/-- No link of the graph touches the node. -/
def Graph.Untouched (g : Graph) (n : Node) : Prop :=
  ∀ l ∈ g.links, l.source ∉ n.portIds ∧ l.sink ∉ n.portIds

namespace Graph

variable {g g' : Graph} {n : Node} {p : Port}

theorem Hosts.of_bare (hn : g.Hosts n) (e : g'.bare = g.bare) : g'.Hosts n := by
  obtain ⟨m, hm, hb⟩ := hn
  obtain ⟨k, hk, hkb⟩ := node?_of_bare e.symm hm
  exact ⟨k, hk, hkb.trans hb⟩

theorem Hosts.findPort (hn : g.Hosts n) {name : String} (hp : n.portNamed? name = some p) :
    g.findPort n.id name = .ok p.id := by
  obtain ⟨m, hm, hb⟩ := hn
  have named : m.portNamed? name = some p := by
    rw [Node.portNamed?, Node.ports_of_bare hb]
    exact hp
  rw [Graph.findPort, Graph.node, hm]
  dsimp only [bind, Except.bind]
  rw [named]
  rfl

theorem Hosts.carries (hn : g.Hosts n) (hp : p ∈ n.ports) : g.Carries n.id p.id p := by
  obtain ⟨m, hm, hb⟩ := hn
  exact ⟨m, hm, Node.ports_of_bare hb ▸ hp, rfl⟩

theorem Hosts.owner?_eq (hn : g.Hosts n) (hg : g.Sound) {s : PortId} :
    g.owner? s = some n.id ↔ s ∈ n.portIds := by
  obtain ⟨m, hm, hb⟩ := hn
  rw [hg.owners, Node.portIds, ← Node.ports_of_bare hb]
  constructor
  · rintro ⟨k, hk, hs⟩
    rw [hm] at hk
    cases hk
    exact hs
  · exact fun hs => ⟨m, hm, hs⟩

theorem hosts_insert (g : Graph) (n : Node) : (g.insert n).Hosts n :=
  ⟨n.markDirty, by rw [node?_insert, if_pos rfl], rfl⟩

theorem Hosts.insert (hn : g.Hosts n) {m : Node} (hm : g.node? m.id = none) :
    (g.insert m).Hosts n := by
  obtain ⟨k, hk, hb⟩ := hn
  refine ⟨k, ?_, hb⟩
  rw [node?_insert, if_neg, hk]
  intro e
  rw [e, hk] at hm
  cases hm

theorem Gains.hosts {l : Link} (h : g.Gains l g') (hn : g.Hosts n) : g'.Hosts n := by
  obtain ⟨m, hm, hb⟩ := hn
  by_cases ho : g.owner? l.sink = some n.id
  · obtain ⟨b, k, hk, hbk, hd⟩ := h.dirty
    obtain rfl := Option.some.inj (hk.symm.trans ho)
    obtain rfl := Option.some.inj (hm.symm.trans hbk)
    exact ⟨_, hd, hb⟩
  · exact ⟨m, (h.others ho).trans hm, hb⟩

end Graph

namespace Pipeline

/-! ## Nodes of stages -/

namespace Stage

variable (s : Stage) (stamp : Nat)

/-- A node of a stage is a new node that was then given parameters. -/
theorem node_induction (I : Node → Prop) (new : I (.new s.variant stamp))
    (set : ∀ n name v, I n → I (n.withParameter name v)) : I (s.node stamp) :=
  List.foldlRecOn s.parameters _ new fun n hn x _ => set n x.1 x.2 hn

theorem node_id : (s.node stamp).id = (Node.new s.variant stamp).id :=
  s.node_induction stamp (·.id = _) rfl fun _ _ _ h => h

theorem node_portIds : (s.node stamp).portIds = (Node.new s.variant stamp).portIds :=
  s.node_induction stamp (·.portIds = _) rfl fun _ _ _ h => h

theorem node_wellFormed : (s.node stamp).WellFormed :=
  s.node_induction stamp _ (Node.new_wellFormed ..) fun _ name v h => h.withParameter name v

theorem node_known : (s.node stamp).Known (stamp + 1) :=
  s.node_induction stamp _ (Node.new_known ..) fun _ name v h => h.withParameter name v

theorem node_blank : (s.node stamp).outputs = ∅ ∧ (s.node stamp).lastError = none :=
  s.node_induction stamp (fun n => n.outputs = ∅ ∧ n.lastError = none) ⟨rfl, rfl⟩ fun _ _ _ h => h

theorem node_ofPalette {P : Palette} (h : P.variants s.variant) : (s.node stamp).OfPalette P :=
  s.node_induction stamp _ (Node.ofPalette_build h _ _) fun _ _ _ h => h.of_bare rfl rfl

end Stage

/-! ## On the way -/

/-- The output of the one node is linked to the image of the other. -/
def Joined (g : Graph) (x y : Node × String) : Prop := ∃ p q, x.1.portNamed? x.2 = some p ∧
  y.1.portNamed? "image" = some q ∧ (⟨p.id, q.id⟩ : Link) ∈ g.links

/-- The graph has one link more, from the output of the one node to the image of the other. -/
def Joins (g : Graph) (x y : Node × String) (g' : Graph) : Prop :=
  ∃ p q, x.1.portNamed? x.2 = some p ∧ y.1.portNamed? "image" = some q ∧
    g'.links = g.links ++ [⟨p.id, q.id⟩]

section Joins

variable {g g' : Graph} {x y : Node × String}

theorem Joins.joined (h : Joins g x y g') : Joined g' x y := by
  obtain ⟨p, q, hp, hq, hl⟩ := h
  refine ⟨p, q, hp, hq, ?_⟩
  rw [hl]
  exact List.mem_append_right _ (List.mem_singleton.2 rfl)

theorem Joins.kept (h : Joins g x y g') {l : Link} (hl : l ∈ g.links) : l ∈ g'.links := by
  obtain ⟨_, _, _, _, hl'⟩ := h
  rw [hl']
  exact List.mem_append_left _ hl

theorem Joins.links (h : Joins g x y g') {l : Link} (hl : l ∈ g'.links) : l ∈ g.links ∨
    ∃ p q, x.1.portNamed? x.2 = some p ∧ y.1.portNamed? "image" = some q ∧ l = ⟨p.id, q.id⟩ := by
  obtain ⟨p, q, hp, hq, hl'⟩ := h
  rw [hl'] at hl
  exact (List.mem_append.1 hl).imp_right fun hl => ⟨p, q, hp, hq, List.mem_singleton.1 hl⟩

theorem Joined.mono (h : Joined g x y) (hl : ∀ l ∈ g.links, l ∈ g'.links) : Joined g' x y := by
  obtain ⟨p, q, hp, hq, hm⟩ := h
  exact ⟨p, q, hp, hq, hl _ hm⟩

end Joins

/-- **The engine is in order, its nodes are these, and links enter them at their images only.** Each
node stands with the name of the output that is to be linked. -/
structure Standing (P : Palette) (files : FileStore) (nodes : List (Node × String)) (e : Engine) :
    Prop where
  inOrder : e.InOrder P (nodes.map (·.1.id))
  files : e.files = files
  distinct : (nodes.map (·.1.id)).Nodup
  hosts : ∀ x ∈ nodes, e.graph.Hosts x.1
  entered : ∀ l ∈ e.graph.links, ∃ x ∈ nodes, ∃ q, x.1.portNamed? "image" = some q ∧ l.sink = q.id

variable {P : Palette} {files : FileStore} {nodes : List (Node × String)} {e : Engine}

theorem standing_new (P : Palette) (options : EngineOptions) (files : FileStore) :
    Standing P files [] (.new options files) where
  inOrder := Engine.inOrder_new P options files
  files := rfl
  distinct := List.nodup_nil
  hosts _ h := (List.not_mem_nil h).elim
  entered _ h := (List.not_mem_nil h).elim

namespace Standing

/-- **A stage can be added.** -/
theorem addStage (h : Standing P files nodes e) {s : Stage} (hs : P.variants s.variant) :
    ∃ stamp e', Pipeline.addStage e s = .ok ((s.node stamp).id, e') ∧
      Standing P files (nodes ++ [(s.node stamp, s.output)]) e' ∧
        e'.graph.links = e.graph.links := by
  have minted : e.mint.2.InOrder P (nodes.map (·.1.id)) :=
    h.inOrder.act_of_nil (a := .mint) trivial rfl
  have new : (s.node e.stamp).id ∉ nodes.map (·.1.id) := by
    rw [s.node_id]
    exact fun hm => (h.inOrder.named _ hm).ne_mint rfl
  obtain ⟨absent, free⟩ := h.inOrder.rest.known.fresh h.inOrder.rest.sound s.variant
  rw [← s.node_id] at absent
  rw [← s.node_portIds] at free
  have added : e.graph.perform (.add (s.node e.stamp)) =
      .ok ((e.graph.insert (s.node e.stamp)).performAdd (s.node e.stamp)) := by
    rw [Graph.perform, Graph.add_of_fresh absent free]
    rfl
  have admissible : (Action.edit (.add (s.node e.stamp))).Admissible e.mint.2 :=
    ⟨s.node_wellFormed e.stamp, List.forall_mem_singleton.2 (s.node_known e.stamp)⟩
  have blank := s.node_blank e.stamp
  obtain ⟨e', report, edited, order, files, bare⟩ := minted.edit admissible added
    (by rintro ⟨⟩) (List.forall_mem_singleton.2
      ⟨s.node_ofPalette e.stamp hs, blank.1, blank.2, new⟩)
  have links : e'.graph.links = e.graph.links := Graph.links_of_bare (g := e.graph.insert _) bare
  refine ⟨e.stamp, e', ?_, ⟨?_, files.trans h.files, ?_, ?_, ?_⟩, links⟩
  · rw [Pipeline.addStage]
    show (e.mint.2.edit (.add (s.node e.stamp)) >>= _) = _
    rw [edited]
    rfl
  · rw [List.map_append]
    exact order
  · rw [List.map_append, List.map_singleton, ← List.concat_eq_append]
    exact h.distinct.concat new
  · intro x hx
    refine Graph.Hosts.of_bare (g := e.graph.insert (s.node e.stamp)) ?_ bare
    rcases List.mem_append.1 hx with hx | hx
    · exact (h.hosts x hx).insert absent
    · exact List.mem_singleton.1 hx ▸ Graph.hosts_insert _ _
  · intro l hl
    obtain ⟨x, hx, entered⟩ := h.entered l (links ▸ hl)
    exact ⟨x, List.mem_append_left _ hx, entered⟩

/-- **All stages can be added**, one after the other. -/
theorem addStages (h : Standing P files nodes e) (stages : List Stage)
    (hs : ∀ s ∈ stages, P.variants s.variant) : ∃ new e',
      Pipeline.addStages stages e = .ok (new.map fun x => (x.1.id, x.2), e') ∧
        List.Forall₂ (fun s x => ∃ stamp, x = (s.node stamp, s.output)) stages new ∧
          Standing P files (nodes ++ new) e' ∧ e'.graph.links = e.graph.links := by
  induction stages generalizing nodes e with
  | nil => exact ⟨[], e, rfl, .nil, by rwa [List.append_nil], rfl⟩
  | cons s stages ih =>
    obtain ⟨stamp, e₁, added, h₁, links₁⟩ := h.addStage (hs s (by simp))
    obtain ⟨new, e₂, rest, match₂, h₂, links₂⟩ := ih h₁ fun s hm => hs s (by simp [hm])
    refine ⟨(s.node stamp, s.output) :: new, e₂, ?_, .cons ⟨stamp, rfl⟩ match₂, ?_,
      links₂.trans links₁⟩
    · rw [Pipeline.addStages, added]
      show (Pipeline.addStages stages e₁ >>= _) = _
      rw [rest]
      rfl
    · rwa [List.append_assoc] at h₂

/-! ## Links -/

variable {x y z : Node × String}

/-- No port is of two nodes. -/
theorem disjoint (h : Standing P files nodes e) (hx : x ∈ nodes) (hz : z ∈ nodes)
    (hne : z.1.id ≠ x.1.id) {s : PortId} (hs : s ∈ x.1.portIds) : s ∉ z.1.portIds := fun hs' =>
  have sound := h.inOrder.rest.sound
  have here := ((h.hosts x hx).owner?_eq sound).2 hs
  have there := ((h.hosts z hz).owner?_eq sound).2 hs'
  hne (Option.some.inj (there.symm.trans here))

theorem linkable (h : Standing P files nodes e) (hx : x ∈ nodes) (hy : y ∈ nodes)
    (hne : x.1.id ≠ y.1.id) {p q : Port} (hp : p ∈ x.1.sources) (hq : q ∈ y.1.sinks)
    (ht : p.type = q.type) (free : e.graph.Untouched y.1) : e.graph.Linkable p.id q.id := by
  obtain ⟨hpm, hpk⟩ := List.mem_filter.1 hp
  obtain ⟨hqm, hqk⟩ := List.mem_filter.1 hq
  refine ⟨x.1.id, y.1.id, p, q, (h.hosts x hx).carries hpm, (h.hosts y hy).carries hqm,
    eq_of_beq hpk, eq_of_beq hqk, ht,
    fun l hl hs => (free l hl).2 (hs ▸ List.mem_map_of_mem hqm), fun hr => ?_⟩
  -- The node that is linked to feeds no other.
  rcases ReflTransGen.cases_head hr with hyx | ⟨_, ⟨l, hl, ho, _⟩, _⟩
  · exact hne hyx.symm
  · exact (free l hl).1 (((h.hosts y hy).owner?_eq h.inOrder.rest.sound).1 ho)

/-- **A node can be linked to one that nothing touches yet.** -/
theorem link (h : Standing P files nodes e) (hx : x ∈ nodes) (hy : y ∈ nodes)
    (hne : x.1.id ≠ y.1.id) (gives : x.1.Gives x.2) (takes : y.1.Takes)
    (free : e.graph.Untouched y.1) : ∃ answer e' report,
      e.edit (.connectNamed x.1.id x.2 y.1.id "image") = .ok (answer, e', report) ∧
        Standing P files nodes e' ∧ Joins e.graph x y e'.graph := by
  obtain ⟨p, hs, hp, -, hpt⟩ := gives
  obtain ⟨q, others, ht, hq, -, hqt, -⟩ := takes
  have source : p ∈ x.1.sources := by
    rw [hs]
    exact List.mem_singleton.2 rfl
  have sink : q ∈ y.1.sinks := by
    rw [ht]
    exact List.mem_cons_self ..
  have linkable := h.linkable hx hy hne source sink (hpt.trans hqt.symm) free
  obtain ⟨g', hc⟩ := linkable.connect h.inOrder.rest.sound
  have gains := h.inOrder.rest.sound.gains hc
  obtain ⟨r, hr, rfl, ha⟩ := Graph.performConnect_of_ok hc
  have linked : e.graph.perform (.connectNamed x.1.id x.2 y.1.id "image") = .ok r := by
    rw [Graph.perform, (h.hosts x hx).findPort hp, (h.hosts y hy).findPort hq]
    exact hr
  have admissible : (Action.edit (.connectNamed x.1.id x.2 y.1.id "image")).Admissible e :=
    ⟨trivial, fun _ hn => (List.not_mem_nil hn).elim⟩
  obtain ⟨e', report, edited, order, files, bare⟩ := h.inOrder.edit admissible linked
    (by rw [ha]; rintro ⟨⟩) fun _ hn => (List.not_mem_nil hn).elim
  have joins : Joins e.graph x y e'.graph :=
    ⟨p, q, hp, hq, (Graph.links_of_bare bare).trans gains.links⟩
  refine ⟨_, e', report, edited, ⟨?_, files.trans h.files, h.distinct, ?_, ?_⟩, joins⟩
  · have none : (Edit.connectNamed x.1.id x.2 y.1.id "image").newcomers = [] := rfl
    rwa [none, List.map_nil, List.append_nil] at order
  · exact fun z hz => (gains.hosts (h.hosts z hz)).of_bare bare
  · intro l hl
    rcases joins.links hl with hl | ⟨p, q, -, hq, rfl⟩
    · exact h.entered l hl
    · exact ⟨y, hy, q, hq, rfl⟩

/-- What nothing touches and is not linked stays so. -/
theorem untouched (h : Standing P files nodes e) {e' : Engine} (hx : x ∈ nodes) (hy : y ∈ nodes)
    (hz : z ∈ nodes) (hzx : z.1.id ≠ x.1.id) (hzy : z.1.id ≠ y.1.id)
    (joins : Joins e.graph x y e'.graph) (free : e.graph.Untouched z.1) :
    e'.graph.Untouched z.1 := by
  intro l hl
  rcases joins.links hl with hl | ⟨p, q, hp, hq, rfl⟩
  · exact free l hl
  · have source := List.mem_map_of_mem (f := (·.id)) (List.mem_of_find?_eq_some hp)
    have sink := List.mem_map_of_mem (f := (·.id)) (List.mem_of_find?_eq_some hq)
    exact ⟨h.disjoint hx hz hzx source, h.disjoint hy hz hzy sink⟩

/-- **Every node of a chain can be linked to the next one** if nothing touches any but the first. -/
theorem linkStages {chain : List (Node × String)} (h : Standing P files nodes e)
    (hsub : ∀ x ∈ chain, x ∈ nodes) (hd : (chain.map (·.1.id)).Nodup)
    (gives : ∀ x ∈ chain, x.1.Gives x.2) (takes : ∀ x ∈ chain.tail, x.1.Takes)
    (free : ∀ x ∈ chain.tail, e.graph.Untouched x.1) : ∃ e',
      Pipeline.linkStages (chain.map fun x => (x.1.id, x.2)) e = .ok e' ∧
        Standing P files nodes e' ∧ chain.IsChain (Joined e'.graph) ∧
          ∀ l ∈ e.graph.links, l ∈ e'.graph.links := by
  induction chain generalizing e with
  | nil => exact ⟨e, rfl, h, .nil, fun _ h => h⟩
  | cons x rest ih =>
    cases rest with
    | nil => exact ⟨e, rfl, h, .singleton x, fun _ h => h⟩
    | cons y rest =>
      obtain ⟨hx, hd⟩ := List.nodup_cons.1 hd
      obtain ⟨hy, -⟩ := List.nodup_cons.1 hd
      have apart : ∀ z ∈ rest, z.1.id ≠ x.1.id ∧ z.1.id ≠ y.1.id := fun z hz =>
        ⟨fun e => hx (List.mem_map.2 ⟨z, List.mem_cons_of_mem _ hz, e⟩),
          fun e => hy (List.mem_map.2 ⟨z, hz, e⟩)⟩
      have later : ∀ z ∈ y :: rest, z ∈ nodes := fun z hz => hsub z (List.mem_cons_of_mem _ hz)
      have first : x ∈ nodes := hsub x (List.mem_cons_self ..)
      have second : y ∈ nodes := later y (List.mem_cons_self ..)
      have differ : x.1.id ≠ y.1.id := fun e =>
        hx (List.mem_map.2 ⟨y, List.mem_cons_self .., e.symm⟩)
      obtain ⟨answer, e₁, report, linked, h₁, joins⟩ := h.link first second differ
        (gives x (List.mem_cons_self ..)) (takes y (List.mem_cons_self ..))
        (free y (List.mem_cons_self ..))
      have free' : ∀ z ∈ rest, e₁.graph.Untouched z.1 := fun z hz =>
        h.untouched first second (later z (List.mem_cons_of_mem _ hz)) (apart z hz).1
          (apart z hz).2 joins (free z (List.mem_cons_of_mem _ hz))
      obtain ⟨e₂, rest_linked, h₂, chain₂, kept⟩ := ih h₁ later hd
        (fun z hz => gives z (List.mem_cons_of_mem _ hz))
        (fun z hz => takes z (List.mem_cons_of_mem _ hz)) free'
      refine ⟨e₂, ?_, h₂, .cons_cons (joins.joined.mono kept) chain₂, fun l hl =>
        kept l (joins.kept hl)⟩
      rw [List.map_cons, List.map_cons, Pipeline.linkStages, linked]
      exact rest_linked

end Standing

end Pipeline

end PixelFlow
