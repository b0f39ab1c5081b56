import PixelFlow.Proofs.Graph.Edit

/-!
# Fresh identifiers

Identifiers are minted from stamps that go up. What was named before a stamp is known by then, and
what is minted under that stamp has a name and ports that nothing known has.

* `Uuid.Known`, `Node.Known`, `Graph.Known`: named before a stamp.
* `Node.new_wellFormed`, `Node.new_known`: a new node.
* **`Graph.Known.fresh`**: what is minted next collides with nothing in the graph.
* `Graph.Revises.known`: an edit that brings known nodes leaves the graph known.
-/

namespace PixelFlow

/-- The identifier is none of those that will be minted from the stamp on. -/
def Uuid.Known (stamp : Nat) (u : Uuid) : Prop := ∀ s i, u = .mint s i → s < stamp

/-- The name and the ports of the node are known. -/
structure Node.Known (stamp : Nat) (n : Node) : Prop where
  id : n.id.uuid.Known stamp
  ports : ∀ p ∈ n.portIds, p.uuid.Known stamp

/-- Every node of the graph is known. -/
def Graph.Known (stamp : Nat) (g : Graph) : Prop := ∀ id n, g.node? id = some n → n.Known stamp

theorem Uuid.Known.mono {s t : Nat} {u : Uuid} (h : u.Known s) (hst : s ≤ t) : u.Known t :=
  fun r i e => Nat.lt_of_lt_of_le (h r i e) hst

theorem Uuid.known_mint {s t i : Nat} (h : s < t) : (Uuid.mint s i).Known t :=
  fun _ _ e => (Uuid.mint_injective e).1 ▸ h

theorem Uuid.Known.ne_mint {s i : Nat} {u : Uuid} (h : u.Known s) : u ≠ .mint s i :=
  fun e => Nat.lt_irrefl s (h s i e)

theorem Node.Known.mono {s t : Nat} {n : Node} (h : n.Known s) (hst : s ≤ t) : n.Known t :=
  ⟨h.id.mono hst, fun p hp => (h.ports p hp).mono hst⟩

theorem Graph.Known.mono {s t : Nat} {g : Graph} (h : g.Known s) (hst : s ≤ t) : g.Known t :=
  fun id n hn => (h id n hn).mono hst

theorem Graph.known_empty (s : Nat) : Graph.empty.Known s := fun _ _ h => nomatch h

/-! ## New nodes -/

namespace Node

theorem portIds_build (v : Variant) (id : NodeId) (portId : Nat → PortId) :
    (build v id portId).portIds = (List.range v.metadata.ports.length).map portId := by
  rw [List.range_eq_range', ← List.zipIdx_map_snd 0 v.metadata.ports, List.map_map]
  exact List.map_map

/-- Ports of different numbers need different names. -/
theorem build_wellFormed (v : Variant) (id : NodeId) {portId : Nat → PortId}
    (h : ∀ i j, portId i = portId j → i = j) : (build v id portId).WellFormed where
  nodup := by
    rw [portIds_build]
    exact List.nodup_range.map h
  owned p hp := by
    obtain ⟨e, _, rfl⟩ := List.mem_map.1 hp
    rfl

theorem new_wellFormed (v : Variant) (stamp : Nat) : (new v stamp).WellFormed :=
  build_wellFormed v _ fun i j h => by
    have := (Uuid.mint_injective (PortId.mk.inj h)).2
    omega

theorem new_known (v : Variant) (stamp : Nat) : (new v stamp).Known (stamp + 1) where
  id := Uuid.known_mint (Nat.lt_succ_self _)
  ports p hp := by
    rw [new, portIds_build] at hp
    obtain ⟨i, _, rfl⟩ := List.mem_map.1 hp
    exact Uuid.known_mint (Nat.lt_succ_self _)

theorem portIds_withId (n : Node) (id : NodeId) : (n.withId id).portIds = n.portIds := by
  simp [portIds, withId, Function.comp_def]

theorem WellFormed.withId {n : Node} (h : n.WellFormed) (id : NodeId) :
    (n.withId id).WellFormed where
  nodup := by rw [portIds_withId]; exact h.nodup
  owned p hp := by
    obtain ⟨q, _, rfl⟩ := List.mem_map.1 hp
    rfl

theorem Known.withId {n : Node} {stamp : Nat} (h : n.Known stamp) {id : NodeId}
    (hi : id.uuid.Known stamp) : (n.withId id).Known stamp :=
  ⟨hi, by rw [portIds_withId]; exact h.ports⟩

theorem WellFormed.withParameter {n : Node} (h : n.WellFormed) (name : String) (v : ParamValue) :
    (n.withParameter name v).WellFormed := ⟨h.nodup, h.owned⟩

theorem Known.withParameter {n : Node} {stamp : Nat} (h : n.Known stamp) (name : String)
    (v : ParamValue) : (n.withParameter name v).Known stamp := ⟨h.id, h.ports⟩

end Node

namespace Graph

/-- **The node that is minted next collides with no node of a known graph.** -/
theorem Known.fresh {g : Graph} {stamp : Nat} (h : g.Known stamp) (hg : g.Sound) (v : Variant) :
    g.node? (Node.new v stamp).id = none ∧ ∀ p ∈ (Node.new v stamp).portIds, g.owner? p = none := by
  refine ⟨Option.eq_none_iff_forall_ne_some.2 fun n hn => ?_, fun p hp =>
    Option.eq_none_iff_forall_ne_some.2 fun id ho => ?_⟩
  · have hi := (h _ n hn).id
    rw [hg.id_eq hn] at hi
    exact hi.ne_mint rfl
  · obtain ⟨n, hn, hm⟩ := (hg.owners p id).1 ho
    rw [Node.new, Node.portIds_build] at hp
    obtain ⟨i, _, rfl⟩ := List.mem_map.1 hp
    exact ((h id n hn).ports _ hm).ne_mint rfl

/-- An edit that brings known nodes only leaves the graph known. -/
theorem Revises.known {g g' : Graph} {new : List Node} {touched : List NodeId} {stamp : Nat}
    (hr : g.Revises new g' touched) (hg : g.Known stamp) (hn : ∀ n ∈ new, n.Known stamp) :
    g'.Known stamp := by
  intro id n h
  by_cases ht : id ∈ touched
  · obtain ⟨n', hn', _, ⟨_, m, hm, _, rfl⟩ | ⟨m, ps, hm, rfl⟩⟩ := hr.dirty ht
    · rw [h] at hn'
      cases hn'
      exact ⟨(hn m hm).id, (hn m hm).ports⟩
    · rw [h] at hn'
      cases hn'
      exact ⟨(hg _ m hm).id, (hg _ m hm).ports⟩
  · exact hg id n (hr.kept ht h)

end Graph

end PixelFlow
