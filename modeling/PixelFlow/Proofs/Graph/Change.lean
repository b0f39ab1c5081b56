import Mathlib.Data.List.Nodup
import PixelFlow.Graph.Change
import PixelFlow.Proofs.Graph.Sound

/-!
# Changes keep graphs sound

For each change there is a description of what it does to nodes and links, and from it a proof that
a sound graph stays sound.

* `Graph.node?_insert`, `Graph.node?_disconnect`, `Graph.node?_remove`: nodes after a change.
* `Graph.add_ok`, `Graph.connect_ok`, `Graph.setParameters_ok`: what an accepted change has passed.
* **`Graph.Sound.insert`**, **`Graph.Sound.disconnect`**, **`Graph.Sound.remove`**,
  **`Graph.Sound.connect`**, **`Graph.Sound.setParameters`**: soundness.
-/

namespace PixelFlow.Graph

open Relation

variable {g g' : Graph}

/-! ## Single nodes -/

theorem node?_modifyNode (g : Graph) (id j : NodeId) (f : Node → Node) :
    (g.modifyNode id f).node? j = if id = j then (g.node? j).map f else g.node? j :=
  Table.get?_modify ..

/-- A change of one node keeps a graph sound if the node keeps its name and its ports. -/
theorem Sound.modifyNode (hg : g.Sound) (id : NodeId) {f : Node → Node}
    (hf : ∀ n, (f n).id = n.id ∧ (f n).ports = n.ports) : (g.modifyNode id f).Sound := by
  refine hg.of_ports rfl rfl rfl fun j => ?_
  rw [node?_modifyNode]
  split
  · rw [Option.map_map]
    refine congrArg (Option.map · (g.node? j)) (funext fun n => ?_)
    rw [Function.comp, (hf n).1, (hf n).2]
  · rfl

theorem Sound.markDirty (hg : g.Sound) (id : NodeId) : (g.markDirty id).Sound :=
  hg.modifyNode id fun _ => ⟨rfl, rfl⟩

/-! ## Insertion -/

theorem node?_insert (g : Graph) (n : Node) (j : NodeId) :
    (g.insert n).node? j = if n.id = j then some n.markDirty else g.node? j := Table.get?_insert ..

theorem owner?_insert (g : Graph) (n : Node) (p : PortId) :
    (g.insert n).owner? p = if p ∈ n.portIds then some n.id else g.owner? p :=
  Table.get?_insertMany_const ..

theorem add_ok {n : Node} (h : g.add n = .ok g') :
    g.node? n.id = none ∧ (∀ p ∈ n.portIds, g.owner? p = none) ∧ g' = g.insert n := by
  rw [add] at h
  split at h
  · cases h
  · next hn =>
    split at h
    · cases h
    · next hp =>
      refine ⟨Table.contains_eq_false_iff.1 (by simpa [hasNode] using hn), fun p hm => ?_,
        (Except.ok.inj h).symm⟩
      have := List.find?_eq_none.1 hp p hm
      exact Table.contains_eq_false_iff.1 (by simpa using this)

theorem add_of_fresh {n : Node} (hn : g.node? n.id = none) (hp : ∀ p ∈ n.portIds, g.owner? p = none) :
    g.add n = .ok (g.insert n) := by
  have absent : g.hasNode n.id = false := Table.contains_eq_false_iff.2 hn
  have free : n.portIds.find? g.owners.contains = none := by
    refine List.find?_eq_none.2 fun p hm => ?_
    rw [Table.contains_eq_false_iff.2 (hp p hm)]
    exact Bool.false_ne_true
  rw [add, absent, if_neg Bool.false_ne_true, free]

/-- **A well-formed node whose name and ports are new may come in.** -/
theorem Sound.insert (hg : g.Sound) {n : Node} (hw : n.WellFormed) (hn : g.node? n.id = none)
    (hp : ∀ p ∈ n.portIds, g.owner? p = none) : (g.insert n).Sound := by
  have old : ∀ {p id}, g.owner? p = some id → (g.insert n).owner? p = some id := fun {p id} h => by
    rw [owner?_insert, if_neg, h]
    intro hm
    rw [hp p hm] at h
    cases h
  have node : ∀ {id m}, g.node? id = some m → (g.insert n).node? id = some m := fun {id m} h => by
    rw [node?_insert, if_neg, h]
    rintro rfl
    rw [hn] at h
    cases h
  have port : ∀ {p q}, g.port? p = some q → (g.insert n).port? p = some q := fun {p q} h => by
    obtain ⟨id, m, ho, hm, _⟩ := port?_eq_some h
    rw [← h, port?_eq_find? ho hm, port?_eq_find? (old ho) (node hm)]
  have feeds : (g.insert n).Feeds = g.Feeds := by
    funext a b
    refine propext ⟨fun ⟨l, hl, ha, hb⟩ => ?_, fun ⟨l, hl, ha, hb⟩ => ⟨l, hl, old ha, old hb⟩⟩
    obtain ⟨a', b', ha', hb', _⟩ := hg.link_feeds (l := l) hl
    refine ⟨l, hl, ?_, ?_⟩
    · rw [ha', ← old ha', ha]
    · rw [hb', ← old hb', hb]
  refine ⟨fun {id m} h => ?_, fun p id => ?_, hg.incoming, hg.nodup, fun l hl => ?_, ?_⟩
  · rw [node?_insert] at h
    split at h
    · next e => cases h; exact ⟨e, hw.nodup, hw.owned⟩
    · exact hg.named h
  · rw [owner?_insert]
    constructor
    · intro h
      split at h
      · next hm =>
        cases h
        exact ⟨n.markDirty, by rw [node?_insert, if_pos rfl], hm⟩
      · obtain ⟨m, hm, hpm⟩ := (hg.owners ..).1 h
        exact ⟨m, node hm, hpm⟩
    · rintro ⟨m, hm, hpm⟩
      rw [node?_insert] at hm
      split at hm
      · next e => cases hm; rw [if_pos (show p ∈ n.portIds from hpm), e]
      · have := (hg.owners p id).2 ⟨m, hm, hpm⟩
        rw [if_neg, this]
        intro hpn
        rw [hp p hpn] at this
        cases this
  · obtain ⟨p, q, hs, ht, h⟩ := hg.typed l hl
    exact ⟨p, q, port hs, port ht, h⟩
  · rw [feeds]
    exact hg.acyclic

/-! ## Disconnection -/

/-- The graph without a link that it has. -/
def unlinked (g : Graph) (l : Link) : Graph :=
  { g with links := g.links.erase l, incoming := g.incoming.erase l.sink }

theorem disconnect_of_mem {l : Link} (hl : l ∈ g.links) : g.disconnect l =
    match g.owner? l.sink with
    | some id => (g.unlinked l).markDirty id
    | none => g.unlinked l := by
  rw [disconnect, if_pos (by simpa [hasLink] using hl)]
  rfl

theorem disconnect_of_notMem {l : Link} (hl : l ∉ g.links) : g.disconnect l = g := by
  rw [disconnect, if_neg (by simpa [hasLink] using hl)]

theorem links_disconnect (g : Graph) (l : Link) : (g.disconnect l).links = g.links.erase l := by
  by_cases hl : l ∈ g.links
  · rw [disconnect_of_mem hl]
    split <;> rfl
  · rw [disconnect_of_notMem hl, List.erase_of_not_mem hl]

theorem owner?_disconnect (g : Graph) (l : Link) (p : PortId) :
    (g.disconnect l).owner? p = g.owner? p := by
  rw [disconnect]
  split
  · dsimp only
    split <;> rfl
  · rfl

theorem node?_disconnect (g : Graph) (l : Link) (j : NodeId) : (g.disconnect l).node? j =
    if l ∈ g.links ∧ g.owner? l.sink = some j then (g.node? j).map (·.markDirty)
    else g.node? j := by
  by_cases hl : l ∈ g.links
  · rw [disconnect_of_mem hl]
    split
    · next id ho =>
      rw [Graph.markDirty, node?_modifyNode, ho]
      simp only [hl, true_and, Option.some.injEq]
      rfl
    · next ho =>
      rw [if_neg (by rw [ho]; simp)]
      rfl
  · rw [disconnect_of_notMem hl, if_neg fun h => hl h.1]

theorem Sound.unlinked (hg : g.Sound) {l : Link} (hl : l ∈ g.links) : (g.unlinked l).Sound := by
  refine ⟨hg.named, hg.owners, fun s k => ?_, hg.nodup.erase l, fun k hk => ?_, fun id h => ?_⟩
  · show (g.incoming.erase l.sink).get? s = some k ↔ k ∈ g.links.erase l ∧ k.sink = s
    rw [Table.get?_erase, hg.nodup.mem_erase_iff]
    split
    · next e =>
      refine iff_of_false (fun h => Option.some_ne_none k h.symm) ?_
      rintro ⟨⟨hk, hm⟩, hs⟩
      exact hk (hg.sink_unique hm hl (hs.trans e.symm))
    · next e =>
      rw [show g.incoming.get? s = g.incoming? s from rfl, hg.incoming]
      refine and_congr_left fun hs => (and_iff_right ?_).symm
      rintro rfl
      exact e hs
  · exact hg.typed k (List.mem_of_mem_erase hk)
  · refine hg.acyclic id (TransGen.mono (fun a b hab => ?_) _ _ h)
    obtain ⟨k, hk, hf⟩ := hab
    exact ⟨k, List.mem_of_mem_erase hk, hf⟩

/-- **Any link may be taken away, also one that is not there.** -/
theorem Sound.disconnect (hg : g.Sound) (l : Link) : (g.disconnect l).Sound := by
  by_cases hl : l ∈ g.links
  · rw [disconnect_of_mem hl]
    split
    · exact (hg.unlinked hl).markDirty _
    · exact hg.unlinked hl
  · rwa [disconnect_of_notMem hl]

/-! ## Removal -/

theorem Sound.disconnectAll (hg : g.Sound) (ls : List Link) :
    (ls.foldl Graph.disconnect g).Sound := by
  induction ls generalizing g with
  | nil => exact hg
  | cons l ls ih => exact ih (hg.disconnect l)

theorem links_disconnectAll (g : Graph) (ls : List Link) :
    (ls.foldl Graph.disconnect g).links = g.links.diff ls := by
  induction ls generalizing g with
  | nil => rfl
  | cons l ls ih => rw [List.foldl_cons, ih, links_disconnect, List.diff_cons]

theorem owner?_disconnectAll (g : Graph) (ls : List Link) (p : PortId) :
    (ls.foldl Graph.disconnect g).owner? p = g.owner? p := by
  induction ls generalizing g with
  | nil => rfl
  | cons l ls ih => rw [List.foldl_cons, ih, owner?_disconnect]

theorem node?_disconnectAll (g : Graph) (ls : List Link) (j : NodeId) :
    (ls.foldl Graph.disconnect g).node? j =
      if ∃ l ∈ ls, l ∈ g.links ∧ g.owner? l.sink = some j then (g.node? j).map (·.markDirty)
      else g.node? j := by
  induction ls generalizing g with
  | nil => simp
  | cons l ls ih =>
    rw [List.foldl_cons, ih, node?_disconnect, links_disconnect]
    simp only [owner?_disconnect]
    by_cases hl : l ∈ g.links ∧ g.owner? l.sink = some j
    · have : ∃ k ∈ l :: ls, k ∈ g.links ∧ g.owner? k.sink = some j := ⟨l, by simp, hl⟩
      rw [if_pos hl, if_pos this, Option.map_map]
      split <;> rfl
    · rw [if_neg hl]
      refine if_congr ⟨fun ⟨k, hk, hm, ho⟩ => ?_, fun ⟨k, hk, hm, ho⟩ => ?_⟩ rfl rfl
      · exact ⟨k, List.mem_cons_of_mem _ hk, List.mem_of_mem_erase hm, ho⟩
      · rcases List.mem_cons.1 hk with rfl | hk
        · exact (hl ⟨hm, ho⟩).elim
        · refine ⟨k, hk, (List.mem_erase_of_ne ?_).2 hm, ho⟩
          rintro rfl
          exact hl ⟨hm, ho⟩

/-- What is left when the links of a node are gone and the node goes too. -/
def without (g : Graph) (n : Node) : Graph :=
  { g with nodes := g.nodes.erase n.id, owners := n.portIds.foldl Table.erase g.owners }

/-- A node that no link touches may go. -/
theorem Sound.without (hg : g.Sound) {n : Node} (hn : g.node? n.id = some n)
    (hl : ∀ l ∈ g.links, l.source ∉ n.portIds ∧ l.sink ∉ n.portIds) : (g.without n).Sound := by
  have node : ∀ j, (g.without n).node? j = if n.id = j then none else g.node? j := fun j =>
    Table.get?_erase ..
  have owner : ∀ p, (g.without n).owner? p = if p ∈ n.portIds then none else g.owner? p := fun p =>
    Table.get?_eraseMany ..
  have old : ∀ {p}, p ∉ n.portIds → (g.without n).owner? p = g.owner? p := fun h => by
    rw [owner, if_neg h]
  have port : ∀ {p q}, p ∉ n.portIds → g.port? p = some q → (g.without n).port? p = some q := by
    intro p q hp h
    obtain ⟨id, m, ho, hm, _⟩ := port?_eq_some h
    have hne : n.id ≠ id := by
      rintro rfl
      obtain ⟨m', hm', hpm⟩ := (hg.owners ..).1 ho
      rw [hn] at hm'
      cases hm'
      exact hp hpm
    rw [← h, port?_eq_find? ho hm, port?_eq_find? ((old hp).trans ho) (by rw [node, if_neg hne, hm])]
  refine ⟨fun {id m} h => ?_, fun p id => ?_, hg.incoming, hg.nodup, fun l hm => ?_, fun id h => ?_⟩
  · rw [node] at h
    split at h
    · cases h
    · exact hg.named h
  · rw [owner]
    constructor
    · intro h
      split at h
      · cases h
      · next hp =>
        obtain ⟨m, hm, hpm⟩ := (hg.owners ..).1 h
        refine ⟨m, ?_, hpm⟩
        rw [node, if_neg, hm]
        rintro rfl
        rw [hn] at hm
        cases hm
        exact hp hpm
    · rintro ⟨m, hm, hpm⟩
      rw [node] at hm
      split at hm
      · cases hm
      · next hne =>
        have ho := (hg.owners p id).2 ⟨m, hm, hpm⟩
        rw [if_neg, ho]
        intro hp
        rw [(hg.owners p n.id).2 ⟨n, hn, hp⟩] at ho
        exact hne (Option.some.inj ho)
  · obtain ⟨p, q, hs, ht, h⟩ := hg.typed l hm
    exact ⟨p, q, port (hl l hm).1 hs, port (hl l hm).2 ht, h⟩
  · refine hg.acyclic id (TransGen.mono (fun a b ⟨l, hm, ha, hb⟩ => ⟨l, hm, ?_, ?_⟩) _ _ h)
    · rwa [old (hl l hm).1] at ha
    · rwa [old (hl l hm).2] at hb

theorem mem_incident {id : NodeId} {n : Node} (hn : g.node? id = some n) {l : Link} :
    l ∈ g.incident id ↔ l ∈ g.links ∧ (l.source ∈ n.portIds ∨ l.sink ∈ n.portIds) := by
  rw [incident, hn]
  simp

theorem incident_subset {id : NodeId} {l : Link} (h : l ∈ g.incident id) : l ∈ g.links := by
  rw [incident] at h
  split at h
  · cases h
  · exact (List.mem_filter.1 h).1

theorem remove_of_none {id : NodeId} (hn : g.node? id = none) : g.remove id = g := by
  rw [remove, hn]

theorem remove_of_some {id : NodeId} {n : Node} (hn : g.node? id = some n) : g.remove id =
    { (g.incident id).foldl Graph.disconnect g with
      nodes := ((g.incident id).foldl Graph.disconnect g).nodes.erase id
      owners := n.portIds.foldl Table.erase ((g.incident id).foldl Graph.disconnect g).owners } := by
  rw [remove, hn]

theorem node?_remove (g : Graph) (id j : NodeId) : (g.remove id).node? j =
    if id = j then none
    else if ∃ l ∈ g.incident id, g.owner? l.sink = some j then (g.node? j).map (·.markDirty)
    else g.node? j := by
  cases hn : g.node? id with
  | none =>
    rw [remove_of_none hn, incident, hn]
    split
    · next e => rw [← e, hn]
    · simp
  | some n =>
    rw [remove_of_some hn]
    show (((g.incident id).foldl Graph.disconnect g).nodes.erase id).get? j = _
    rw [Table.get?_erase]
    refine if_congr Iff.rfl rfl ?_
    show ((g.incident id).foldl Graph.disconnect g).node? j = _
    rw [node?_disconnectAll]
    refine if_congr (exists_congr fun l => and_congr_right fun hl => ?_) rfl rfl
    exact and_iff_right (incident_subset hl)

theorem owner?_remove {id : NodeId} {n : Node} (hn : g.node? id = some n) (p : PortId) :
    (g.remove id).owner? p = if p ∈ n.portIds then none else g.owner? p := by
  rw [remove_of_some hn]
  show (n.portIds.foldl Table.erase ((g.incident id).foldl Graph.disconnect g).owners).get? p = _
  rw [Table.get?_eraseMany]
  refine if_congr Iff.rfl rfl ?_
  exact owner?_disconnectAll ..

theorem links_remove (g : Graph) (id : NodeId) :
    (g.remove id).links = g.links.diff (g.incident id) := by
  cases hn : g.node? id with
  | none => rw [remove_of_none hn, incident, hn]; rfl
  | some n =>
    rw [remove_of_some hn]
    exact links_disconnectAll ..

/-- **Any node may be removed, also one that is not there.** -/
theorem Sound.remove (hg : g.Sound) (id : NodeId) : (g.remove id).Sound := by
  cases hn : g.node? id with
  | none => rwa [remove_of_none hn]
  | some n =>
    obtain rfl := hg.id_eq hn
    have hs := hg.disconnectAll (g.incident n.id)
    -- The node itself may have become dirty on the way; its ports are the same.
    obtain ⟨m, hm, hi, hp⟩ : ∃ m, ((g.incident n.id).foldl Graph.disconnect g).node? n.id = some m ∧
        m.id = n.id ∧ m.portIds = n.portIds := by
      rw [node?_disconnectAll, hn]
      split
      · exact ⟨n.markDirty, rfl, rfl, rfl⟩
      · exact ⟨n, rfl, rfl, rfl⟩
    have hw := hs.without (n := m) (by rw [hi, hm]) fun l hl => by
      rw [links_disconnectAll, hg.nodup.mem_sdiff_iff, mem_incident hn] at hl
      rw [hp]
      exact not_or.1 fun h => hl.2 ⟨hl.1, h⟩
    rwa [Graph.without, hp, hi, ← remove_of_some hn] at hw

/-! ## Connection -/

/-- One more edge leads from `a` to `b`: a path uses it or does not. -/
theorem transGen_or_edge {α : Type} {r : α → α → Prop} {a b x y : α}
    (h : TransGen (fun u v => r u v ∨ u = a ∧ v = b) x y) :
    TransGen r x y ∨ ReflTransGen r x a ∧ ReflTransGen r b y := by
  induction h with
  | single h =>
    rcases h with h | ⟨rfl, rfl⟩
    · exact .inl (.single h)
    · exact .inr ⟨.refl, .refl⟩
  | tail _ h ih =>
    rcases h with h | ⟨rfl, rfl⟩
    · rcases ih with ih | ⟨ha, hb⟩
      · exact .inl (ih.tail h)
      · exact .inr ⟨ha, hb.tail h⟩
    · rcases ih with ih | ⟨ha, _⟩
      · exact .inr ⟨ih.to_reflTransGen, .refl⟩
      · exact .inr ⟨ha, .refl⟩

/-- The graph with one more link. -/
def linked (g : Graph) (l : Link) : Graph :=
  { g with
    links := if l ∈ g.links then g.links else g.links ++ [l]
    incoming := g.incoming.insert l.sink l }

theorem connect_ok {source sink : PortId} (h : g.connect source sink = .ok g') :
    ∃ p q, g.port? source = some p ∧ g.port? sink = some q ∧ p.kind = .source ∧ q.kind = .sink ∧
      p.type = q.type ∧ g.incoming? sink = none ∧ ¬ g.reaches q.node p.node ∧
      g' = (g.linked ⟨source, sink⟩).markDirty q.node := by
  simp only [connect, port, bind, Except.bind] at h
  split at h
  · cases h
  · next p hp =>
    split at hp <;> cases hp
    next hp =>
    split at h
    · cases h
    · next q hq =>
      split at hq <;> cases hq
      next hq =>
      split at h
      · cases h
      · next hk =>
        split at h
        · cases h
        · next ht =>
          split at h
          · cases h
          · next hi =>
            split at h
            · cases h
            · next hr =>
              have hk := not_or.1 hk
              refine ⟨p, q, hp, hq, not_not.1 hk.1, not_not.1 hk.2, ?_, hi, hr,
                (Except.ok.inj h).symm⟩
              simp only [connectable, Bool.and_eq_true, beq_iff_eq, Bool.not_eq_true,
                Bool.not_eq_false'] at ht
              exact ht.2

/-- **An accepted link keeps the graph sound.** -/
theorem Sound.connect (hg : g.Sound) {source sink : PortId} (h : g.connect source sink = .ok g') :
    g'.Sound := by
  obtain ⟨p, q, hp, hq, hpk, hqk, ht, hi, hr, rfl⟩ := connect_ok h
  have free : ∀ l ∈ g.links, l.sink ≠ sink := fun l hl e => by
    rw [(hg.incoming sink l).2 ⟨hl, e⟩] at hi
    cases hi
  have hl : (⟨source, sink⟩ : Link) ∉ g.links := fun h => free _ h rfl
  refine Sound.markDirty ?_ _
  have links : ∀ l, l ∈ (g.linked ⟨source, sink⟩).links ↔ l ∈ g.links ∨ l = ⟨source, sink⟩ :=
    fun l => by simp [linked, hl]
  refine ⟨hg.named, hg.owners, fun s l => ?_, ?_, fun l hm => ?_, fun id h => ?_⟩
  · rw [links]
    show (g.incoming.insert sink ⟨source, sink⟩).get? s = some l ↔ _
    rw [Table.get?_insert]
    split
    · next e =>
      subst e
      constructor
      · rintro h
        cases h
        exact ⟨.inr rfl, rfl⟩
      · rintro ⟨hm | rfl, hs⟩
        · exact (free l hm hs).elim
        · rfl
    · next e =>
      rw [show g.incoming.get? s = g.incoming? s from rfl, hg.incoming]
      refine and_congr_left fun hs => (or_iff_left ?_).symm
      rintro rfl
      exact e hs
  · simp only [linked, hl, if_false]
    exact List.nodup_append.2 ⟨hg.nodup, by simp, fun a ha b hb e =>
      hl (by rwa [← List.mem_singleton.1 hb, ← e])⟩
  · rcases (links l).1 hm with hm | rfl
    · exact hg.typed l hm
    · exact ⟨p, q, hp, hq, hpk, hqk, ht⟩
  · have feeds : ∀ a b, (g.linked ⟨source, sink⟩).Feeds a b →
        g.Feeds a b ∨ a = p.node ∧ b = q.node := by
      rintro a b ⟨l, hm, ha, hb⟩
      rcases (links l).1 hm with hm | rfl
      · exact .inl ⟨l, hm, ha, hb⟩
      · refine .inr ⟨?_, ?_⟩
        · exact Option.some.inj (ha.symm.trans (hg.owner?_of_port? hp))
        · exact Option.some.inj (hb.symm.trans (hg.owner?_of_port? hq))
    rcases transGen_or_edge (TransGen.mono feeds _ _ h) with h | ⟨ha, hb⟩
    · exact hg.acyclic id h
    · exact hr (reaches_iff.2 (hb.trans ha))

/-! ## Parameters -/

theorem setParameters_ok {id : NodeId} {ps : Parameters} (h : g.setParameters id ps = .ok g') :
    ∃ n, g.node? id = some n ∧ g' = g.modifyNode id fun n =>
      { n with parameters := n.parameters.insertMany ps.entries }.markDirty := by
  simp only [setParameters, node, bind, Except.bind] at h
  split at h
  · cases h
  · next n hn =>
    split at hn <;> cases hn
    next hn =>
    split at h
    · cases h
    · exact ⟨n, hn, (Except.ok.inj h).symm⟩

theorem of_forM_ok {ε α : Type} {check : α → Except ε PUnit} {l : List α} {u : PUnit}
    (h : l.forM check = .ok u) : ∀ a ∈ l, check a = .ok u := by
  induction l with
  | nil => exact fun _ ha => (List.not_mem_nil ha).elim
  | cons b l ih =>
    rw [List.forM] at h
    cases hb : check b with
    | error x =>
      rw [hb] at h
      cases h
    | ok v =>
      rw [hb] at h
      exact List.forall_mem_cons.2 ⟨hb, ih h⟩

/-- Parameters that are set have passed their checks. -/
theorem setParameters_checked {id : NodeId} {n : Node} {ps : Parameters}
    (h : g.setParameters id ps = .ok g') (hn : g.node? id = some n) :
    ∀ e ∈ ps.entries, checkParameter n id e.1 e.2 = .ok () := by
  simp only [setParameters, node, hn, bind, Except.bind] at h
  split at h
  · cases h
  · next hc => exact of_forM_ok hc

theorem Sound.setParameters (hg : g.Sound) {id : NodeId} {ps : Parameters}
    (h : g.setParameters id ps = .ok g') : g'.Sound := by
  obtain ⟨n, _, rfl⟩ := setParameters_ok h
  exact hg.modifyNode id fun _ => ⟨rfl, rfl⟩

end PixelFlow.Graph
