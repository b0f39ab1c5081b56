import PixelFlow.Graph.Edit
import PixelFlow.Proofs.Graph.Change

/-!
# What an edit leaves as it was

An edit touches some nodes, which are dirty afterwards. All other nodes are as they were, and so
are the values at their sinks.

* `Edit.newcomers`, `Edit.Admissible`: the nodes that an edit brings, and what they must be like.
* `Graph.Revises`: the graph after an edit, seen from the graph before.
* **`Graph.Sound.perform`**: every accepted edit of a sound graph revises it.
-/

namespace PixelFlow

/-- The nodes that an edit brings. -/
def Edit.newcomers : Edit → List Node
  | .add n | .addFresh n => [n]
  | _ => []

/-- The nodes that an edit brings are well-formed, and the names that it takes for new are new. -/
def Edit.Admissible (g : Graph) : Edit → Prop
  | .add n => n.WellFormed
  | .addFresh n => n.WellFormed ∧ g.node? n.id = none ∧ ∀ p ∈ n.portIds, g.owner? p = none
  | _ => True

namespace Graph

variable {g g' : Graph}

/-- **The graph is sound, touched nodes are dirty, and all others have kept what they are and what
is at their sinks.** -/
structure Revises (g : Graph) (new : List Node) (g' : Graph) (touched : List NodeId) : Prop where
  sound : g'.Sound
  news : new = [] ∨ ∃ m, new = [m] ∧ touched = [m.id] ∧ g.node? m.id = none
  kept : ∀ {id n}, id ∉ touched → g'.node? id = some n → g.node? id = some n
  dirty : ∀ {id}, id ∈ touched → ∃ n, g'.node? id = some n ∧ n.state = .dirty ∧
    ((g.node? id = none ∧ ∃ m ∈ new, m.id = id ∧ n = m.markDirty) ∨
      ∃ m ps, g.node? id = some m ∧ n = { m with parameters := ps }.markDirty)
  inputs : ∀ {id n}, id ∉ touched → g'.node? id = some n → ∀ p ∈ n.ports,
    g'.linkedValue? p.id = g.linkedValue? p.id

theorem linkedValue?_congr {s : PortId} (hi : g'.incoming? s = g.incoming? s)
    (hl : ∀ l, g.incoming? s = some l → g'.owner? l.source = g.owner? l.source ∧
      ∀ id, g.owner? l.source = some id →
        (g'.node? id).map (·.outputs) = (g.node? id).map (·.outputs)) :
    g'.linkedValue? s = g.linkedValue? s := by
  have key : ∀ f : Graph, f.linkedValue? s = (f.incoming? s).bind fun l =>
      (f.owner? l.source).bind fun id => ((f.node? id).map (·.outputs)).bind fun t =>
        t.get? l.source := fun f => by
    rw [linkedValue?]
    show (f.incoming? s).bind _ = _
    congr 1
    funext l
    show (f.owner? l.source).bind _ = _
    congr 1
    funext id
    cases f.node? id <;> rfl
  rw [key, key, hi]
  cases h : g.incoming? s with
  | none => rfl
  | some l =>
    obtain ⟨ho, hn⟩ := hl l h
    rw [Option.bind_some, Option.bind_some, ho]
    cases ho : g.owner? l.source with
    | none => rfl
    | some id => rw [Option.bind_some, Option.bind_some, hn id ho]

/-- The ports of a node that is there before and after have the same links into them unless an
edge into the node came or went. -/
theorem Sound.incoming?_eq (hg : g.Sound) (hg' : g'.Sound) {s : PortId}
    (h : ∀ l, l.sink = s → (l ∈ g'.links ↔ l ∈ g.links)) : g'.incoming? s = g.incoming? s := by
  refine Option.ext fun l => ?_
  rw [hg.incoming, hg'.incoming]
  exact and_congr_left fun hs => h l hs

/-! ## One edit after the other -/

theorem Sound.revises_insert (hg : g.Sound) {n : Node} (hw : n.WellFormed)
    (hn : g.node? n.id = none) (hp : ∀ p ∈ n.portIds, g.owner? p = none) :
    g.Revises [n] (g.insert n) [n.id] := by
  refine ⟨hg.insert hw hn hp, .inr ⟨n, rfl, rfl, hn⟩, fun {id m} h hm => ?_, fun {id} h => ?_,
    fun {id m} h hm p hpm => ?_⟩
  · rwa [node?_insert, if_neg fun e => h (by simp [e])] at hm
  · obtain rfl := List.mem_singleton.1 h
    exact ⟨n.markDirty, by rw [node?_insert, if_pos rfl], rfl, .inl ⟨hn, n, by simp, rfl, rfl⟩⟩
  · refine linkedValue?_congr rfl fun l hl => ?_
    obtain ⟨a, _, ha, _⟩ := hg.link_feeds ((hg.incoming ..).1 hl).1
    refine ⟨?_, fun j hj => ?_⟩
    · rw [owner?_insert, if_neg]
      intro hm
      rw [hp _ hm] at ha
      cases ha
    · rw [node?_insert, if_neg]
      rintro rfl
      obtain ⟨m, hm⟩ := hg.node?_owner hj
      rw [hn] at hm
      cases hm

theorem map_outputs_markDirty (o : Option Node) :
    (o.map (·.markDirty)).map (·.outputs) = o.map (·.outputs) := by
  cases o <;> rfl

theorem Sound.revises_disconnect (hg : g.Sound) {l : Link} (hl : l ∈ g.links) :
    g.Revises [] (g.disconnect l) ((g.disconnect l).owner? l.sink).toList := by
  simp only [owner?_disconnect]
  have node : ∀ j, (g.disconnect l).node? j =
      if g.owner? l.sink = some j then (g.node? j).map (·.markDirty) else g.node? j := fun j => by
    rw [node?_disconnect]
    exact if_congr (and_iff_right hl) rfl rfl
  refine ⟨hg.disconnect l, .inl rfl, fun {id m} h hm => ?_, fun {id} h => ?_,
    fun {id m} h hm p hpm => ?_⟩
  · rwa [node, if_neg fun e => h (by simp [e])] at hm
  · obtain h := Option.mem_toList.1 h
    obtain ⟨m, hm⟩ := hg.node?_owner h
    refine ⟨m.markDirty, by rw [node, if_pos h, hm]; rfl, rfl, .inr ⟨m, m.parameters, hm, rfl⟩⟩
  · refine linkedValue?_congr ?_ fun k _ => ⟨owner?_disconnect .., fun j _ => ?_⟩
    · refine hg.incoming?_eq (hg.disconnect l) fun k hk => ?_
      rw [links_disconnect, hg.nodup.mem_erase_iff]
      refine and_iff_right ?_
      rintro rfl
      have := (hg.disconnect k).owner?_port hm hpm
      rw [owner?_disconnect, ← hk] at this
      exact h (by simp [this])
    · rw [node]
      split
      · exact map_outputs_markDirty _
      · rfl

/-- A removal touches the nodes that lose a link into them. -/
theorem Sound.mem_touched_remove (hg : g.Sound) {id j : NodeId} {n : Node}
    (hn : g.node? id = some n) :
    j ∈ ((g.incident id).filterMap fun l => (g.remove id).owner? l.sink) ↔
      id ≠ j ∧ ∃ l ∈ g.incident id, g.owner? l.sink = some j := by
  simp only [List.mem_filterMap, owner?_remove hn]
  constructor
  · rintro ⟨l, hl, ho⟩
    split at ho
    · cases ho
    · next hp =>
      refine ⟨?_, l, hl, ho⟩
      rintro rfl
      obtain ⟨m, hm, hpm⟩ := (hg.owners ..).1 ho
      rw [hn] at hm
      cases hm
      exact hp hpm
  · rintro ⟨hne, l, hl, ho⟩
    refine ⟨l, hl, ?_⟩
    rw [if_neg, ho]
    intro hp
    rw [(hg.owners _ id).2 ⟨n, hn, hp⟩] at ho
    exact hne (Option.some.inj ho)

theorem Sound.revises_remove (hg : g.Sound) (id : NodeId) : g.Revises [] (g.remove id)
    ((g.incident id).filterMap fun l => (g.remove id).owner? l.sink) := by
  cases hn : g.node? id with
  | none =>
    rw [remove_of_none hn, incident, hn]
    exact ⟨hg, .inl rfl, fun _ h => h, fun h => (List.not_mem_nil h).elim, fun _ _ _ _ => rfl⟩
  | some n =>
    have hr := hg.remove id
    have mem {j : NodeId} := hg.mem_touched_remove (j := j) hn
    refine ⟨hr, .inl rfl, fun {j m} h hm => ?_, fun {j} h => ?_, fun {j m} h hm p hpm => ?_⟩
    · rw [node?_remove] at hm
      split at hm
      · cases hm
      · next hne => rwa [if_neg fun e => h (mem.2 ⟨hne, e⟩)] at hm
    · obtain ⟨hne, l, hl, ho⟩ := mem.1 h
      obtain ⟨m, hm⟩ := hg.node?_owner ho
      refine ⟨m.markDirty, ?_, rfl, .inr ⟨m, m.parameters, hm, rfl⟩⟩
      rw [node?_remove, if_neg hne, if_pos ⟨l, hl, ho⟩, hm]
      rfl
    · have hne : id ≠ j := by
        rintro rfl
        rw [node?_remove, if_pos rfl] at hm
        cases hm
      have hp := hr.owner?_port hm hpm
      have incoming : (g.remove id).incoming? p.id = g.incoming? p.id := by
        refine hg.incoming?_eq hr fun l hl => ?_
        rw [links_remove, hg.nodup.mem_sdiff_iff]
        refine and_iff_left fun hi => h (mem.2 ⟨hne, l, hi, ?_⟩)
        rw [owner?_remove hn] at hp
        split at hp
        · cases hp
        · rw [hl, hp]
      refine linkedValue?_congr incoming fun l hl => ?_
      -- A link into a node that stays comes from a node that stays.
      have hs : l.source ∉ n.portIds := fun hs => by
        rw [← incoming, hr.incoming, links_remove, hg.nodup.mem_sdiff_iff, mem_incident hn] at hl
        exact hl.1.2 ⟨hl.1.1, .inl hs⟩
      refine ⟨by rw [owner?_remove hn, if_neg hs], fun a ha => ?_⟩
      rw [node?_remove, if_neg]
      · split
        · exact map_outputs_markDirty _
        · rfl
      · rintro rfl
        obtain ⟨m, hm, hsm⟩ := (hg.owners ..).1 ha
        rw [hn] at hm
        cases hm
        exact hs hsm

theorem Sound.revises_connect (hg : g.Sound) {source sink : PortId}
    (h : g.connect source sink = .ok g') : g.Revises [] g' (g'.owner? sink).toList := by
  have hg' := hg.connect h
  obtain ⟨p, q, hp, hq, _, _, _, _, _, rfl⟩ := connect_ok h
  have owner : ∀ s, ((g.linked ⟨source, sink⟩).markDirty q.node).owner? s = g.owner? s :=
    fun _ => rfl
  have node : ∀ j, ((g.linked ⟨source, sink⟩).markDirty q.node).node? j =
      if q.node = j then (g.node? j).map (·.markDirty) else g.node? j := fun j =>
    node?_modifyNode ..
  rw [owner, hg.owner?_of_port? hq]
  refine ⟨hg', .inl rfl, fun {j m} hj hm => ?_, fun {j} hj => ?_, fun {j m} hj hm s hs => ?_⟩
  · rwa [node, if_neg fun e => hj (by simp [e])] at hm
  · obtain rfl : j = q.node := by simpa using hj
    obtain ⟨m, hm⟩ := hg.node?_owner (hg.owner?_of_port? hq)
    exact ⟨m.markDirty, by rw [node, if_pos rfl, hm]; rfl, rfl, .inr ⟨m, m.parameters, hm, rfl⟩⟩
  · refine linkedValue?_congr ?_ fun l _ => ⟨owner _, fun a _ => ?_⟩
    · show (g.incoming.insert sink ⟨source, sink⟩).get? s.id = _
      rw [Table.get?_insert, if_neg]
      · rfl
      · rintro rfl
        have := hg'.owner?_port hm hs
        rw [owner, hg.owner?_of_port? hq] at this
        exact hj (by simpa using this.symm)
    · rw [node]
      split
      · exact map_outputs_markDirty _
      · rfl

theorem Sound.revises_setParameters (hg : g.Sound) {id : NodeId} {ps : Parameters}
    (h : g.setParameters id ps = .ok g') : g.Revises [] g' [id] := by
  have hg' := hg.setParameters h
  obtain ⟨n, hn, rfl⟩ := setParameters_ok h
  refine ⟨hg', .inl rfl, fun {j m} h hm => ?_, fun {j} h => ?_, fun {j m} _ _ s _ => ?_⟩
  · rwa [node?_modifyNode, if_neg fun e => h (by simp [e])] at hm
  · obtain rfl := List.mem_singleton.1 h
    refine ⟨_, by rw [node?_modifyNode, if_pos rfl, hn]; rfl, rfl, .inr ⟨n, _, hn, rfl⟩⟩
  · refine linkedValue?_congr rfl fun l _ => ⟨rfl, fun a _ => ?_⟩
    rw [node?_modifyNode]
    split
    · cases g.node? a <;> rfl
    · rfl

/-! ## Any edit -/

/-- What a new link answers, touches and notes. -/
theorem performConnect_ok {source sink : PortId} {r : Edit.Result}
    (h : g.performConnect source sink = .ok r) : ∃ a b, g.connect source sink = .ok r.graph ∧
      r = ⟨r.graph, .link ⟨source, sink⟩, (r.graph.owner? sink).toList,
        [.connected a b ⟨source, sink⟩]⟩ := by
  simp only [performConnect, bind, Except.bind] at h
  split at h
  · cases h
  · next g' hc =>
    split at h
    · cases h
    · split at h
      · cases h
      · cases h
        exact ⟨_, _, hc, rfl⟩

/-- No edit writes a note that a compute has begun. -/
theorem perform_notes {change : Edit} {r : Edit.Result} (h : g.perform change = .ok r) {id : NodeId}
    {k : Nat} : .dispatched id k ∉ r.notes := by
  have connect : ∀ {s t}, g.performConnect s t = .ok r → .dispatched id k ∉ r.notes := by
    intro s t h
    obtain ⟨a, b, _, e⟩ := performConnect_ok h
    rw [e]
    simp
  cases change with
  | add n =>
    simp only [Graph.perform, bind, Except.bind] at h
    split at h
    · cases h
    · cases h
      simp [performAdd]
  | addFresh n =>
    cases h
    simp [performAdd]
  | remove a =>
    cases h
    simp only [performRemove]
    split <;> simp
  | connect source sink => exact connect h
  | connectNamed m p n q =>
    simp only [Graph.perform, bind, Except.bind] at h
    split at h
    · cases h
    · split at h
      · cases h
      · exact connect h
  | disconnect l =>
    simp only [Graph.perform, performDisconnect] at h
    split at h <;> cases h <;> simp
  | setParameters a ps =>
    simp only [Graph.perform, bind, Except.bind] at h
    split at h
    · cases h
    · cases h
      simp

/-- **An accepted edit revises a sound graph.** -/
theorem Sound.perform (hg : g.Sound) {change : Edit} (ha : change.Admissible g) {r : Edit.Result}
    (h : g.perform change = .ok r) : g.Revises change.newcomers r.graph r.touched := by
  have connect : ∀ {s t}, g.performConnect s t = .ok r → g.Revises [] r.graph r.touched := by
    intro s t h
    obtain ⟨a, b, hc, e⟩ := performConnect_ok h
    rw [e]
    exact hg.revises_connect hc
  cases change with
  | add n =>
    simp only [Graph.perform, bind, Except.bind] at h
    split at h
    · cases h
    · next g' hadd =>
      cases h
      obtain ⟨hn, hp, rfl⟩ := add_ok hadd
      exact hg.revises_insert ha hn hp
  | addFresh n =>
    cases h
    exact hg.revises_insert ha.1 ha.2.1 ha.2.2
  | remove id =>
    cases h
    exact hg.revises_remove id
  | connect source sink => exact connect h
  | connectNamed m p n q =>
    simp only [Graph.perform, bind, Except.bind] at h
    split at h
    · cases h
    · split at h
      · cases h
      · exact connect h
  | disconnect l =>
    simp only [Graph.perform, performDisconnect] at h
    split at h
    · next hl =>
      cases h
      exact hg.revises_disconnect (by simpa [hasLink] using hl)
    · cases h
      exact ⟨hg, .inl rfl, fun _ h => h, fun h => (List.not_mem_nil h).elim, fun _ _ _ _ => rfl⟩
  | setParameters id ps =>
    simp only [Graph.perform, bind, Except.bind] at h
    split at h
    · cases h
    · next g' hs =>
      cases h
      exact hg.revises_setParameters hs

end Graph

end PixelFlow
