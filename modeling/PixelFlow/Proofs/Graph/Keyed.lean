import PixelFlow.Proofs.Graph.Edit

/-!
# Nodes under their own names

However a graph is edited, each node stays stored under its own identifier. This needs neither
well-formed nodes nor new names, so it holds of any sequence of edits.

* `Graph.Keyed`: each node is stored under its identifier.
* **`Graph.Keyed.perform`**: every accepted edit keeps it.
* `Graph.Keyed.of_bare`: so does whatever leaves the identifiers of nodes alone.
-/

namespace PixelFlow.Graph

variable {g g' h : Graph}

/-- Each node is stored under its own identifier. -/
def Keyed (g : Graph) : Prop := ∀ id n, g.node? id = some n → n.id = id

theorem keyed_empty : Graph.empty.Keyed := fun _ _ h => nomatch h

namespace Keyed

theorem of_bare (hk : g.Keyed) (e : h.bare = g.bare) : h.Keyed := by
  intro id n hn
  obtain ⟨m, hm, hb⟩ := node?_of_bare e hn
  rw [← hk id m hm]
  exact congrArg (·.id) hb.symm

/-- Nodes that are missing, unchanged or changed apart from their identifiers keep their places. -/
theorem of_node? (hk : g.Keyed) {f : Node → Node} (hf : ∀ n, (f n).id = n.id)
    (hn : ∀ id, h.node? id = none ∨ h.node? id = g.node? id ∨ h.node? id = (g.node? id).map f) :
    h.Keyed := by
  intro id n hid
  rcases hn id with e | e | e
  · rw [e] at hid
    cases hid
  · exact hk id n (e ▸ hid)
  · obtain ⟨m, hm, rfl⟩ := Option.map_eq_some_iff.1 (e ▸ hid)
    exact (hf m).trans (hk id m hm)

theorem modifyNode (hk : g.Keyed) (id : NodeId) {f : Node → Node} (hf : ∀ n, (f n).id = n.id) :
    (g.modifyNode id f).Keyed := by
  refine hk.of_node? hf fun j => .inr ?_
  rw [node?_modifyNode]
  split
  · exact .inr rfl
  · exact .inl rfl

theorem insert (hk : g.Keyed) (n : Node) : (g.insert n).Keyed := by
  intro id m hm
  rw [node?_insert] at hm
  split at hm
  · next e =>
    cases hm
    exact e
  · exact hk id m hm

theorem disconnect (hk : g.Keyed) (l : Link) : (g.disconnect l).Keyed := by
  refine hk.of_node? (f := (·.markDirty)) (fun _ => rfl) fun j => .inr ?_
  rw [node?_disconnect]
  split
  · exact .inr rfl
  · exact .inl rfl

theorem remove (hk : g.Keyed) (id : NodeId) : (g.remove id).Keyed := by
  refine hk.of_node? (f := (·.markDirty)) (fun _ => rfl) fun j => ?_
  rw [node?_remove]
  split
  · exact .inl rfl
  · split
    · exact .inr (.inr rfl)
    · exact .inr (.inl rfl)

theorem connect (hk : g.Keyed) {source sink : PortId} (hc : g.connect source sink = .ok g') :
    g'.Keyed := by
  obtain ⟨p, q, _, _, _, _, _, _, _, rfl⟩ := connect_ok hc
  have hl : (g.linked ⟨source, sink⟩).Keyed := hk
  exact hl.modifyNode q.node fun _ => rfl

theorem setParameters (hk : g.Keyed) {id : NodeId} {ps : Parameters}
    (hs : g.setParameters id ps = .ok g') : g'.Keyed := by
  obtain ⟨_, _, rfl⟩ := setParameters_ok hs
  exact hk.modifyNode id fun _ => rfl

/-- **An accepted edit keeps nodes under their own identifiers.** -/
theorem perform (hk : g.Keyed) {change : Edit} {r : Edit.Result} (hr : g.perform change = .ok r) :
    r.graph.Keyed := by
  have connects : ∀ {s t}, g.performConnect s t = .ok r → r.graph.Keyed := by
    intro s t hc
    obtain ⟨_, _, hc, _⟩ := performConnect_ok hc
    exact hk.connect hc
  cases change with
  | add n =>
    simp only [Graph.perform, bind, Except.bind] at hr
    split at hr
    · cases hr
    · next g' hadd =>
      cases hr
      obtain ⟨_, _, rfl⟩ := add_ok hadd
      exact hk.insert n
  | addFresh n =>
    cases hr
    exact hk.insert n
  | remove id =>
    cases hr
    exact hk.remove id
  | connect s t => exact connects hr
  | connectNamed m p n q =>
    simp only [Graph.perform, bind, Except.bind] at hr
    split at hr
    · cases hr
    · split at hr
      · cases hr
      · exact connects hr
  | disconnect l =>
    cases hr
    rw [performDisconnect]
    split
    · exact hk.disconnect l
    · exact hk
  | setParameters id ps =>
    simp only [Graph.perform, bind, Except.bind] at hr
    split at hr
    · cases hr
    · next g' hs =>
      cases hr
      exact hk.setParameters hs

end Keyed

end PixelFlow.Graph
