import PixelFlow.Proofs.Engine.Run

/-!
# What lasts on a node

Some properties of a node are kept by all that waves and edits do to it. Of these one only has to
know that the nodes that come in have them.

* `Node.Lasting`: all that is done to a node keeps the property.
* `Graph.Each`: all nodes of a graph have it.
* `Wave.Dispatched.each`, `Wave.Accepted.each`: dispatches and deliveries.
* **`Engine.each_act`**: actions that bring only nodes with the property.
-/

namespace PixelFlow

open Wave

/-- **All that waves and edits do to a node keeps the property.** -/
structure Node.Lasting (I : Node → Prop) : Prop where
  dirty : ∀ n, I n → I n.markDirty
  waiting : ∀ n, I n → I n.markWaiting
  begun : ∀ n, I n → I n.beginCompute
  store : ∀ n o, I n → I (n.store o)
  parameters : ∀ n ps, I n → I { n with parameters := ps }

/-- All nodes of the graph have the property. -/
def Graph.Each (I : Node → Prop) (g : Graph) : Prop := ∀ id n, g.node? id = some n → I n

variable {I : Node → Prop}

/-- A turn keeps a lasting property if the change of its node does. -/
theorem Graph.Each.turn {g : Graph} (h : g.Each I) (hI : Node.Lasting I) (hg : g.Sound)
    (id : NodeId) {f : Node → Node} (spreads : Bool) (hf : ∀ m, I m → I (f m)) :
    (g.turn id f spreads).Each I := by
  intro j m hm
  rw [node?_turn hg] at hm
  split at hm
  · obtain ⟨m', hm', rfl⟩ := Option.map_eq_some_iff.1 hm
    exact hf m' (h j m' hm')
  · split at hm
    · obtain ⟨m', hm', rfl⟩ := Option.map_eq_some_iff.1 hm
      exact hI.dirty m' (h j m' hm')
    · exact h j m hm

namespace Wave

open Engine

variable {w w' : Wave} {id : NodeId} {n : Node}

theorem Dispatched.each (hI : Node.Lasting I) (hd : Dispatched w id n w')
    (hg : w.engine.graph.Sound) (h : w.engine.graph.Each I) : w'.engine.graph.Each I := by
  cases hd with
  | waits => exact h.turn hI hg id false hI.waiting
  | refused => exact h.turn hI hg id false fun m => hI.store m _
  | inline => exact h.turn hI hg id _ fun m hm => hI.store m.beginCompute _ (hI.begun m hm)
  | remembered => exact h.turn hI hg id true fun m => hI.store m _
  | submitted => exact h.turn hI hg id false hI.begun

theorem Accepted.each (hI : Node.Lasting I) {c : Completion} (ha : Accepted w c w')
    (hg : w.engine.graph.Sound) (h : w.engine.graph.Each I) : w'.engine.graph.Each I := by
  rcases ha.turns with e | ⟨spreads, e⟩
  · rwa [e]
  · rw [e]
    exact h.turn hI hg _ spreads fun m => hI.store m _

theorem each_schedule (hI : Node.Lasting I) (hg : w.engine.graph.Sound)
    (h : w.engine.graph.Each I) : w.schedule.engine.graph.Each I :=
  schedule_induction (P := fun v => v.engine.graph.Each I) hg h
    fun _ hv _ _ hd h => hd.each hI hv h

theorem each_collect (hI : Node.Lasting I) (hg : w.engine.graph.Sound)
    (h : w.engine.graph.Each I) (taken : List Job) : (collect w taken).engine.graph.Each I :=
  collect_induction (P := fun v => v.engine.graph.Each I) hg h taken
    fun _ _ hv ha h => ha.each hI hv h

end Wave

namespace Engine

variable {e : Engine}

/-- **An action keeps a lasting property of all nodes** if the nodes that come in have it. -/
theorem each_act (hI : Node.Lasting I) (hrest : e.AtRest) (h : e.graph.Each I) {a : Action}
    (ha : a.Admissible e) (hn : ∀ n ∈ e.inserted a, I n) : (e.act a).1.graph.Each I := by
  have hs := act_spec hrest.sound hrest.known ha
  generalize e.act a = x at hs ⊢
  cases hs with
  | idle hs => rwa [hs.graph]
  | @edited change stamp r ha hk hst hr hi =>
    have hv := hrest.sound.perform ha hr
    have each : (({ e with stamp := stamp } : Engine).opened r).engine.graph.Each I := by
      intro id n hid
      by_cases ht : id ∈ r.touched
      · obtain ⟨n', hn', _, ⟨_, m, hm, _, rfl⟩ | ⟨m, ps, hm, rfl⟩⟩ := hv.dirty ht <;>
          obtain rfl := Option.some.inj (hid.symm.trans hn')
        · exact hI.dirty m (hn m (hi ▸ hm))
        · exact hI.dirty _ (hI.parameters m ps (h id m hm))
      · exact h id n (hv.kept ht hid)
    exact each_schedule hI hv.sound each
  | @delivered _ taken left _ ht =>
    have hb := bare_collect (w := e.batch left) hrest.sound taken
    exact each_schedule hI (hrest.sound.of_bare hb)
      (each_collect hI (w := e.batch left) hrest.sound h taken)

end Engine

end PixelFlow
