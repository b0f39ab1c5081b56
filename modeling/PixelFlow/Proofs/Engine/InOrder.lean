import PixelFlow.Proofs.Engine.Confluence
import PixelFlow.Proofs.Engine.Progress

/-!
# Working an engine off

An engine to which nodes of a palette are added, each under a name of its own, is in order: nothing
in it is stuck, and the state of each node is what its compute comes to. It stays so while its jobs
are delivered, until it is idle.

* `Node.Cleared`: a clean node has no error.
* **`Engine.InOrder`**: what is known of such an engine; **`Engine.InOrder.act`**: every action;
  `Engine.InOrder.edit`: edits that are made.
* **`Engine.WorkedOff`**: deliveries have made an engine idle; `Engine.InOrder.workedOff_finish`.
* `Engine.WorkedOff.settled`: what the states of the nodes say then.
-/

namespace PixelFlow

open Wave

/-- A clean node has no error any more. -/
def Node.Cleared (n : Node) : Prop := n.state = .clean → n.lastError = none

theorem Node.lasting_cleared : Lasting Cleared where
  dirty _ _ := NodeState.noConfusion
  waiting _ _ := NodeState.noConfusion
  begun _ _ := NodeState.noConfusion
  store _ o _ := match o with
    | .ok _ => fun _ => rfl
    | .error _ => NodeState.noConfusion
  parameters _ _ h := h

namespace Engine

variable {P : Palette} {ids : List NodeId} {e e' : Engine} {id : NodeId} {n : Node}

/-- **The engine is at rest, counts its jobs, computes nothing without a job, and its nodes are of
the palette and settled.** The names of all nodes so far are listed. -/
structure InOrder (P : Palette) (ids : List NodeId) (e : Engine) : Prop where
  rest : e.AtRest
  counted : e.Counted
  backed : e.Backed []
  upheld : ∃ seen, e.Genuine P seen [] ∧ e.Upheld ids []
  named : ∀ id ∈ ids, id.uuid.Known e.stamp
  cleared : e.graph.Each Node.Cleared

theorem inOrder_new (P : Palette) (options : EngineOptions) (files : FileStore) :
    (new options files).InOrder P [] where
  rest := atRest_new options files
  counted := rfl
  backed _ _ _ h := nomatch h
  upheld := ⟨_, upheld_new P options files⟩
  named _ h := (List.not_mem_nil h).elim
  cleared _ _ h := nomatch h

/-- What comes in by an action is named before the stamp that the action leaves. -/
theorem AtRest.known_inserted (h : e.AtRest) {a : Action} (ha : a.Admissible e) :
    ∀ n ∈ e.inserted a, n.Known (e.act a).1.stamp := by
  have hs := act_spec h.sound h.known ha
  generalize e.act a = x at hs ⊢
  cases hs with
  | idle _ hi =>
    rw [hi]
    exact fun _ h => (List.not_mem_nil h).elim
  | @edited change stamp r ha hn _ hr hi =>
    rw [hi]
    have later := onward_schedule (w := ({ e with stamp := stamp } : Engine).opened r)
      (h.sound.perform ha hr).sound
    exact fun n hm => (hn n hm).mono later.stamp
  | delivered ha =>
    subst ha
    exact fun _ h => (List.not_mem_nil h).elim

/-- **An action that brings only new nodes of the palette leaves the engine in order.** -/
theorem InOrder.act (h : e.InOrder P ids) {a : Action} (ha : a.Admissible e)
    (hn : ∀ n ∈ e.inserted a, n.OfPalette P ∧ n.outputs = ∅ ∧ n.lastError = none ∧ n.id ∉ ids) :
    (e.act a).1.InOrder P (ids ++ (e.inserted a).map (·.id)) := by
  obtain ⟨seen, hgen, hup⟩ := h.upheld
  have shows : ∀ n ∈ e.inserted a, n.OfPalette P ∧ n.outputs.Shows seen := fun n hm =>
    ⟨(hn n hm).1, by rw [(hn n hm).2.1]; exact fun _ _ h => nomatch h⟩
  obtain ⟨seen', _, hgen', hup'⟩ := upheld_act h.rest hgen hup ha shows fun n hm =>
    (hn n hm).2.2.2
  refine ⟨h.rest.act ha, h.counted.act h.rest ha, h.backed.act h.rest ha, ⟨seen', hgen', hup'⟩,
    fun id hm => ?_, each_act Node.lasting_cleared h.rest h.cleared ha fun n hm _ =>
      (hn n hm).2.2.1⟩
  rcases List.mem_append.1 hm with hm | hm
  · exact (h.named id hm).mono (h.rest.onward_act ha).stamp
  · obtain ⟨n, hi, rfl⟩ := List.mem_map.1 hm
    exact (h.rest.known_inserted ha n hi).id

/-- **An edit that is made and does something leaves the engine in order** if the nodes that it
brings are new ones of the palette. -/
theorem InOrder.edit (h : e.InOrder P ids) {change : Edit} {r : Edit.Result}
    (ha : (Action.edit change).Admissible e) (hr : e.graph.perform change = .ok r)
    (hf : r.answer ≠ .flag false) (hn : ∀ n ∈ change.newcomers,
      n.OfPalette P ∧ n.outputs = ∅ ∧ n.lastError = none ∧ n.id ∉ ids) :
    ∃ e' report, e.edit change = .ok (r.answer, e', report) ∧
      e'.InOrder P (ids ++ change.newcomers.map (·.id)) ∧ e'.files = e.files ∧
        e'.graph.bare = r.graph.bare := by
  have edited : e.edit change = .ok (r.answer, (e.opened r).settle) := by
    rw [Engine.edit, hr]
    exact if_neg hf
  have act : (e.act (.edit change)).1 = (e.opened r).settle.1 := by
    rw [Engine.act, edited]
    rfl
  have inserted := inserted_of_perform hr
  have order := h.act ha (inserted ▸ hn)
  have files := (h.rest.onward_act ha).files
  rw [act] at order files
  rw [inserted] at order
  exact ⟨_, _, edited, order, files, bare_schedule (h.rest.sound.perform ha.1 hr).sound⟩

/-- An action that brings no node leaves the engine in order. -/
theorem InOrder.act_of_nil (h : e.InOrder P ids) {a : Action} (ha : a.Admissible e)
    (hn : e.inserted a = []) : (e.act a).1.InOrder P ids := by
  have := h.act ha fun n hm => by rw [hn] at hm; cases hm
  rwa [hn, List.map_nil, List.append_nil] at this

theorem AtRest.bare_deliver (h : e.AtRest) (numbers : List Nat) :
    (e.deliver numbers).1.graph.bare = e.graph.bare := by
  obtain ⟨taken, left, ht⟩ : ∃ taken left, takeJobs numbers e.jobs = (taken, left) := ⟨_, _, rfl⟩
  rw [deliver, ht]
  dsimp only
  split
  · rfl
  · have hb := bare_collect (w := e.batch left) h.sound taken
    exact (bare_schedule (h.sound.of_bare hb)).trans hb

/-- **Deliveries leave the engine in order**, and its nodes and links as they are. -/
theorem InOrder.deliveries (h : e.InOrder P ids) (batches : List (List Nat)) :
    (e.run (batches.map .deliver)).1.InOrder P ids ∧
      (e.run (batches.map .deliver)).1.graph.bare = e.graph.bare := by
  induction batches generalizing e with
  | nil => exact ⟨h, rfl⟩
  | cons numbers batches ih =>
    obtain ⟨ho, hb⟩ := ih (h.act_of_nil (a := .deliver numbers) trivial rfl)
    exact ⟨ho, hb.trans (h.rest.bare_deliver numbers)⟩

/-! ## Idle engines -/

/-- **The jobs of the engine have been delivered, in some order and in some batches, together with
those that came up meanwhile, until nothing was left to do.** -/
def WorkedOff (e e' : Engine) : Prop :=
  ∃ batches : List (List Nat), e' = (e.run (batches.map .deliver)).1 ∧ e'.isIdle = true

/-- Delivering the oldest job again and again is one way to deliver. -/
theorem exists_deliveries_drain (fuel : Nat) (e : Engine) : ∃ batches : List (List Nat),
    (drain fuel e).2.1 = (e.run (batches.map .deliver)).1 := by
  induction fuel generalizing e with
  | zero => exact ⟨[], rfl⟩
  | succ fuel ih =>
    rw [drain]
    split
    · exact ⟨[], rfl⟩
    · next j _ _ =>
      obtain ⟨batches, hb⟩ := ih (e.deliver [j.number]).1
      exact ⟨[j.number] :: batches, hb⟩

/-- **There is a way to work an engine off.** -/
theorem InOrder.workedOff_finish (h : e.InOrder P ids) : e.WorkedOff e.finish.2.1 := by
  obtain ⟨batches, hb⟩ := exists_deliveries_drain (e.jobs.length + e.graph.nodes.size) e
  exact ⟨batches, hb, (neverStuck h.rest h.counted h.backed).finishes.2⟩

namespace WorkedOff

variable (h : e.WorkedOff e')

include h

theorem inOrder (ho : e.InOrder P ids) : e'.InOrder P ids := by
  obtain ⟨batches, rfl, _⟩ := h
  exact (ho.deliveries batches).1

theorem files (ho : e.InOrder P ids) : e'.files = e.files := by
  obtain ⟨batches, rfl, _⟩ := h
  exact (ho.rest.onward_run _ (admissible_deliver e batches)).files

theorem bare (ho : e.InOrder P ids) : e'.graph.bare = e.graph.bare := by
  obtain ⟨batches, rfl, _⟩ := h
  exact (ho.deliveries batches).2

/-- **The state of every node says what its compute comes to.** -/
theorem settled (ho : e.InOrder P ids) (hn : e'.graph.node? id = some n) :
    e'.Settled [] n ∧ n.state.isPending = false := by
  obtain ⟨_, _, hup⟩ := (h.inOrder ho).upheld
  obtain ⟨_, _, hi⟩ := h
  exact ⟨hup.settled id n hn, (isIdle_iff.1 hi).2 id n hn⟩

end WorkedOff

end Engine

end PixelFlow
