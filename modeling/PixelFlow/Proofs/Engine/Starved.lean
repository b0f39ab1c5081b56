import PixelFlow.Proofs.Engine.Late
import PixelFlow.Proofs.Engine.Snapshot
import PixelFlow.Proofs.Engine.Sweep

/-!
# Sinks whose link has nothing to bring

A link may lead from a port that has never had a value, since its node waits or has failed. A
default is meant for sinks without a link, and a sink may be optional in that it need not be linked.
The snapshot of a node does not tell the two apart: it asks for the value that a link brings, and a
link that brings none is taken for no link.

* `Engine.due?`, `Engine.dueInputs?`: what is due at a sink, and the snapshot made of that.
* **`Engine.inputs_due_iff`**: the snapshot is what is due unless a sink is starved and none lacks
  its value.
* `Dispatch.Supplied`: what a dispatch makes of the sinks; **`Engine.supplied_run`**.
* `Engine.not_due`: a node that computes on a default although its sink is linked.
-/

namespace PixelFlow

/-! ## What is due -/

namespace Engine

variable {e : Engine} {n : Node} {p : Port}

/-- The sink is linked to a port that has never had a value. -/
def Starved (e : Engine) (p : Port) : Prop :=
  ∃ l, e.graph.incoming? p.id = some l ∧ e.cachedValue? l.source = none

/-- The value that is due at a sink: that of the port it is linked to, and the default only if it is
not linked. -/
def due? (e : Engine) (p : Port) : Option Value :=
  match e.graph.incoming? p.id with
  | some l => e.cachedValue? l.source
  | none => p.default

/-- A sink holds its node up if no value is due at it, unless it is optional and not linked. -/
def holdsUp (e : Engine) (p : Port) : Bool :=
  (e.due? p).isNone && ((e.graph.incoming? p.id).isSome || !p.isOptional)

/-- The snapshot that is due to a node, unless a sink holds it up. -/
def dueInputs? (e : Engine) (n : Node) : Option (Table String Value) :=
  if n.sinks.any e.holdsUp then none
  else some (.ofList (n.sinks.filterMap fun p => (e.due? p).map fun v => (p.name, v)))

theorem inputAt?_eq (e : Engine) (p : Port) : e.graph.inputAt? p =
    match e.graph.incoming? p.id with
    | some l => (e.cachedValue? l.source).or p.default
    | none => p.default := by
  have linked : e.graph.linkedValue? p.id =
      (e.graph.incoming? p.id).bind fun l => e.cachedValue? l.source := rfl
  rw [Graph.inputAt?, linked]
  cases e.graph.incoming? p.id with
  | none => rfl
  | some l =>
    rw [Option.bind_some]
    dsimp only
    cases e.cachedValue? l.source <;> rfl

/-- What is due at a sink that is not starved is what it gets. -/
theorem due?_eq (h : ¬ e.Starved p) : e.due? p = e.graph.inputAt? p := by
  rw [inputAt?_eq, due?]
  cases hl : e.graph.incoming? p.id with
  | none => rfl
  | some l =>
    cases hv : e.cachedValue? l.source with
    | none => exact absurd ⟨l, hl, hv⟩ h
    | some v =>
      dsimp only
      rw [hv]
      rfl

theorem holdsUp_eq (h : ¬ e.Starved p) : e.holdsUp p = e.graph.lacks p := by
  rw [holdsUp, Graph.lacks, due?_eq h]
  cases hv : e.graph.inputAt? p with
  | some v => rfl
  | none =>
    cases hl : e.graph.incoming? p.id with
    | none => rfl
    | some l =>
      rw [← due?_eq h, due?, hl] at hv
      exact absurd ⟨l, hl, hv⟩ h

/-- A sink that lacks its value holds its node up, and so does a starved one. -/
theorem holdsUp_of_lacks (h : e.graph.lacks p = true) : e.holdsUp p = true := by
  by_cases hs : e.Starved p
  · obtain ⟨l, hl, hv⟩ := hs
    simp [holdsUp, due?, hl, hv]
  · rw [holdsUp_eq hs, h]

theorem Starved.holdsUp (h : e.Starved p) : e.holdsUp p = true := by
  obtain ⟨l, hl, hv⟩ := h
  simp [Engine.holdsUp, due?, hl, hv]

/-- **The snapshot of a node is what is due to it unless a sink is starved and none lacks its
value.** -/
theorem inputs_due_iff (e : Engine) (n : Node) : (e.graph.inputs n).toOption = e.dueInputs? n ↔
    (∃ p ∈ n.sinks, e.graph.lacks p = true) ∨ ∀ p ∈ n.sinks, ¬ e.Starved p := by
  rw [Graph.inputs_eq, dueInputs?]
  cases hf : n.sinks.find? e.graph.lacks with
  | some p =>
    have hp := List.mem_of_find?_eq_some hf
    have hl := List.find?_some hf
    rw [if_pos (List.any_eq_true.2 ⟨p, hp, holdsUp_of_lacks hl⟩)]
    exact iff_of_true rfl (.inl ⟨p, hp, hl⟩)
  | none =>
    have full := List.find?_eq_none.1 hf
    rw [or_iff_right fun ⟨p, hp, hl⟩ => full p hp hl]
    constructor
    · intro h p hp hs
      rw [if_pos (List.any_eq_true.2 ⟨p, hp, hs.holdsUp⟩)] at h
      cases h
    · intro fed
      have free : ¬ n.sinks.any e.holdsUp = true := fun h => by
        obtain ⟨p, hp, hu⟩ := List.any_eq_true.1 h
        rw [holdsUp_eq (fed p hp)] at hu
        exact full p hp hu
      rw [if_neg free]
      refine congrArg (fun l => some (Table.ofList l)) (List.filterMap_congr fun p hp => ?_)
      rw [Graph.contribution?, due?_eq (fed p hp)]

end Engine

/-! ## Dispatches -/

namespace Wave

variable {w : Wave} {id : NodeId} {n : Node}

/-- Let a node wait for a port. -/
def withhold (w : Wave) (id : NodeId) (port : String) : Wave :=
  ((w.note (.awaiting id port)).modifyNode id (·.markWaiting)).emit (.waiting id port)

/-- Let a node compute on a snapshot, unless its parameters are refused. -/
def proceed (w : Wave) (id : NodeId) (n : Node) (inputs : Table String Value) : Wave :=
  match n.metadata.checkParameters id n.parameters with
  | .error e => w.apply id (.error e)
  | .ok () => if n.isAsynchronous then w.runBackground n inputs else w.runInline n inputs

theorem dispatch_eq (hn : w.engine.graph.node? id = some n) :
    w.dispatch id = match w.engine.graph.inputs n with
      | .error port => w.withhold id port
      | .ok inputs => w.proceed id n inputs := by
  rw [dispatch, hn]
  rfl

/-- Only ready nodes are dispatched. -/
theorem isReady_of_mem_dispatches {d : Dispatch} (hd : d ∈ w.dispatches) :
    d.wave.isReady d.node = true := by
  let P (_ : Wave) (ds : List Dispatch) : Prop := ∀ d ∈ ds, d.wave.isReady d.node = true
  have all : P w.schedule ([] ++ w.dispatches) := passes_trace (P := P)
    (fun hr h => List.forall_mem_append.2 ⟨h, List.forall_mem_singleton.2 hr⟩) (fun _ h => h) _
    fun _ h => (List.not_mem_nil h).elim
  exact all d hd

end Wave

/-- The node sees what is due at its sinks, or is withheld if one of them holds it up. -/
def Dispatch.Due (d : Dispatch) (n : Node) : Prop :=
  (d.wave.engine.graph.inputs n).toOption = d.wave.engine.dueInputs? n

/-- **What a dispatch makes of the sinks of its node.** -/
structure Dispatch.Supplied (d : Dispatch) (n : Node) : Prop where
  /-- If a sink lacks its value, the node waits for the first such sink. -/
  withheld : ∀ p, n.sinks.find? d.wave.engine.graph.lacks = some p →
    d.wave.dispatch d.node = d.wave.withhold d.node p.name
  /-- Else it goes on with what all sinks contribute. -/
  given : (∀ p ∈ n.sinks, d.wave.engine.graph.lacks p = false) →
    d.wave.dispatch d.node = d.wave.proceed d.node n
      (.ofList (n.sinks.filterMap d.wave.engine.graph.contribution?))
  /-- A sink has the value of the port that it is linked to; its default stands in where there is no
  link, and also where that port has never had a value. -/
  value : ∀ p ∈ n.sinks, d.wave.engine.graph.inputAt? p =
    match d.wave.engine.graph.incoming? p.id with
    | some l => (d.wave.engine.cachedValue? l.source).or p.default
    | none => p.default
  /-- The snapshot is what is due unless a sink is starved and none lacks its value. -/
  due_iff : d.Due n ↔ (∃ p ∈ n.sinks, d.wave.engine.graph.lacks p = true) ∨
    ∀ p ∈ n.sinks, ¬ d.wave.engine.Starved p

theorem Dispatch.supplied {d : Dispatch} {n : Node}
    (hn : d.wave.engine.graph.node? d.node = some n) : d.Supplied n where
  withheld p hp := by rw [Wave.dispatch_eq hn, Graph.inputs_eq, hp]
  given h := by
    have : n.sinks.find? d.wave.engine.graph.lacks = none :=
      List.find?_eq_none.2 fun p hp => by simp [h p hp]
    rw [Wave.dispatch_eq hn, Graph.inputs_eq, this]
  value _ _ := Engine.inputAt?_eq ..
  due_iff := Engine.inputs_due_iff ..

namespace Engine

theorem isReady_of_mem_dispatches {e : Engine} {as : List Action} {d : Dispatch}
    (hd : d ∈ e.dispatches as) : d.wave.isReady d.node = true := by
  induction as generalizing e with
  | nil => cases hd
  | cons a as ih =>
    rcases List.mem_append.1 hd with hd | hd
    · cases hw : e.wave? a with
      | none =>
        rw [hw] at hd
        cases hd
      | some w =>
        rw [hw] at hd
        exact Wave.isReady_of_mem_dispatches hd
    · exact ih hd

/-- **In every run each dispatch finds its node**, and the node waits or computes by its sinks. -/
theorem supplied_run (options : EngineOptions) (files : FileStore) (as : List Action) (d : Dispatch)
    (hd : d ∈ (new options files).dispatches as) :
    ∃ n, d.wave.engine.graph.node? d.node = some n ∧ n.state = .dirty ∧ d.Supplied n := by
  obtain ⟨n, hn, hs⟩ := (Wave.isReady_iff.1 (isReady_of_mem_dispatches hd)).1
  exact ⟨n, hn, hs, Dispatch.supplied hn⟩

namespace Starved

/-- Puts out what it gets. -/
def relay (id : String) (sink : PortSpec) : Variant where
  metadata :=
    { id := id
      name := id
      category := .custom
      description := ""
      ports := [sink, .source "out" .number ""]
      parameters := []
      execution := .synchronous
      cacheable := false }
  compute := do Compute.setOutput "out" (.number (← Compute.ask (·.inputNumber sink.name)))

/-- A node that waits for its sink is linked to the sink of another node, which has a default. -/
def linked : List Action :=
  [.addVariant (relay "first" (.sink "in" .number "")),
   .addVariant (relay "second" ((PortSpec.sink "in" .number "").withDefault (.number 7))),
   .edit (.connect ⟨.mint 0 2⟩ ⟨.mint 1 1⟩)]

theorem dispatches_linked : ((new .standard Late.noFiles).dispatches linked).map (fun d =>
    (d.wave.engine.graph.node? d.node).map fun n =>
      ((d.wave.engine.graph.inputs n).toOption, d.wave.engine.dueInputs? n)) =
    [some (none, none),
     some (some (.ofList [("in", .number 7)]), some (.ofList [("in", .number 7)])),
     some (some (.ofList [("in", .number 7)]), none)] := by
  cbv

/-- The dispatch that the link brings about: the default is there, and the first node holds up. -/
theorem exists_starved : ∃ d ∈ (new .standard Late.noFiles).dispatches linked, ∃ n,
    d.wave.engine.graph.node? d.node = some n ∧
      d.wave.engine.graph.inputs n = .ok (.ofList [("in", .number 7)]) ∧
      d.wave.engine.dueInputs? n = none := by
  have last := congrArg (·[2]?) dispatches_linked
  simp only [List.getElem?_map] at last
  obtain ⟨d, hd, h⟩ := Option.map_eq_some_iff.1 last
  obtain ⟨n, hn, h⟩ := Option.map_eq_some_iff.1 h
  obtain ⟨hi, hdue⟩ := Prod.mk.inj h
  refine ⟨d, List.mem_of_getElem? hd, n, hn, ?_, hdue⟩
  cases hx : d.wave.engine.graph.inputs n with
  | error port =>
    rw [hx] at hi
    cases hi
  | ok t =>
    rw [hx] at hi
    exact congrArg _ (Option.some.inj hi)

end Starved

open Starved in
/-- A node with a default is dispatched on it while its sink is linked. -/
theorem supplied_run_linked : ∃ d ∈ (new .standard Late.noFiles).dispatches linked, ∃ n,
    d.wave.engine.graph.node? d.node = some n ∧ d.Supplied n ∧
      d.wave.engine.graph.inputs n = .ok (.ofList [("in", .number 7)]) := by
  obtain ⟨d, hd, n, hn, hi, _⟩ := exists_starved
  obtain ⟨m, hm, _, supplied⟩ := supplied_run .standard Late.noFiles linked d hd
  obtain rfl := Option.some.inj (hm.symm.trans hn)
  exact ⟨d, hd, m, hm, supplied, hi⟩

open Starved in
/-- **A node computes on a default although its sink is linked**, when it should wait for the node
that the link comes from. -/
theorem not_due : (new .standard Late.noFiles).Admissible linked ∧
    ¬ ∀ d ∈ (new .standard Late.noFiles).dispatches linked, ∀ n,
      d.wave.engine.graph.node? d.node = some n → d.Due n := by
  refine ⟨admissible_of_all_isPlain rfl, fun all => ?_⟩
  obtain ⟨d, hd, n, hn, hi, hdue⟩ := exists_starved
  have due := all d hd n hn
  rw [Dispatch.Due, hi, hdue] at due
  cases due

end Engine

end PixelFlow
