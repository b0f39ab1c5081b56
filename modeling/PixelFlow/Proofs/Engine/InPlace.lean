import PixelFlow.Proofs.Engine.Progress
import PixelFlow.Proofs.Graph.InPlace

/-!
# Operations in place

The operations of an engine as programs that write it in place: each changes the graph first, and
sets off a wave only then. A refused edit has written nothing, a link that is not there ends the
operation, and the removal of a node that is not there does run the scheduler, but an engine at
rest gives it nothing to do.

* `Operation`: programs on an engine and on what it has made known; `Operation.perform`.
* **`Operation.run_perform`**: the program of an edit ends like `Engine.edit`.
* `Engine.Unmoved`: what is refused or not there changes nothing; **`Engine.unmoved_run`**.
-/

namespace PixelFlow

/-- A program that operates on an engine in place. Beside it stands what it has made known. -/
abbrev Operation (α : Type) := EStateM GraphError (Engine × Report) α

namespace Operation

variable {α : Type}

def graph : Operation Graph := return (← get).1.graph

/-- The engine with a graph in the middle of a change. -/
def written (s : Engine × Report) (d : Draft) : Engine × Report :=
  ({ s.1 with graph := d.graph }, s.2 ++ ⟨d.notes.map .note, [], d.notes⟩)

/-- Change the graph in place. An error leaves what the change has written. -/
def change (c : Draft.Change α) : Operation α := fun s =>
  match c.run ⟨s.1.graph, []⟩ with
  | .ok a d => .ok a (written s d)
  | .error x d => .error x (written s d)

/-- Invalidate some nodes, dispatch what is ready and tell the observers. -/
def settle (touched : List NodeId) : Operation Unit := modify fun (e, r) =>
  (⟨e, r.log ++ touched.map fun id => .event (.invalidated id)⟩ : Wave).settle

def connect (source sink : PortId) : Operation Link := do
  let l ← change (Draft.connect source sink)
  settle ((← graph).owner? sink).toList
  return l

/-- The program of an edit. -/
def perform : Edit → Operation Edit.Answer
  | .add n => do
    let id ← change (Draft.add n)
    settle [id]
    return .node id
  | .addFresh n => do
    let id ← change (Draft.insert n)
    settle [id]
    return .node id
  | .remove id => do
    let links ← change (Draft.remove id)
    let g ← graph
    settle (links.filterMap fun l => g.owner? l.sink)
    return .links links
  | .connect source sink => return .link (← connect source sink)
  | .connectNamed m p n q => do
    let source ← change (.find (·.findPort m p))
    let sink ← change (.find (·.findPort n q))
    return .link (← connect source sink)
  | .disconnect l => do
    if ← change (Draft.disconnect l) then
      settle ((← graph).owner? l.sink).toList
      return .flag true
    else return .flag false
  | .setParameters id parameters => do
    change (Draft.setParameters id parameters)
    settle [id]
    return .done

/-! ## Each operation in one step -/

variable (e : Engine)

theorem run_change (c : Draft.Change α) (s : Engine × Report) : (change c).run s =
    match c.run ⟨s.1.graph, []⟩ with
    | .ok a d => .ok a (written s d)
    | .error x d => .error x (written s d) := rfl

/-- Looking something up changes nothing. -/
theorem run_find (look : Graph → Except GraphError α) :
    (change (.find look)).run (e, .empty) =
      match look e.graph with
      | .ok a => .ok a (e, .empty)
      | .error x => .error x (e, .empty) := by
  rw [run_change, Draft.Change.run_find]
  dsimp only
  cases look e.graph <;> rfl

theorem run_connect (source sink : PortId) : (connect source sink).run (e, .empty) =
    match e.graph.performConnect source sink with
    | .ok r => .ok ⟨source, sink⟩ (e.opened r).settle
    | .error x => .error x (e, .empty) := by
  rw [connect, EStateM.run_bind, run_change, Draft.run_connect]
  cases h : e.graph.performConnect source sink with
  | error x => rfl
  | ok r =>
    obtain ⟨a, b, _, hr⟩ := Graph.performConnect_ok h
    rw [hr]
    rfl

/-- **In place, an edit ends as it does when it is made as a whole**, also for the observers. -/
theorem run_perform (edit : Edit) : (perform edit).run (e, .empty) =
    match e.edit edit with
    | .ok (a, after) => .ok a after
    | .error x => .error x (e, .empty) := by
  -- Both ways to name the ends of a link come to the same.
  have connect : ∀ source sink, e.graph.perform edit = e.graph.performConnect source sink →
      (return Edit.Answer.link (← connect source sink) : Operation _).run (e, .empty) =
        match e.edit edit with
        | .ok (a, after) => .ok a after
        | .error x => .error x (e, .empty) := by
    intro source sink he
    rw [EStateM.run_bind, run_connect, Engine.edit, he]
    cases h : e.graph.performConnect source sink with
    | error x => rfl
    | ok r =>
      obtain ⟨a, b, _, hr⟩ := Graph.performConnect_ok h
      rw [hr]
      rfl
  cases edit with
  | add n =>
    rw [perform, EStateM.run_bind, run_change, Draft.run_add, Engine.edit, Graph.perform]
    cases e.graph.add n <;> rfl
  | addFresh n =>
    rw [perform, EStateM.run_bind, run_change, Draft.run_insert]
    rfl
  | remove id =>
    rw [perform, EStateM.run_bind, run_change, Draft.run_remove]
    rfl
  | connect source sink => exact connect source sink rfl
  | connectNamed m p n q =>
    rw [perform, EStateM.run_bind, run_find]
    cases hm : e.graph.findPort m p with
    | error x =>
      rw [Engine.edit, Graph.perform, hm]
      rfl
    | ok source =>
      dsimp only
      rw [EStateM.run_bind, run_find]
      cases hn : e.graph.findPort n q with
      | error x =>
        rw [Engine.edit, Graph.perform, hm, hn]
        rfl
      | ok sink => exact connect source sink (by rw [Graph.perform, hm, hn]; rfl)
  | disconnect l =>
    rw [perform, EStateM.run_bind, run_change, Draft.run_disconnect, Engine.edit, Graph.perform,
      Graph.performDisconnect]
    cases h : e.graph.hasLink l with
    | true => rfl
    | false =>
      rw [Graph.disconnect, h]
      rfl
  | setParameters id parameters =>
    rw [perform, EStateM.run_bind, run_change, Draft.run_setParameters, Engine.edit, Graph.perform]
    cases e.graph.setParameters id parameters <;> rfl

end Operation

/-! ## Engines at rest -/

namespace Engine

open Wave

/-- What an operation leaves, whether it fails or not. -/
def left {ε σ α : Type} : EStateM.Result ε σ α → σ
  | .ok _ s | .error _ s => s

/-- **No edit that fails or has nothing to do moves anything.** -/
structure Unmoved (e : Engine) : Prop where
  /-- Operations in place leave what actions leave. -/
  acted : ∀ edit, left ((Operation.perform edit).run (e, .empty)) = e.act (.edit edit)
  /-- They leave the engine as it was, and make nothing known. -/
  engine : Harmless (fun edit => (Operation.perform edit).run (e, .empty)) (e, .empty) e.graph
  /-- Changes of its graph leave the graph as it was. -/
  graph : Harmless (fun edit => (Draft.perform edit).run ⟨e.graph, []⟩) ⟨e.graph, []⟩ e.graph

theorem edit_disconnect_false {e : Engine} {l : Link} {after : Engine × Report}
    (h : e.edit (.disconnect l) = .ok (.flag false, after)) : after = (e, .empty) := by
  rw [Engine.edit, Graph.perform, Graph.performDisconnect] at h
  split at h
  · cases h
  · cases h
    rfl

/-- The scheduler has nothing to do for a node that is not there. -/
theorem AtRest.edit_remove_absent {e : Engine} (h : e.AtRest) {id : NodeId}
    (hn : e.graph.node? id = none) : e.edit (.remove id) = .ok (.links [], e, .empty) := by
  rw [Engine.edit, Graph.perform, Graph.performRemove_of_none hn]
  have still : (e.opened ⟨e.graph, .links [], [], []⟩).settle = (e, .empty) := by
    rw [settle, schedule_of_quiet h.sound h.quiet]
    rfl
  exact congrArg (fun x => Except.ok (Edit.Answer.links [], x)) still

theorem AtRest.unmoved {e : Engine} (h : e.AtRest) : e.Unmoved where
  acted edit := by
    rw [Operation.run_perform, Engine.act]
    cases e.edit edit <;> rfl
  engine := {
    refused := fun {edit x s} hx => by
      rw [Operation.run_perform] at hx
      split at hx <;> cases hx
      rfl
    unlinked := fun {l s} hl => by
      rw [Operation.run_perform] at hl
      split at hl
      · next a after he =>
        cases hl
        exact edit_disconnect_false he
      · cases hl
    absent := fun {id} hn => by rw [Operation.run_perform, h.edit_remove_absent hn]
    misfit := fun {id ps entry} hp hm => by
      obtain ⟨x, hx⟩ := Graph.setParameters_misfit hp hm
      refine ⟨x, ?_⟩
      rw [Operation.run_perform, Engine.edit, Graph.perform, hx]
      rfl }
  graph := Draft.harmless ⟨e.graph, []⟩

/-- **Whatever was done before, what is refused or not there changes nothing.** -/
theorem unmoved_run (options : EngineOptions) (files : FileStore) (as : List Action)
    (ha : (new options files).Admissible as) : ((new options files).run as).1.Unmoved :=
  ((atRest_new options files).run as ha).unmoved

namespace Still

/-- A node computes in the background. -/
def begun : Engine := ((new .standard Late.noFiles).run [.addVariant Late.echo]).1

/-- A parameter that the node has, and one that it has not. -/
def mixed : Parameters := .ofList [("value", .number 2), ("volume", .number 3)]

theorem misfits_begun : begun.graph.Misfits ⟨.mint 0 0⟩ ("volume", .number 3) := by
  have none : (begun.graph.node? ⟨.mint 0 0⟩).all fun n =>
    (n.metadata.parameter? "volume").isNone := by cbv
  intro n d hn hd
  rw [hn, Option.all_some, hd] at none
  cases none

end Still

open Still in
/-- Of two parameters neither is set, as the node lacks the second. -/
theorem unmoved_run_mixed : (new .standard Late.noFiles).Admissible [.addVariant Late.echo] ∧
    ∃ x, (Operation.perform (.setParameters ⟨.mint 0 0⟩ mixed)).run (begun, .empty) =
      .error x (begun, .empty) :=
  have admissible := admissible_of_all_isPlain rfl
  ⟨admissible, (unmoved_run .standard Late.noFiles _ admissible).engine.misfit
    (List.mem_cons_of_mem _ List.mem_cons_self) misfits_begun⟩

end Engine

end PixelFlow
