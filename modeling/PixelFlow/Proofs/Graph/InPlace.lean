import Mathlib.Data.List.Perm.Subperm
import PixelFlow.Proofs.Graph.Edit

/-!
# Changes in place

A graph that is written in place takes a change one write after the other, and an error leaves
what was written before it. Here the changes of a graph are such programs. All their checks come
before the first write, and so they end like the changes that are made as a whole.

* `Draft`, `Draft.Change`: a graph in the middle of a change, and programs that write it.
* `Draft.insert`, …, `Draft.setParameters`: the changes, check by check and write by write.
* `Draft.run_insert`, …, `Draft.run_setParameters`: each of them in one step.
* **`Draft.run_perform`**: the program of an edit does what `Graph.perform` does, and if it is
  refused it has written nothing.
-/

namespace PixelFlow

/-- A graph in the middle of a change, with what was noted on the way. -/
structure Draft where
  graph : Graph
  notes : List Note

namespace Draft

/-- A program that writes a graph in place: after an error, what was written stays. -/
abbrev Change (α : Type) := EStateM GraphError Draft α

/-! ## Single steps -/

namespace Change

variable {α β : Type}

def current : Change Graph := return (← get).graph

def write (f : Graph → Graph) : Change Unit := modify fun d => { d with graph := f d.graph }

def note (n : Note) : Change Unit := modify fun d => { d with notes := d.notes ++ [n] }

/-- Look something up, or fail. -/
def find (look : Graph → Except GraphError α) : Change α := do
  match look (← current) with
  | .ok a => return a
  | .error x => throw x

variable (d : Draft)

@[simp] theorem run_current : current.run d = .ok d.graph d := rfl

@[simp] theorem run_write (f : Graph → Graph) :
    (write f).run d = .ok () { d with graph := f d.graph } := rfl

@[simp] theorem run_note (n : Note) : (note n).run d = .ok () { d with notes := d.notes ++ [n] } :=
  rfl

@[simp] theorem run_find (look : Graph → Except GraphError α) : (find look).run d =
    match look d.graph with
    | .ok a => .ok a d
    | .error x => .error x d := by
  rw [find, EStateM.run_bind, run_current]
  dsimp only
  cases look d.graph <;> rfl

/-- A loop of writes is one write. -/
@[simp] theorem run_forM_write (f : β → Graph → Graph) (l : List β) :
    (l.forM fun b => write (f b)).run d =
      .ok () { d with graph := l.foldl (fun g b => f b g) d.graph } := by
  induction l generalizing d with
  | nil => rfl
  | cons b l ih => exact ih { d with graph := f b d.graph }

/-- A loop of checks ends at the first that fails. -/
@[simp] theorem run_forM_find (check : β → Graph → Except GraphError PUnit) (l : List β) :
    (l.forM fun b => find (check b)).run d =
      match l.forM fun b => check b d.graph with
      | .ok _ => .ok () d
      | .error x => .error x d := by
  induction l with
  | nil => rfl
  | cons b l ih =>
    rw [List.forM, EStateM.run_bind, run_find, List.forM]
    cases h : check b d.graph with
    | ok u => exact ih
    | error x => rfl

end Change

theorem ok_bind {ε α β : Type} (a : α) (f : α → Except ε β) : (Except.ok a >>= f) = f a := rfl

open Change

/-! ## The changes -/

def insert (n : Node) : Change NodeId := do
  n.portIds.forM fun p => write fun g => { g with owners := g.owners.insert p n.id }
  note (.added n.id n.metadata.id)
  write fun g => { g with nodes := g.nodes.insert n.id n.markDirty }
  return n.id

def add (n : Node) : Change NodeId := do
  let g ← current
  if g.hasNode n.id then throw (.duplicateNode n.id)
  else match n.portIds.find? g.owners.contains with
    | some p => throw (.duplicatePort p)
    | none => insert n

/-- Remove a link, or tell that it is not there. -/
def disconnect (l : Link) : Change Bool := do
  if (← current).hasLink l then
    write fun g => { g with links := g.links.erase l }
    write fun g => { g with incoming := g.incoming.erase l.sink }
    match (← current).owner? l.sink with
    | some id => write (·.markDirty id)
    | none => pure ()
    note (.disconnected l)
    return true
  else return false

def remove (id : NodeId) : Change (List Link) := do
  match (← current).node? id with
  | none => return []
  | some n =>
    let incident := (← current).incident id
    incident.forM fun l => do
      let _ ← disconnect l
      return
    n.portIds.forM fun p => write fun g => { g with owners := g.owners.erase p }
    write fun g => { g with nodes := g.nodes.erase id }
    note (.removed id incident.length)
    return incident

def connect (source sink : PortId) : Change Link := do
  let p ← find (·.port source)
  let q ← find (·.port sink)
  if p.kind ≠ .source ∨ q.kind ≠ .sink then throw (.invalidEndpoints p.kind q.kind)
  else if !connectable p q then throw (.typeMismatch p.type q.type)
  else match (← current).incoming? sink with
    | some existing => throw (.sinkOccupied sink existing)
    | none =>
      if (← current).reaches q.node p.node then throw (.wouldCreateCycle p.node q.node)
      else
        let l : Link := ⟨source, sink⟩
        write fun g => { g with links := if l ∈ g.links then g.links else g.links ++ [l] }
        write fun g => { g with incoming := g.incoming.insert sink l }
        write (·.markDirty q.node)
        note (.connected p.node q.node l)
        return l

def connectNamed (m : NodeId) (p : String) (n : NodeId) (q : String) : Change Link := do
  let source ← find (·.findPort m p)
  let sink ← find (·.findPort n q)
  connect source sink

/-- Check all parameters in one loop, then write them in another. -/
def setParameters (id : NodeId) (parameters : Parameters) : Change Unit := do
  let n ← find (·.node id)
  parameters.entries.forM fun e => find fun _ => Graph.checkParameter n id e.1 e.2
  let _ ← find (·.node id)
  parameters.entries.forM fun e => write fun g =>
    g.modifyNode id fun n => { n with parameters := n.parameters.insert e.1 e.2 }
  write (·.markDirty id)

/-! ## Each change in one step -/

variable (d : Draft)

/-- A loop that writes the owners changes nothing but the owners. -/
theorem foldl_owners (f : Table PortId NodeId → PortId → Table PortId NodeId) (l : List PortId)
    (g : Graph) : l.foldl (fun g p => { g with owners := f g.owners p }) g =
      { g with owners := l.foldl f g.owners } := by
  induction l generalizing g with
  | nil => rfl
  | cons p l ih => exact ih _

theorem run_insert (n : Node) : (insert n).run d =
    .ok n.id ⟨d.graph.insert n, d.notes ++ [.added n.id n.metadata.id]⟩ := by
  simp only [insert, EStateM.run_bind, run_forM_write, run_note, run_write,
    foldl_owners fun t p => t.insert p n.id]
  rw [Graph.insert, Table.insertMany, List.foldl_map]
  rfl

theorem run_add (n : Node) : (add n).run d =
    match d.graph.add n with
    | .ok g => .ok n.id ⟨g, d.notes ++ [.added n.id n.metadata.id]⟩
    | .error x => .error x d := by
  rw [add, EStateM.run_bind, run_current, Graph.add]
  dsimp only
  split
  · rfl
  · cases n.portIds.find? d.graph.owners.contains with
    | some p => rfl
    | none => exact run_insert d n

theorem run_disconnect (l : Link) : (disconnect l).run d =
    .ok (d.graph.hasLink l) ⟨d.graph.disconnect l,
      d.notes ++ if d.graph.hasLink l then [.disconnected l] else []⟩ := by
  rw [disconnect, EStateM.run_bind, run_current, Graph.disconnect]
  dsimp only
  cases d.graph.hasLink l with
  | false => simp
  | true =>
    -- Who owns the sink does not depend on the links.
    have owner : (d.graph.unlinked l).owner? l.sink = d.graph.owner? l.sink := rfl
    rw [Graph.unlinked] at owner
    simp only [if_true, EStateM.run_bind, run_write, run_current, owner]
    cases d.graph.owner? l.sink <;> rfl

/-- Each link of the list is there when its turn comes. -/
theorem run_disconnectAll {l : List Link} (hl : l.Subperm d.graph.links) :
    (l.forM fun k => do let _ ← disconnect k; return).run d =
      .ok () ⟨l.foldl Graph.disconnect d.graph, d.notes ++ l.map .disconnected⟩ := by
  induction l generalizing d with
  | nil => simp
  | cons k l ih =>
    have hk : d.graph.hasLink k = true := by
      simpa [Graph.hasLink] using hl.subset List.mem_cons_self
    have rest : l.Subperm (d.graph.disconnect k).links := by
      rw [Graph.links_disconnect]
      simpa using hl.erase k
    rw [List.forM, EStateM.run_bind, EStateM.run_bind, run_disconnect, hk]
    refine (ih ⟨d.graph.disconnect k, d.notes ++ [.disconnected k]⟩ rest).trans ?_
    rw [List.append_assoc]
    rfl

theorem run_remove (id : NodeId) : (remove id).run d =
    .ok (d.graph.incident id) ⟨d.graph.remove id, d.notes ++ (d.graph.performRemove id).notes⟩ := by
  rw [remove, EStateM.run_bind, run_current, Graph.performRemove, Graph.hasNode, Table.contains]
  dsimp only
  rw [show d.graph.nodes.get? id = d.graph.node? id from rfl, Graph.remove]
  cases hn : d.graph.node? id with
  | none =>
    rw [Graph.incident, hn]
    simp
  | some n =>
    have sub : (d.graph.incident id).Subperm d.graph.links := by
      rw [Graph.incident, hn]
      exact List.filter_sublist.subperm
    simp only [EStateM.run_bind, run_current, run_disconnectAll d sub, run_forM_write, run_write,
      run_note, EStateM.run_pure, foldl_owners Table.erase, List.append_assoc]
    rfl

theorem run_connect (source sink : PortId) : (connect source sink).run d =
    match d.graph.performConnect source sink with
    | .ok r => .ok ⟨source, sink⟩ ⟨r.graph, d.notes ++ r.notes⟩
    | .error x => .error x d := by
  rw [connect, EStateM.run_bind, run_find, Graph.performConnect, Graph.connect]
  cases d.graph.port source with
  | error x => rfl
  | ok p =>
    dsimp only
    rw [EStateM.run_bind, run_find]
    cases d.graph.port sink with
    | error x => rfl
    | ok q =>
      simp only [ok_bind]
      split
      · rfl
      · split
        · rfl
        · rw [EStateM.run_bind, run_current]
          dsimp only
          cases d.graph.incoming? sink with
          | some k => rfl
          | none =>
            rw [EStateM.run_bind, run_current]
            dsimp only
            split <;> rfl

theorem markDirty_writeAll (id : NodeId) (l : List (String × ParamValue)) (g : Graph) :
    (l.foldl (fun g e => g.modifyNode id fun n =>
      { n with parameters := n.parameters.insert e.1 e.2 }) g).markDirty id =
    g.modifyNode id fun n => { n with parameters := n.parameters.insertMany l }.markDirty := by
  induction l generalizing g with
  | nil => rfl
  | cons e l ih =>
    rw [List.foldl_cons, ih]
    simp only [Graph.modifyNode, Table.modify_modify]
    rfl

theorem run_setParameters (id : NodeId) (parameters : Parameters) :
    (setParameters id parameters).run d =
      match d.graph.setParameters id parameters with
      | .ok g => .ok () ⟨g, d.notes⟩
      | .error x => .error x d := by
  rw [setParameters, EStateM.run_bind, run_find, Graph.setParameters]
  cases hn : d.graph.node id with
  | error x => rfl
  | ok n =>
    simp only [ok_bind]
    rw [EStateM.run_bind, run_forM_find]
    cases parameters.entries.forM fun e => Graph.checkParameter n id e.1 e.2 with
    | error x => rfl
    | ok u =>
      dsimp only
      rw [EStateM.run_bind, run_find, hn]
      dsimp only
      rw [EStateM.run_bind, run_forM_write]
      dsimp only
      rw [run_write, markDirty_writeAll]
      rfl

/-! ## Any edit -/

/-- The program of an edit. -/
def perform : Edit → Change Edit.Answer
  | .add n => return .node (← add n)
  | .addFresh n => return .node (← insert n)
  | .remove id => return .links (← remove id)
  | .connect source sink => return .link (← connect source sink)
  | .connectNamed m p n q => return .link (← connectNamed m p n q)
  | .disconnect l => return .flag (← disconnect l)
  | .setParameters id parameters => do
    setParameters id parameters
    return .done

theorem run_connectNamed (m : NodeId) (p : String) (n : NodeId) (q : String) :
    (connectNamed m p n q).run d =
      match d.graph.findPort m p, d.graph.findPort n q with
      | .ok source, .ok sink => (connect source sink).run d
      | .error x, _ => .error x d
      | _, .error x => .error x d := by
  rw [connectNamed, EStateM.run_bind, run_find]
  cases d.graph.findPort m p with
  | error x => rfl
  | ok source =>
    dsimp only
    rw [EStateM.run_bind, run_find]
    cases d.graph.findPort n q <;> rfl

/-- **Written in place, an edit ends as it does when it is made as a whole.** -/
theorem run_perform (change : Edit) : (perform change).run d =
    match d.graph.perform change with
    | .ok r => .ok r.answer ⟨r.graph, d.notes ++ r.notes⟩
    | .error x => .error x d := by
  have connect : ∀ source sink, (return Edit.Answer.link (← connect source sink) : Change _).run d =
      match d.graph.performConnect source sink with
      | .ok r => .ok r.answer ⟨r.graph, d.notes ++ r.notes⟩
      | .error x => .error x d := by
    intro source sink
    rw [EStateM.run_bind, run_connect]
    cases h : d.graph.performConnect source sink with
    | error x => rfl
    | ok r =>
      obtain ⟨a, b, _, e⟩ := Graph.performConnect_ok h
      rw [e]
      rfl
  cases change with
  | add n =>
    rw [perform, EStateM.run_bind, run_add, Graph.perform]
    cases d.graph.add n <;> rfl
  | addFresh n =>
    rw [perform, EStateM.run_bind, run_insert]
    rfl
  | remove id =>
    rw [perform, EStateM.run_bind, run_remove]
    rfl
  | connect source sink => exact connect source sink
  | connectNamed m p n q =>
    rw [perform, EStateM.run_bind, run_connectNamed, Graph.perform]
    cases d.graph.findPort m p with
    | error x => rfl
    | ok source =>
      cases d.graph.findPort n q with
      | error x => rfl
      | ok sink => exact connect source sink
  | disconnect l =>
    rw [perform, EStateM.run_bind, run_disconnect, Graph.perform, Graph.performDisconnect]
    cases h : d.graph.hasLink l with
    | true => rfl
    | false =>
      rw [Graph.disconnect, h]
      rfl
  | setParameters id parameters =>
    rw [perform, EStateM.run_bind, run_setParameters, Graph.perform]
    cases d.graph.setParameters id parameters with
    | error x => rfl
    | ok g =>
      change _ = EStateM.Result.ok Edit.Answer.done (⟨g, d.notes ++ []⟩ : Draft)
      rw [List.append_nil]
      rfl

end Draft

/-! ## What changes nothing -/

/-- The node has no parameter of this name, or one of another kind. -/
def Graph.Misfits (g : Graph) (id : NodeId) (e : String × ParamValue) : Prop :=
  ∀ n d, g.node? id = some n → n.metadata.parameter? e.1 = some d → d.default.sameKind e.2 = false

/-- **Nothing is changed by an edit that is refused or does not find what it is to remove**: it
leaves the state as it was. -/
structure Harmless {σ : Type} (run : Edit → EStateM.Result GraphError σ Edit.Answer) (s : σ)
    (g : Graph) : Prop where
  refused : ∀ {change x s'}, run change = .error x s' → s' = s
  /-- A link that is not there is not removed. -/
  unlinked : ∀ {l s'}, run (.disconnect l) = .ok (.flag false) s' → s' = s
  /-- Nor is a node that is not there. -/
  absent : ∀ {id}, g.node? id = none → run (.remove id) = .ok (.links []) s
  /-- If one parameter does not fit, wherever it stands, none of them is set. -/
  misfit : ∀ {id ps e}, e ∈ ps.entries → g.Misfits id e →
    ∃ x, run (.setParameters id ps) = .error x s

namespace Graph

variable {g : Graph}

theorem setParameters_misfit {id : NodeId} {ps : Parameters} {e : String × ParamValue}
    (he : e ∈ ps.entries) (h : g.Misfits id e) : ∃ x, g.setParameters id ps = .error x := by
  cases hs : g.setParameters id ps with
  | error x => exact ⟨x, rfl⟩
  | ok g' =>
    obtain ⟨n, hn, _⟩ := setParameters_ok hs
    have passed := setParameters_checked hs hn e he
    rw [checkParameter] at passed
    split at passed
    · cases passed
    · next d hd =>
      rw [h n d hn hd] at passed
      cases passed

theorem performRemove_of_none {id : NodeId} (h : g.node? id = none) :
    g.performRemove id = ⟨g, .links [], [], []⟩ := by
  have absent : g.hasNode id = false := Table.contains_eq_false_iff.2 h
  rw [performRemove, remove_of_none h, incident, h, absent]
  rfl

theorem performDisconnect_false {l : Link} (h : (g.performDisconnect l).answer = .flag false) :
    g.performDisconnect l = ⟨g, .flag false, [], []⟩ := by
  rw [performDisconnect] at h ⊢
  split at h
  · cases h
  · next hl => rw [if_neg hl]

end Graph

/-- **An edit that ends in an error has written nothing to the graph.** -/
theorem Draft.harmless (d : Draft) :
    Harmless (fun change => (perform change).run d) d d.graph where
  refused {change x d'} h := by
    rw [run_perform] at h
    split at h <;> cases h
    rfl
  unlinked {l d'} h := by
    rw [run_perform] at h
    change EStateM.Result.ok _ _ = _ at h
    obtain ⟨ha, rfl⟩ := EStateM.Result.ok.inj h
    rw [Graph.performDisconnect_false ha, List.append_nil]
  absent {id} h := by
    rw [run_perform, Graph.perform, Graph.performRemove_of_none h]
    change EStateM.Result.ok (Edit.Answer.links []) (mk d.graph (d.notes ++ [])) = _
    rw [List.append_nil]
  misfit {id ps e} he h := by
    obtain ⟨x, hx⟩ := Graph.setParameters_misfit he h
    refine ⟨x, ?_⟩
    rw [run_perform, Graph.perform, hx]
    rfl

end PixelFlow
