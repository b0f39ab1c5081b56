import Mathlib.Data.List.Induction
import PixelFlow.Proofs.Engine.Turn

/-!
# The life of a node

Seen from one identifier, everything that the engine does is a list of deeds: a node comes under
this name, is touched, begins a background compute, receives a result, and goes. The log says of
each deed but the last what it was, and the counter of generations tells one compute from another.

* `Record.subject?`: the node whose state a record tells; **`Record.Shows`**: the state it tells.
* `Deed`, with `Deed.Fits` and `Deed.after`: what can happen to a node.
* `Deed.Valid`, `Deed.life`, `Deed.trace`: lives, where they lead and what is recorded of them.
* **`Deed.trace_shows`**: a node that is there is as the last record about it says.
* **`Deed.received_sorted`**: one node receives results of ever later generations.
-/

namespace PixelFlow

/-! ## Records -/

/-- The node whose state a record tells. -/
def Record.subject? : Record → Option NodeId
  | .event e => some e.node
  | .note (.dispatched id _) => some id
  | .note _ => none

/-- The records about one node, in order. -/
def recordsOf (id : NodeId) (log : List Record) : List Record :=
  log.filter fun r => r.subject? = some id

/-- The last record about a node. -/
def lastRecord? (id : NodeId) (log : List Record) : Option Record := (recordsOf id log).getLast?

/-- **The node is in the state that a record about it tells.** -/
def Record.Shows (n : Node) : Record → Prop
  | .event (.invalidated _) => n.state = .dirty
  | .event (.valueChanged _ outputs) => n.state = .clean ∧ n.outputs = outputs
  | .event (.failed _ e) => n.state = .error ∧ n.lastError = some e
  | .event (.waiting _ _) => n.state = .waiting
  | .note (.dispatched _ g) => n.state = .computing g ∧ n.generation = g
  | .note _ => False

theorem recordsOf_append (id : NodeId) (l l' : List Record) :
    recordsOf id (l ++ l') = recordsOf id l ++ recordsOf id l' := List.filter_append ..

theorem recordsOf_cons (id : NodeId) (r : Record) (l : List Record) :
    recordsOf id (r :: l) = if r.subject? = some id then r :: recordsOf id l else recordsOf id l := by
  simp [recordsOf, List.filter_cons]

/-! ## Deeds -/

/-- What can happen to a node. -/
inductive Deed
  /-- A node comes in. -/
  | enter (node : Node)
  | leave
  /-- The node becomes dirty; its parameters may have changed. -/
  | touch (parameters : Parameters)
  | wait (port : String)
  /-- An outcome that needs no job is stored, with or without a compute of its own. -/
  | answer (begins : Bool) (outcome : Outcome)
  /-- A background compute begins. -/
  | start
  /-- The result of the background compute of a generation is stored. -/
  | receive (generation : Nat) (outcome : Outcome)

namespace Deed

/-- The node that comes in. -/
def entered? : Deed → Option Node
  | enter n => some n
  | _ => none

/-- The generation of the result that is received. -/
def received? : Deed → Option Nat
  | receive g _ => some g
  | _ => none

/-- What there is under the name afterwards. -/
def after : Deed → Option Node → Option Node
  | enter n, _ => some n.markDirty
  | leave, _ => none
  | touch ps, o => o.map fun n => { n with parameters := ps }.markDirty
  | wait _, o => o.map (·.markWaiting)
  | answer begins outcome, o =>
    o.map fun n => (if begins then n.beginCompute else n).store outcome
  | start, o => o.map (·.beginCompute)
  | receive _ outcome, o => o.map (·.store outcome)

/-- A node comes in where none is, a background compute begins on a dirty node, a result is received
by the node that awaits it, and all else happens to a node that is there. -/
def Fits (id : NodeId) (o : Option Node) : Deed → Prop
  | enter n => o = none ∧ n.id = id
  | start => ∃ n, o = some n ∧ n.state = .dirty
  | receive g _ => ∃ n, o = some n ∧ n.generation = g ∧ n.state = .computing g
  | _ => ∃ n, o = some n

/-- What is recorded of an outcome. -/
def record (id : NodeId) (n : Node) : Outcome → Record
  | .ok outputs => .event (.valueChanged id (Wave.outputsByPort n outputs))
  | .error e => .event (.failed id e)

/-- What is recorded of a deed. -/
def record? (id : NodeId) (o : Option Node) : Deed → Option Record
  | enter _ | touch _ => some (.event (.invalidated id))
  | leave => none
  | wait port => some (.event (.waiting id port))
  | answer _ outcome | receive _ outcome => o.map fun n => record id n outcome
  | start => o.map fun n => .note (.dispatched id (n.generation + 1))

/-! ## Lives -/

/-- Each deed fits what the earlier ones have left. -/
def Valid (id : NodeId) : Option Node → List Deed → Prop
  | _, [] => True
  | o, d :: ds => d.Fits id o ∧ Valid id (d.after o) ds

/-- What there is after all deeds. -/
def life (o : Option Node) (ds : List Deed) : Option Node := ds.foldl (fun o d => d.after o) o

/-- What is recorded of all deeds. -/
def trace (id : NodeId) : Option Node → List Deed → List Record
  | _, [] => []
  | o, d :: ds => (d.record? id o).toList ++ trace id (d.after o) ds

variable {id : NodeId} {o : Option Node}

theorem life_append (o : Option Node) (ds ds' : List Deed) :
    life o (ds ++ ds') = life (life o ds) ds' := List.foldl_append

theorem valid_append (ds ds' : List Deed) :
    Valid id o (ds ++ ds') ↔ Valid id o ds ∧ Valid id (life o ds) ds' := by
  induction ds generalizing o with
  | nil => simp [Valid, life]
  | cons d ds ih =>
    simp only [List.cons_append, Valid, ih, and_assoc]
    rfl

theorem trace_append (ds ds' : List Deed) :
    trace id o (ds ++ ds') = trace id o ds ++ trace id (life o ds) ds' := by
  induction ds generalizing o with
  | nil => rfl
  | cons d ds ih =>
    simp only [List.cons_append, trace, ih, List.append_assoc]
    rfl

theorem store_shows (id : NodeId) (n m : Node) (outcome : Outcome) (hp : m.ports = n.ports) :
    (record id n outcome).Shows (m.store outcome) := by
  cases outcome with
  | ok outputs =>
    refine ⟨rfl, ?_⟩
    simp only [Node.store, Node.storeOutputs, Wave.outputsByPort, Node.sources, hp]
  | error e => exact ⟨rfl, rfl⟩

/-- A deed that leaves a node is recorded, and the record shows the node. -/
theorem record?_shows (id : NodeId) {d : Deed} {n : Node} (h : d.after o = some n) :
    ∃ r, d.record? id o = some r ∧ r.Shows n := by
  cases d with
  | enter m =>
    cases h
    exact ⟨_, rfl, rfl⟩
  | leave => cases h
  | touch ps =>
    obtain ⟨m, rfl, rfl⟩ := Option.map_eq_some_iff.1 h
    exact ⟨_, rfl, rfl⟩
  | wait port =>
    obtain ⟨m, rfl, rfl⟩ := Option.map_eq_some_iff.1 h
    exact ⟨_, rfl, rfl⟩
  | answer begins outcome =>
    obtain ⟨m, rfl, rfl⟩ := Option.map_eq_some_iff.1 h
    refine ⟨_, rfl, store_shows id m _ outcome ?_⟩
    split <;> rfl
  | start =>
    obtain ⟨m, rfl, rfl⟩ := Option.map_eq_some_iff.1 h
    exact ⟨_, rfl, rfl, rfl⟩
  | receive g outcome =>
    obtain ⟨m, rfl, rfl⟩ := Option.map_eq_some_iff.1 h
    exact ⟨_, rfl, store_shows id m m outcome rfl⟩

/-- **If nothing was there at first, a node that is there is as the last record about it says.** -/
theorem trace_shows {ds : List Deed} {n : Node} (h : life none ds = some n) :
    ∃ r, (trace id none ds).getLast? = some r ∧ r.Shows n := by
  rcases List.eq_nil_or_concat ds with rfl | ⟨ds, d, rfl⟩
  · cases h
  · rw [List.concat_eq_append] at h ⊢
    rw [life_append] at h
    obtain ⟨r, hr, hs⟩ := record?_shows id h
    refine ⟨r, ?_, hs⟩
    rw [trace_append, trace, hr, trace, List.append_nil, List.getLast?_append]
    rfl

/-! ## Generations -/

/-- A node that computes is at the generation that it computes. -/
theorem computing_eq {n : Node} {r : Record} (hr : r.Shows n) {g : Nat}
    (h : n.state = .computing g) : n.generation = g ∧ ∃ id, r = .note (.dispatched id g) := by
  unfold Record.Shows at hr
  split at hr
  · rw [hr] at h; cases h
  · rw [hr.1] at h; cases h
  · rw [hr.1] at h; cases h
  · rw [hr] at h; cases h
  · rw [hr.1] at h
    cases h
    exact ⟨hr.2, _, rfl⟩
  · exact hr.elim

/-- The nodes that come in. -/
def entered (ds : List Deed) : List Node := ds.filterMap entered?

/-- The generations of the results that are received. -/
def received (ds : List Deed) : List Nat := ds.filterMap received?

/-- The generation of the background compute that a record tells of. -/
def dispatched? : Record → Option Nat
  | .note (.dispatched _ g) => some g
  | _ => none

/-- The generations of the background computes that are begun. -/
def started (id : NodeId) (o : Option Node) (ds : List Deed) : List Nat :=
  (trace id o ds).filterMap dispatched?

theorem entered_append (ds ds' : List Deed) : entered (ds ++ ds') = entered ds ++ entered ds' :=
  List.filterMap_append

theorem received_append (ds ds' : List Deed) :
    received (ds ++ ds') = received ds ++ received ds' := List.filterMap_append

/-- Where nothing is and nothing comes in, nothing happens. -/
theorem eq_nil_of_valid {ds : List Deed} (h : Valid id none ds) (he : entered ds = []) : ds = [] := by
  cases ds with
  | nil => rfl
  | cons d ds =>
    cases d with
    | enter n => exact (List.cons_ne_nil _ _ he).elim
    | leave | touch | wait | answer => obtain ⟨⟨n, h⟩, _⟩ := h; cases h
    | start | receive => obtain ⟨⟨n, h, _⟩, _⟩ := h; cases h

/-- What the deeds of one node, from its coming in to its leaving, do to its counter: it never goes
down, each background compute takes it beyond where it was, and results are received of the
generation that it has, once. -/
structure Steady (id : NodeId) (n : Node) (ds : List Deed) : Prop where
  life : ∀ n', life (some n) ds = some n' → n.generation ≤ n'.generation
  started : ∀ g ∈ started id (some n) ds, n.generation < g
  sorted : (Deed.started id (some n) ds).Pairwise (· < ·)
  received : ∀ g ∈ received ds, n.generation ≤ g ∧ (n.state ≠ .computing g → n.generation < g)
  receivedSorted : (Deed.received ds).Pairwise (· < ·)

/-- A deed that begins no background compute and receives no result. -/
theorem Steady.cons {n n' : Node} {d : Deed} {ds : List Deed} (h : Steady id n' ds)
    (ha : d.after (some n) = some n') (hg : n.generation ≤ n'.generation)
    (hs : ∀ g, n'.state ≠ .computing g) (hr : ∀ r ∈ d.record? id (some n), dispatched? r = none)
    (hd : d.received? = none) : Steady id n (d :: ds) := by
  have hst : Deed.started id (some n) (d :: ds) = Deed.started id (some n') ds := by
    rw [Deed.started, trace, ha, List.filterMap_append]
    refine (congrArg (· ++ _) (List.filterMap_eq_nil_iff.2 fun r hm => hr r ?_)).trans
      (List.nil_append _)
    exact Option.mem_toList.1 hm
  have hre : Deed.received (d :: ds) = Deed.received ds := List.filterMap_cons_none hd
  refine ⟨fun m hm => Nat.le_trans hg (h.life m ?_), fun g hm => ?_, hst ▸ h.sorted, fun g hm => ?_,
    hre ▸ h.receivedSorted⟩
  · rwa [← ha]
  · exact Nat.lt_of_le_of_lt hg (h.started g (hst ▸ hm))
  · have := (h.received g (hre ▸ hm)).2 (hs g)
    exact ⟨by omega, fun _ => by omega⟩

/-- A background compute that begins takes the counter one up. -/
theorem Steady.start {n : Node} {ds : List Deed} (h : Steady id n.beginCompute ds) :
    Steady id n (.start :: ds) := by
  have hst : Deed.started id (some n) (.start :: ds) =
      (n.generation + 1) :: Deed.started id (some n.beginCompute) ds := rfl
  have hb : n.beginCompute.generation = n.generation + 1 := rfl
  refine ⟨fun m hm => ?_, fun g hg => ?_, ?_, fun g hg => ?_, h.receivedSorted⟩
  · exact Nat.le_trans (Nat.le_succ _) (h.life m hm)
  · rw [hst] at hg
    rcases List.mem_cons.1 hg with rfl | hg
    · exact Nat.lt_succ_self _
    · exact Nat.lt_trans (Nat.lt_succ_self _) (h.started g hg)
  · rw [hst]
    exact List.pairwise_cons.2 ⟨h.started, h.sorted⟩
  · have := (h.received g hg).1
    exact ⟨by omega, fun _ => by omega⟩

/-- A result that is received is of the generation that the counter shows, and the last one. -/
theorem Steady.receive {n : Node} {g : Nat} {outcome : Outcome} {ds : List Deed}
    (h : Steady id (n.store outcome) ds) (hgen : n.generation = g) (hc : n.state = .computing g) :
    Steady id n (.receive g outcome :: ds) := by
  have hgs := Node.generation_store n outcome
  have later : ∀ k ∈ Deed.received ds, g < k := fun k hk => by
    have := (h.received k hk).2 (Node.not_computing_store n outcome k)
    omega
  have htr : Deed.started id (some n) (.receive g outcome :: ds) =
      Deed.started id (some (n.store outcome)) ds := by
    cases outcome <;> rfl
  refine ⟨fun m hm => ?_, fun k hk => ?_, htr ▸ h.sorted, fun k hk => ?_, ?_⟩
  · exact hgs ▸ h.life m hm
  · exact hgs ▸ h.started k (htr ▸ hk)
  · rcases List.mem_cons.1 (show k ∈ g :: Deed.received ds from hk) with rfl | hk
    · exact ⟨by omega, fun hne => (hne hc).elim⟩
    · have := later k hk
      exact ⟨by omega, fun _ => by omega⟩
  · exact List.pairwise_cons.2 ⟨later, h.receivedSorted⟩

/-- **The counter of one node only goes up, and so do the generations that it receives.** -/
theorem steady {ds : List Deed} {n : Node} (h : Valid id (some n) ds) (he : entered ds = []) :
    Steady id n ds := by
  induction ds generalizing n with
  | nil =>
    refine ⟨fun n' hn => ?_, fun g hg => (nomatch hg), .nil, fun g hg => (nomatch hg), .nil⟩
    cases hn
    exact Nat.le_refl _
  | cons d ds ih =>
    obtain ⟨hf, hv⟩ := h
    cases d with
    | enter m => exact (List.cons_ne_nil _ _ he).elim
    | leave =>
      obtain rfl := eq_nil_of_valid hv he
      exact ⟨fun n' hn => (nomatch hn), fun g hg => (nomatch hg), .nil, fun g hg => (nomatch hg), .nil⟩
    | touch ps =>
      exact (ih hv he).cons rfl (Nat.le_refl _) (fun _ => NodeState.noConfusion)
        (fun r hr => by cases hr; rfl) rfl
    | wait port =>
      exact (ih hv he).cons rfl (Nat.le_refl _) (fun _ => NodeState.noConfusion)
        (fun r hr => by cases hr; rfl) rfl
    | answer begins outcome =>
      refine (ih hv he).cons rfl ?_ (Node.not_computing_store _ _) (fun r hr => ?_) rfl
      · rw [Node.generation_store]
        split
        · exact Nat.le_succ _
        · exact Nat.le_refl _
      · obtain rfl := Option.some.inj hr
        cases outcome <;> rfl
    | start => exact (ih hv he).start
    | receive g outcome =>
      obtain ⟨m, hm, hgen, hst⟩ := hf
      cases hm
      exact (ih hv he).receive hgen hst

/-- A life in which at most one node comes in is empty at first, or starts with it. -/
theorem entered_cases {ds : List Deed} (h : Valid id none ds) (he : (entered ds).length ≤ 1) :
    ds = [] ∨ ∃ n ds', ds = .enter n :: ds' ∧ Steady id n.markDirty ds' := by
  cases ds with
  | nil => exact .inl rfl
  | cons d ds =>
    obtain ⟨hf, hv⟩ := h
    cases d with
    | enter n =>
      refine .inr ⟨n, ds, rfl, steady hv ?_⟩
      exact List.eq_nil_of_length_eq_zero (Nat.le_zero.1 (Nat.le_of_succ_le_succ he))
    | leave | touch | wait | answer => obtain ⟨n, h⟩ := hf; cases h
    | start | receive => obtain ⟨n, h, _⟩ := hf; cases h

/-- **If one node comes in at most, results are received of ever later generations.** -/
theorem received_sorted {ds : List Deed} (h : Valid id none ds) (he : (entered ds).length ≤ 1) :
    (received ds).Pairwise (· < ·) := by
  rcases entered_cases h he with rfl | ⟨n, ds, rfl, hs⟩
  · exact .nil
  · exact hs.receivedSorted

/-- **If one node comes in at most, background computes are of ever later generations.** -/
theorem started_sorted {ds : List Deed} (h : Valid id none ds) (he : (entered ds).length ≤ 1) :
    (started id none ds).Pairwise (· < ·) := by
  rcases entered_cases h he with rfl | ⟨n, ds, rfl, hs⟩
  · exact .nil
  · exact hs.sorted

/-! ## Awaited results -/

/-- **A result is awaited only if some node came in with a lower counter.** -/
theorem entered_lt {ds : List Deed} {n : Node} (h : Valid id none ds)
    (hn : life none ds = some n) : ∃ m ∈ entered ds, m.id = id ∧ m.generation ≤ n.generation ∧
      ∀ g, n.state = .computing g → m.generation < g := by
  induction ds using List.reverseRecOn generalizing n with
  | nil => cases hn
  | append_singleton ds d ih =>
    rw [valid_append] at h
    rw [life_append] at hn
    obtain ⟨hv, hf, _⟩ := h
    have old : ∀ {k}, life none ds = some k → k.generation ≤ n.generation →
        (∀ g, n.state = .computing g → k.generation < g) → ∃ m ∈ entered (ds ++ [d]), m.id = id ∧
          m.generation ≤ n.generation ∧ ∀ g, n.state = .computing g → m.generation < g := by
      intro k hk hle hlt
      obtain ⟨m, hm, hi, hg, _⟩ := ih hv hk
      refine ⟨m, by rw [entered_append]; exact List.mem_append_left _ hm, hi, Nat.le_trans hg hle, ?_⟩
      exact fun g hs => Nat.lt_of_le_of_lt hg (hlt g hs)
    cases d with
    | enter m =>
      cases hn
      refine ⟨m, by rw [entered_append]; simp [entered, entered?], hf.2, Nat.le_refl _, ?_⟩
      exact fun g hs => nomatch hs
    | leave => cases hn
    | touch ps =>
      obtain ⟨k, hk, rfl⟩ := Option.map_eq_some_iff.1 hn
      exact old hk (Nat.le_refl _) fun g hs => nomatch hs
    | wait port =>
      obtain ⟨k, hk, rfl⟩ := Option.map_eq_some_iff.1 hn
      exact old hk (Nat.le_refl _) fun g hs => nomatch hs
    | answer begins outcome =>
      obtain ⟨k, hk, rfl⟩ := Option.map_eq_some_iff.1 hn
      refine old hk ?_ fun g hs => (Node.not_computing_store _ _ g hs).elim
      rw [Node.generation_store]
      split
      · exact Nat.le_succ _
      · exact Nat.le_refl _
    | start =>
      obtain ⟨k, hk, rfl⟩ := Option.map_eq_some_iff.1 hn
      refine old hk (Nat.le_succ _) fun g hs => ?_
      cases hs
      exact Nat.lt_succ_self _
    | receive g outcome =>
      obtain ⟨k, hk, rfl⟩ := Option.map_eq_some_iff.1 hn
      refine old hk ?_ fun g hs => (Node.not_computing_store _ _ g hs).elim
      exact Nat.le_of_eq (Node.generation_store k outcome).symm

end Deed

end PixelFlow
