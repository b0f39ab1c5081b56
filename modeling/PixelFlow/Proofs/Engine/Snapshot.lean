import PixelFlow.Proofs.Engine.Turn
import PixelFlow.Proofs.Graph.Edit
import PixelFlow.Proofs.Palette

/-!
# Snapshots

A compute sees the parameters of its node and the values at its sinks. These values change only
when a node that feeds it has new outputs or when the links into it change; in both cases the node
is made dirty.

* `Graph.outcome?`: what a compute of a node comes to as things are.
* `Graph.inputs_eq`: the snapshot, sink by sink; `Graph.mem_inputs`, `Graph.inputs_error`: where its
  values come from.
* **`Graph.inputs_turn`**: a turn leaves the snapshots alone of all nodes that it leaves alone.
-/

namespace PixelFlow

namespace Graph

variable {g g' : Graph} {n m : Node}

/-- What a compute of a node comes to as things are: nothing while a sink lacks its value, else
the error of the parameters or the outcome of the compute itself. -/
def outcome? (g : Graph) (files : FileStore) (n : Node) (stamp : Nat) : Option Outcome :=
  match g.inputs n with
  | .error _ => none
  | .ok inputs =>
    match n.metadata.checkParameters n.id n.parameters with
    | .error e => some (.error e)
    | .ok () => some (n.variant.run (n.context inputs stamp files))

/-! ## Where inputs come from -/

/-- A sink that must have a value has none. -/
def lacks (g : Graph) (p : Port) : Bool := (g.inputAt? p).isNone && !p.isOptional

/-- What a sink contributes to a snapshot. -/
def contribution? (g : Graph) (p : Port) : Option (String × Value) :=
  (g.inputAt? p).map fun v => (p.name, v)

theorem collectInputs_eq (g : Graph) (sinks : List Port) (t : Table String Value) :
    g.collectInputs sinks t = match sinks.find? g.lacks with
      | some p => .error p.name
      | none => .ok (t.insertMany (sinks.filterMap g.contribution?)) := by
  induction sinks generalizing t with
  | nil => rfl
  | cons p sinks ih =>
    rw [collectInputs, List.find?_cons, List.filterMap_cons, lacks, contribution?]
    cases hv : g.inputAt? p with
    | some v => exact ih _
    | none =>
      dsimp only
      cases p.isOptional with
      | true => exact ih t
      | false => rfl

/-- **The snapshot of a node**: the first sink that lacks its value, else what all sinks
contribute. -/
theorem inputs_eq (g : Graph) (n : Node) : g.inputs n = match n.sinks.find? g.lacks with
    | some p => .error p.name
    | none => .ok (.ofList (n.sinks.filterMap g.contribution?)) :=
  collectInputs_eq g n.sinks ∅

theorem collectInputs_congr {sinks : List Port} (h : ∀ p ∈ sinks, g'.inputAt? p = g.inputAt? p)
    (t : Table String Value) : g'.collectInputs sinks t = g.collectInputs sinks t := by
  induction sinks generalizing t with
  | nil => rfl
  | cons p sinks ih =>
    have ih := fun t => ih (fun q hq => h q (by simp [hq])) t
    rw [collectInputs, collectInputs, h p (by simp)]
    simp only [ih]

/-- **A sink that needs a value has none if there is no snapshot.** -/
theorem inputs_error {name : String} (h : g.inputs n = .error name) :
    ∃ p ∈ n.sinks, p.name = name ∧ p.isOptional = false ∧ g.inputAt? p = none := by
  rw [inputs_eq] at h
  split at h
  · next p hf =>
    have hl := List.find?_some hf
    rw [lacks, Bool.and_eq_true, Option.isNone_iff_eq_none, Bool.not_eq_true'] at hl
    exact ⟨p, List.mem_of_find?_eq_some hf, Except.error.inj h, hl.2, hl.1⟩
  · cases h

theorem mem_inputs {t : Table String Value} (h : g.inputs n = .ok t) {name : String} {v : Value}
    (hv : t.get? name = some v) : ∃ p ∈ n.sinks, p.name = name ∧ g.inputAt? p = some v := by
  rw [inputs_eq] at h
  split at h
  · cases h
  · obtain rfl := Except.ok.inj h
    obtain ⟨p, hp, hc⟩ := List.mem_filterMap.1 (Table.mem_of_get?_ofList hv)
    obtain ⟨w, hw, e⟩ := Option.map_eq_some_iff.1 hc
    obtain ⟨hn, rfl⟩ := Prod.mk.inj e
    exact ⟨p, hp, hn, hw⟩

/-- The value at a sink is an output of a node or the default. -/
theorem inputAt?_eq_some {p : Port} {v : Value} (h : g.inputAt? p = some v) :
    (∃ id m q, g.node? id = some m ∧ m.outputs.get? q = some v) ∨ p.default = some v := by
  unfold inputAt? at h
  split at h
  · next w hw =>
    cases h
    obtain ⟨l, _, hw⟩ := Option.bind_eq_some_iff.1 hw
    obtain ⟨id, _, hw⟩ := Option.bind_eq_some_iff.1 hw
    obtain ⟨m, hm, hw⟩ := Option.bind_eq_some_iff.1 hw
    exact .inl ⟨id, m, _, hm, hw⟩
  · exact .inr h

/-! ## What leaves snapshots alone -/

theorem inputAt?_congr {p : Port} (h : g'.linkedValue? p.id = g.linkedValue? p.id) :
    g'.inputAt? p = g.inputAt? p := by
  rw [inputAt?, inputAt?, h]

theorem inputs_congr (h : ∀ p ∈ n.ports, g'.inputAt? p = g.inputAt? p) :
    g'.inputs n = g.inputs n :=
  collectInputs_congr (fun p hp => h p (List.mem_of_mem_filter hp)) ∅

theorem outcome?_congr (hb : n.bare = m.bare) (hi : g'.inputs m = g.inputs m) (files : FileStore)
    (stamp : Nat) : g'.outcome? files n stamp = g.outcome? files m stamp := by
  have : ∀ n : Node, g'.outcome? files n stamp = g'.outcome? files n.bare stamp := fun _ => rfl
  rw [this, hb, ← this, outcome?, outcome?, hi]

/-- **A turn changes no snapshot of a node that it does not make dirty.** -/
theorem inputAt?_turn (hg : g.Sound) {id j : NodeId} (f : Node → Node) (spreads : Bool)
    (hf : ∀ m, (f m).bare = m.bare) (ho : spreads = false → ∀ m, (f m).outputs = m.outputs)
    (hn : g.node? j = some n) (hj : ¬ (spreads = true ∧ g.Feeds id j)) {p : Port}
    (hp : p ∈ n.ports) : (g.turn id f spreads).inputAt? p = g.inputAt? p := by
  have hb := bare_turn g id hf spreads
  refine inputAt?_congr (linkedValue?_congr (incoming?_of_bare hb _) fun l hl =>
    ⟨owner?_of_bare hb _, fun a ha => ?_⟩)
  obtain ⟨hlm, hls⟩ := (hg.incoming _ _).1 hl
  have hfeeds : g.Feeds a j := ⟨l, hlm, ha, hls ▸ hg.owner?_port hn hp⟩
  rw [node?_turn hg]
  split
  · next e =>
    subst e
    have hs : spreads = false := by
      rw [← Bool.not_eq_true]
      exact fun hs => hj ⟨hs, hfeeds⟩
    cases g.node? id with
    | none => rfl
    | some m => exact congrArg some (ho hs m)
  · split
    · exact map_outputs_markDirty _
    · rfl

theorem inputs_turn (hg : g.Sound) {id j : NodeId} (f : Node → Node) (spreads : Bool)
    (hf : ∀ m, (f m).bare = m.bare) (ho : spreads = false → ∀ m, (f m).outputs = m.outputs)
    (hn : g.node? j = some n) (hj : ¬ (spreads = true ∧ g.Feeds id j)) :
    (g.turn id f spreads).inputs n = g.inputs n :=
  inputs_congr fun _ => inputAt?_turn hg f spreads hf ho hn hj

end Graph

end PixelFlow
