import PixelFlow.Engine.Wave
import PixelFlow.Proofs.Fills
import PixelFlow.Proofs.Graph.Sound
import PixelFlow.Proofs.Table

/-!
# Types of values

A proper variant names its ports apart, gives its sinks defaults of their types, and reaches its
context by the accessors only. Then a compute that succeeds comes to one value for each source port,
of the type of the port, and by the ports of its node the outputs are the same.

* `Table.Fills`: one value for each declared key, of its type.
* `Variant.Proper`: what is asked of a variant; **`Builtin.proper`**.
* **`Compute.Abides.fills_run`**: the outcome of a compute has the types that were declared.
* `Node.OfVariant`: the ports of a node are those of its variant.
* `Node.Fitting`: values by port, one for each source port, of its type.
* **`Node.OfVariant.fills_outputsByPort`**: outputs by port have the types of the ports.
* `Context.Typed`: what is at the sinks has their types.
-/

namespace PixelFlow

open Relation

/-- **One value for each key that is declared, of the type declared for it, and no other.** -/
def Table.Fills {κ : Type} [DecidableEq κ] (declared : Table κ PortType) (t : Table κ Value) :
    Prop := ∀ k, (t.get? k).map (·.type) = declared.get? k

/-! ## Computes -/

/-- **What is asked of a variant**: its ports have names of their own, its sinks have defaults of
their types, and its compute changes its context by setting outputs and making images only. -/
structure Variant.Proper (v : Variant) : Prop where
  names : (v.metadata.ports.map (·.name)).Nodup
  defaults : ∀ s ∈ v.metadata.sinks, ∀ d, s.default = some d → d.type = s.type
  abides : v.compute.Abides

namespace Context

variable {c d : Context}

/-- The outputs set so far were declared with the types of their values. -/
def Sorted (c : Context) : Prop :=
  ∀ name v, c.outputs.get? name = some v → c.declared.get? name = some v.type

theorem Access.sorted (h : c.Access d) (hc : c.Sorted) : d.Sorted := by
  cases h with
  | image => exact hc
  | @output _ name v h =>
    obtain ⟨hd, rfl⟩ := setOutput_ok h
    intro k w hw
    have hw : (c.outputs.insert name v).get? k = some w := hw
    rw [Table.get?_insert] at hw
    split at hw
    · next e =>
      cases hw
      exact e ▸ hd
    · exact hc k w hw

theorem sorted_of_accesses (h : ReflTransGen Access c d) (hc : c.Sorted) : d.Sorted := by
  induction h with
  | refl => exact hc
  | tail _ hd ih => exact hd.sorted ih

end Context

/-- **A compute that succeeds has set all that was declared, with the types that were declared.** -/
theorem Compute.Abides.fills_run {v : Variant} (h : v.compute.Abides) {c : Context}
    (hc : c.outputs = ∅) {t : Table String Value} (ht : v.run c = .ok t) : c.declared.Fills t := by
  have all : ∀ name ∈ c.declared.keys, t.contains name = true := h.keeps.fills c t ht
  have sorted : ∀ name w, t.get? name = some w → c.declared.get? name = some w.type := by
    unfold Variant.run at ht
    split at ht
    · next d hd =>
      have ha := h c () d hd
      unfold Context.finish at ht
      split at ht
      · cases ht
      · cases ht
        rw [← declared_of_access ha]
        refine Context.sorted_of_accesses ha fun name w hw => ?_
        rw [hc] at hw
        cases hw
    · cases ht
    · cases ht
  intro name
  cases hv : t.get? name with
  | some w => exact (sorted name w hv).symm
  | none =>
    cases hd : c.declared.get? name with
    | none => rfl
    | some ty =>
      have := all name (Table.mem_keys_of_get? hd)
      rw [Table.contains, hv] at this
      cases this

/-! ## Nodes -/

/-- The ports of the node are those that its variant declares. -/
def Node.OfVariant (n : Node) : Prop :=
  n.ports.map (fun p => (p.name, p.kind, p.type, p.default)) =
    n.variant.metadata.ports.map fun s => (s.name, s.kind, s.type, s.default)

/-- **One value for each source port, of its type, and no other.** -/
structure Node.Fitting (n : Node) (t : Table PortId Value) : Prop where
  keys : t.keys.Perm (n.sources.map (·.id))
  value : ∀ p ∈ n.sources, ∃ v, t.get? p.id = some v ∧ v.type = p.type

/-- The types of the source ports. -/
def Node.sourceTypes (n : Node) : Table PortId PortType :=
  .ofList (n.sources.map fun p => (p.id, p.type))

/-- The sinks with their types. -/
def Variant.sinkTypes (v : Variant) : List (String × PortType) :=
  v.metadata.sinks.map fun s => (s.name, s.type)

namespace Node.OfVariant

variable {n m : Node}

theorem build (v : Variant) (id : NodeId) (portId : Nat → PortId) :
    (Node.build v id portId).OfVariant := by
  have key : ∀ l : List (PortSpec × Nat),
      (l.map fun x => Port.ofSpec (portId x.2) id x.1).map
        (fun p => (p.name, p.kind, p.type, p.default)) =
      (l.map Prod.fst).map fun s => (s.name, s.kind, s.type, s.default) := by
    intro l
    rw [List.map_map, List.map_map]
    rfl
  show (v.metadata.ports.zipIdx.map fun x => Port.ofSpec (portId x.2) id x.1).map _ = _
  rw [key, List.zipIdx_map_fst]
  rfl

/-- Only variant and ports matter. -/
theorem congr (h : n.OfVariant) (hv : m.variant = n.variant) (hp : m.ports = n.ports) :
    m.OfVariant := by
  rw [OfVariant, hv, hp]
  exact h

theorem withId (h : n.OfVariant) (id : NodeId) : (n.withId id).OfVariant := by
  rw [OfVariant, Node.withId, List.map_map]
  exact h

theorem names (h : n.OfVariant) (hv : n.variant.Proper) : (n.ports.map (·.name)).Nodup := by
  have := congrArg (List.map Prod.fst) h
  rw [List.map_map, List.map_map] at this
  exact (show n.ports.map (·.name) = _ from this) ▸ hv.names

theorem sinks (h : n.OfVariant) :
    n.sinks.map (fun p => (p.name, p.type, p.default)) =
      n.variant.metadata.sinks.map fun s => (s.name, s.type, s.default) := by
  have := congrArg (fun l => (l.filter (·.2.1 == .sink)).map fun x => (x.1, x.2.2.1, x.2.2.2)) h
  simp only [List.filter_map, List.map_map] at this
  exact this

theorem sources (h : n.OfVariant) :
    n.sources.map (fun p => (p.name, p.type)) =
      n.variant.metadata.sources.map fun s => (s.name, s.type) := by
  have := congrArg (fun l => (l.filter (·.2.1 == .source)).map fun x => (x.1, x.2.2.1)) h
  simp only [List.filter_map, List.map_map] at this
  exact this

theorem declared (h : n.OfVariant) :
    (Table.ofList (n.sources.map fun p => (p.name, p.type)) : Table String PortType) =
      n.variant.declared := congrArg Table.ofList h.sources

/-- The declared type of a source port is found under its name. -/
theorem get?_declared (h : n.OfVariant) (hv : n.variant.Proper) {p : Port} (hp : p ∈ n.sources) :
    n.variant.declared.get? p.name = some p.type := by
  rw [← h.declared]
  refine Table.get?_ofList_of_mem ?_ (List.mem_map.2 ⟨p, hp, rfl⟩)
  rw [List.map_map]
  exact (h.names hv).sublist (List.filter_sublist.map _)

/-- A port is found by its name. -/
theorem eq_of_name (h : n.OfVariant) (hv : n.variant.Proper) {p q : Port} (hp : p ∈ n.ports)
    (hq : q ∈ n.ports) (e : p.name = q.name) : p = q :=
  List.inj_on_of_nodup_map (h.names hv) hp hq e

/-- The default of a sink is of its type. -/
theorem default_type (h : n.OfVariant) (hv : n.variant.Proper) {p : Port} (hp : p ∈ n.sinks)
    {d : Value} (hd : p.default = some d) : d.type = p.type := by
  have hm : (p.name, p.type, p.default) ∈ n.sinks.map fun p => (p.name, p.type, p.default) :=
    List.mem_map.2 ⟨p, hp, rfl⟩
  rw [h.sinks] at hm
  obtain ⟨s, hs, e⟩ := List.mem_map.1 hm
  obtain ⟨_, ht, hd'⟩ : s.name = p.name ∧ s.type = p.type ∧ s.default = p.default := by
    simpa using e
  exact ht ▸ hv.defaults s hs d (hd'.trans hd)

theorem sinkTypes (h : n.OfVariant) :
    n.sinks.map (fun p => (p.name, p.type)) = n.variant.sinkTypes := by
  have := congrArg (List.map fun x => (x.1, x.2.1)) h.sinks
  rw [List.map_map, List.map_map] at this
  exact this

theorem mem_sinkTypes (h : n.OfVariant) {p : Port} (hp : p ∈ n.sinks) :
    (p.name, p.type) ∈ n.variant.sinkTypes :=
  h.sinkTypes ▸ List.mem_map.2 ⟨p, hp, rfl⟩

end Node.OfVariant

namespace Node.WellFormed

variable {n : Node}

theorem nodup_sources (h : n.WellFormed) : (n.sources.map (·.id)).Nodup :=
  h.nodup.sublist (List.filter_sublist.map _)

theorem get?_sourceTypes (h : n.WellFormed) {p : Port} (hp : p ∈ n.sources) :
    n.sourceTypes.get? p.id = some p.type := by
  refine Table.get?_ofList_of_mem ?_ (List.mem_map.2 ⟨p, hp, rfl⟩)
  rw [List.map_map]
  exact h.nodup_sources

theorem fitting (h : n.WellFormed) {t : Table PortId Value} (ht : n.sourceTypes.Fills t) :
    n.Fitting t := by
  refine ⟨(List.perm_ext_iff_of_nodup t.nodup_keys h.nodup_sources).2 fun q => ?_, fun p hp =>
    Option.map_eq_some_iff.1 ((ht p.id).trans (h.get?_sourceTypes hp))⟩
  have keys : (n.sources.map fun p => (p.id, p.type)).map Prod.fst = n.sources.map (·.id) :=
    List.map_map
  have sources : q ∈ n.sources.map (·.id) ↔ q ∈ n.sourceTypes.keys := by
    rw [← keys]
    exact Table.mem_keys_ofList.symm
  rw [sources, Table.mem_iff_isSome, Table.mem_iff_isSome, ← ht q, Option.isSome_map]

end Node.WellFormed

theorem Node.mem_sourceTypes {n : Node} {q : PortId} {ty : PortType}
    (h : n.sourceTypes.get? q = some ty) : ∃ p ∈ n.sources, p.id = q ∧ p.type = ty := by
  obtain ⟨p, hp, e⟩ := List.mem_map.1 (Table.mem_of_get?_ofList h)
  cases e
  exact ⟨p, hp, rfl, rfl⟩

/-- **By the ports of its node, the outcome of a compute has the types of the ports.** -/
theorem Node.OfVariant.fills_outputsByPort {n : Node} (h : n.OfVariant) (hv : n.variant.Proper)
    (hw : n.WellFormed) {t : Table String Value} (ht : n.variant.declared.Fills t) :
    n.sourceTypes.Fills (Wave.outputsByPort n t) := by
  have named : ∀ {p name}, n.sources.find? (·.name == name) = some p → p ∈ n.sources ∧ p.name = name :=
    fun hf => ⟨List.mem_of_find?_eq_some hf, by simpa using List.find?_some hf⟩
  intro q
  cases hq : (Wave.outputsByPort n t).get? q with
  | some v =>
    obtain ⟨⟨name, w⟩, hm, e⟩ := List.mem_filterMap.1 (Table.mem_of_get?_ofList hq)
    obtain ⟨p, hf, e⟩ := Option.map_eq_some_iff.1 e
    cases e
    obtain ⟨hp, rfl⟩ := named hf
    have ty := ht p.name
    rw [(Table.get?_eq_some_iff ..).2 hm, h.get?_declared hv hp] at ty
    rw [hw.get?_sourceTypes hp]
    exact ty
  | none =>
    cases hd : n.sourceTypes.get? q with
    | none => rfl
    | some ty =>
      obtain ⟨p, hp, rfl, rfl⟩ := mem_sourceTypes hd
      have ty := ht p.name
      rw [h.get?_declared hv hp] at ty
      obtain ⟨v, hvt, _⟩ := Option.map_eq_some_iff.1 ty
      obtain ⟨p', hf⟩ : ∃ p', n.sources.find? (·.name == p.name) = some p' :=
        Option.isSome_iff_exists.1 (List.find?_isSome.2 ⟨p, hp, by simp⟩)
      obtain ⟨hp', hname⟩ := named hf
      obtain rfl := h.eq_of_name hv (List.mem_of_mem_filter hp') (List.mem_of_mem_filter hp) hname
      have entry : (p'.id, v) ∈ t.entries.filterMap fun e =>
          (n.sources.find? (·.name == e.1)).map fun p => (p.id, e.2) :=
        List.mem_filterMap.2 ⟨(p'.name, v), (Table.get?_eq_some_iff ..).1 hvt, by simp [hf]⟩
      have : p'.id ∈ (Wave.outputsByPort n t).keys :=
        Table.mem_keys_ofList.2 (List.mem_map_of_mem entry)
      rw [Table.mem_iff_isSome, hq] at this
      cases this

/-! ## Contexts -/

/-- **What is at the sinks has their types**: every input is that of a sink and has its type, so
that no getter fails because of a type. -/
structure Context.Typed (c : Context) (sinks : List (String × PortType)) : Prop where
  input : ∀ name v, c.inputs.get? name = some v → (name, v.type) ∈ sinks
  image : ∀ name, (name, .image) ∈ sinks → c.hasInput name = true → ∃ i, c.inputImage name = .ok i
  number : ∀ name, (name, .number) ∈ sinks → c.hasInput name = true →
    ∃ x, c.inputNumber name = .ok x
  color : ∀ name, (name, .color) ∈ sinks → c.hasInput name = true → ∃ x, c.inputColor name = .ok x

namespace Context

variable {c : Context} {sinks : List (String × PortType)}

/-- A getter finds a value of the type that it expects. -/
theorem typedInput_ok {α : Type} {ty : PortType} {view : Value → Option α}
    (hview : ∀ v, v.type = ty → ∃ a, view v = some a) {name : String} {v : Value}
    (hv : c.inputs.get? name = some v) (ht : v.type = ty) :
    ∃ a, c.typedInput ty view name = .ok a := by
  obtain ⟨a, ha⟩ := hview v ht
  refine ⟨a, ?_⟩
  simp [typedInput, input, hv, ha, bind, Except.bind, pure, Except.pure]

theorem typed_of_inputs (hs : (sinks.map Prod.fst).Nodup)
    (h : ∀ name v, c.inputs.get? name = some v → (name, v.type) ∈ sinks) : c.Typed sinks := by
  have value : ∀ {name ty}, (name, ty) ∈ sinks → c.hasInput name = true →
      ∃ v, c.inputs.get? name = some v ∧ v.type = ty := by
    intro name ty hm hp
    obtain ⟨v, hv⟩ := Option.isSome_iff_exists.1 hp
    cases List.inj_on_of_nodup_map hs hm (h name v hv) rfl
    exact ⟨v, hv, rfl⟩
  refine ⟨h, fun name hm hp => ?_, fun name hm hp => ?_, fun name hm hp => ?_⟩ <;>
    obtain ⟨v, hv, ht⟩ := value hm hp
  · exact typedInput_ok (fun w hw => by cases w <;> cases hw; exact ⟨_, rfl⟩) hv ht
  · exact typedInput_ok (fun w hw => by cases w <;> cases hw; exact ⟨_, rfl⟩) hv ht
  · exact typedInput_ok (fun w hw => by cases w <;> cases hw; exact ⟨_, rfl⟩) hv ht

end Context

theorem Variant.Proper.nodup_sinkTypes {v : Variant} (h : v.Proper) :
    (v.sinkTypes.map Prod.fst).Nodup := by
  rw [Variant.sinkTypes, List.map_map]
  exact h.names.sublist (List.filter_sublist.map _)

/-! ## The library -/

/-- **Every variant that comes with the library is proper.** -/
theorem Builtin.proper (v : Variant) (hv : Palette.builtin.variants v) : v.Proper := by
  have abides := Builtin.abides v hv
  have hv := Registry.mem_builtin.1 hv
  simp only [List.mem_cons, List.not_mem_nil, or_false] at hv
  rcases hv with rfl | rfl | rfl | rfl | rfl | rfl | rfl | rfl
  all_goals exact ⟨by decide, by decide, abides⟩

end PixelFlow
