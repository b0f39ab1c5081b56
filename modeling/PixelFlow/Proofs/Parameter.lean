import PixelFlow.Proofs.Graph.Edit

/-!
# Parameters that may stand for their defaults

A new node has all parameters that its variant declares, with their defaults. What is set later must
be declared and of the kind of its default, where a number may stand for an integer and an integer
for a number. So a parameter never goes missing, and its kind is that of its default but for these
two.

* `Node.Equipped`: each parameter that is declared has a value that may stand for its default;
  `Node.Equipped.insertMany`: what is set keeps this.
* `Node.Enduring`: what edits leave to a node; **`Graph.Holds.perform`**, `Graph.Holds.edited`.
* `NodeMetadata.checkParameters_ok_iff`: what passes before a compute.
* **`Context.read_eq`**: what the getter of the kind of the default then comes to.
-/

namespace PixelFlow

theorem ParamKind.compatible_self (k : ParamKind) : k.compatible k = true := by
  cases k <;> rfl

theorem ParamValue.sameKind_self (v : ParamValue) : v.sameKind v = true :=
  v.kind.compatible_self

/-! ## Nodes -/

/-- **Each parameter that is declared has a value that may stand for its default**, and no two have
one name. -/
structure Node.Equipped (n : Node) : Prop where
  names : (n.metadata.parameters.map (·.name)).Nodup
  value : ∀ d ∈ n.metadata.parameters,
    ∃ v, n.parameters.get? d.name = some v ∧ d.default.sameKind v = true

namespace Node

variable {n m : Node}

/-- A node with the defaults is equipped. -/
theorem equipped_of_defaults (hn : (n.metadata.parameters.map (·.name)).Nodup)
    (hp : n.parameters = n.metadata.defaultParameters) : n.Equipped := by
  refine ⟨hn, fun d hd => ⟨d.default, ?_, d.default.sameKind_self⟩⟩
  rw [hp]
  refine Table.get?_ofList_of_mem ?_ (List.mem_map.2 ⟨d, hd, rfl⟩)
  rw [List.map_map]
  exact hn

namespace Equipped

/-- Only variant and parameters matter. -/
theorem congr (h : n.Equipped) (hv : m.variant = n.variant) (hp : m.parameters = n.parameters) :
    m.Equipped := by
  have hm : m.metadata = n.metadata := congrArg Variant.metadata hv
  exact ⟨hm ▸ h.names, fun d hd => hp ▸ h.value d (hm ▸ hd)⟩

/-- The definition of a parameter is found under its name. -/
theorem parameter? (h : n.Equipped) {d d' : ParameterDefinition}
    (hd : d ∈ n.metadata.parameters) (hf : n.metadata.parameter? d.name = some d') : d' = d := by
  have hd' := List.mem_of_find?_eq_some hf
  have hname : d'.name = d.name := by simpa using List.find?_some hf
  exact List.inj_on_of_nodup_map h.names hd' hd hname

/-- **Values that are checked may be set.** -/
theorem insertMany (h : n.Equipped) {l : List (String × ParamValue)} {id : NodeId}
    (hl : ∀ e ∈ l, Graph.checkParameter n id e.1 e.2 = .ok ()) :
    ({ n with parameters := n.parameters.insertMany l } : Node).Equipped := by
  -- what is set is declared, so that no name is added
  have declared : ∀ e ∈ l, ∃ d, n.metadata.parameter? e.1 = some d ∧
      d.default.sameKind e.2 = true := by
    intro e he
    have passed := hl e he
    rw [Graph.checkParameter] at passed
    split at passed
    · cases passed
    · next d hd =>
      split at passed
      · next hk => exact ⟨d, hd, hk⟩
      · cases passed
  have keys : (n.parameters.insertMany l).keys = n.parameters.keys := by
    refine Table.keys_insertMany_of_mem fun e he => ?_
    obtain ⟨d, hd, _⟩ := declared e he
    have hname : d.name = e.1 := by simpa using List.find?_some hd
    obtain ⟨v, hv, _⟩ := h.value d (List.mem_of_find?_eq_some hd)
    exact hname ▸ Table.mem_keys_of_get? hv
  refine ⟨h.names, fun d hd => ?_⟩
  obtain ⟨v, hv, hk⟩ := h.value d hd
  have there : d.name ∈ (n.parameters.insertMany l).keys := keys ▸ Table.mem_keys_of_get? hv
  obtain ⟨w, hw⟩ := Option.isSome_iff_exists.1 ((Table.mem_iff_isSome ..).1 there)
  refine ⟨w, hw, ?_⟩
  rcases Table.get?_insertMany hw with hm | old
  · obtain ⟨d', hd', hk'⟩ := declared _ hm
    rwa [h.parameter? hd hd'] at hk'
  · rw [hv] at old
    cases old
    exact hk

end Equipped

end Node

/-! ## Graphs -/

/-- **A property that edits leave to a node**: it depends on variant, ports and parameters only, and
values that are checked may be set. -/
structure Node.Enduring (P : Node → Prop) : Prop where
  congr : ∀ {n m : Node}, P n → m.variant = n.variant → m.ports = n.ports →
    m.parameters = n.parameters → P m
  set : ∀ {n : Node} {l : List (String × ParamValue)} {id : NodeId}, P n →
    (∀ e ∈ l, Graph.checkParameter n id e.1 e.2 = .ok ()) →
      P { n with parameters := n.parameters.insertMany l }

theorem Node.enduring_equipped : Node.Enduring Node.Equipped where
  congr h hv _ hp := h.congr hv hp
  set h hl := h.insertMany hl

/-- The node of an identifier has the property, if there is one. -/
def Graph.Holds (g : Graph) (id : NodeId) (P : Node → Prop) : Prop :=
  ∀ n, g.node? id = some n → P n

namespace Graph

variable {P : Node → Prop} {g h : Graph} {id : NodeId}

namespace Holds

theorem of_bare (hg : g.Holds id P) (hP : Node.Enduring P) (e : h.bare = g.bare) :
    h.Holds id P := by
  intro n hn
  obtain ⟨m, hm, hb⟩ := node?_of_bare e hn
  have hv := congrArg Node.variant hb
  have hq := congrArg Node.ports hb
  have hp := congrArg Node.parameters hb
  exact hP.congr (hg m hm) hv.symm hq.symm hp.symm

/-- A node that is missing, unchanged or dirty now has the property if it had it. -/
theorem of_node? (hg : g.Holds id P) (hP : Node.Enduring P) (hn : h.node? id = none ∨
    h.node? id = g.node? id ∨ h.node? id = (g.node? id).map (·.markDirty)) : h.Holds id P := by
  intro n hid
  rcases hn with e | e | e
  · rw [e] at hid
    cases hid
  · exact hg n (e ▸ hid)
  · obtain ⟨m, hm, rfl⟩ := Option.map_eq_some_iff.1 (e ▸ hid)
    exact hP.congr (hg m hm) rfl rfl rfl

theorem insert (hg : g.Holds id P) (hP : Node.Enduring P) {n : Node} (hn : n.id = id → P n) :
    (g.insert n).Holds id P := by
  intro m hm
  rw [node?_insert] at hm
  split at hm
  · next e =>
    cases hm
    exact hP.congr (hn e) rfl rfl rfl
  · exact hg m hm

theorem disconnect (hg : g.Holds id P) (hP : Node.Enduring P) (l : Link) :
    (g.disconnect l).Holds id P := by
  refine hg.of_node? hP (.inr ?_)
  rw [node?_disconnect]
  split
  · exact .inr rfl
  · exact .inl rfl

theorem remove (hg : g.Holds id P) (hP : Node.Enduring P) (i : NodeId) :
    (g.remove i).Holds id P := by
  refine hg.of_node? hP ?_
  rw [node?_remove]
  split
  · exact .inl rfl
  · split
    · exact .inr (.inr rfl)
    · exact .inr (.inl rfl)

theorem connect (hg : g.Holds id P) (hP : Node.Enduring P) {source sink : PortId}
    (hc : g.connect source sink = .ok h) : h.Holds id P := by
  obtain ⟨p, q, _, _, _, _, _, _, _, rfl⟩ := connect_ok hc
  have hl : (g.linked ⟨source, sink⟩).Holds id P := hg
  refine hl.of_node? hP (.inr ?_)
  rw [markDirty, node?_modifyNode]
  split
  · exact .inr rfl
  · exact .inl rfl

/-- **Parameters that are set have passed their checks.** -/
theorem setParameters (hg : g.Holds id P) (hP : Node.Enduring P) {i : NodeId} {ps : Parameters}
    (hs : g.setParameters i ps = .ok h) : h.Holds id P := by
  obtain ⟨m, hm, rfl⟩ := setParameters_ok hs
  intro n hn
  rw [node?_modifyNode] at hn
  split at hn
  · next e =>
    subst e
    rw [hm] at hn
    cases hn
    exact hP.congr (hP.set (hg m hm) (setParameters_checked hs hm)) rfl rfl rfl
  · exact hg n hn

/-- **An accepted edit leaves the property to a node**, if those that come in under its name have
it. -/
theorem perform (hg : g.Holds id P) (hP : Node.Enduring P) {change : Edit} {r : Edit.Result}
    (hb : ∀ n ∈ change.newcomers, n.id = id → P n) (hr : g.perform change = .ok r) :
    r.graph.Holds id P := by
  have connects : ∀ {s t}, g.performConnect s t = .ok r → r.graph.Holds id P := by
    intro s t hc
    obtain ⟨_, _, hc, _⟩ := performConnect_ok hc
    exact hg.connect hP hc
  cases change with
  | add n =>
    simp only [Graph.perform, bind, Except.bind] at hr
    split at hr
    · cases hr
    · next g' hadd =>
      cases hr
      obtain ⟨_, _, rfl⟩ := add_ok hadd
      exact hg.insert hP (hb n (List.mem_singleton_self n))
  | addFresh n =>
    cases hr
    exact hg.insert hP (hb n (List.mem_singleton_self n))
  | remove i =>
    cases hr
    exact hg.remove hP i
  | connect s t => exact connects hr
  | connectNamed m p n q =>
    simp only [Graph.perform, bind, Except.bind] at hr
    split at hr
    · cases hr
    · split at hr
      · cases hr
      · exact connects hr
  | disconnect l =>
    cases hr
    rw [performDisconnect]
    split
    · exact hg.disconnect hP l
    · exact hg
  | setParameters i ps =>
    simp only [Graph.perform, bind, Except.bind] at hr
    split at hr
    · cases hr
    · next g' hs =>
      cases hr
      exact hg.setParameters hP hs

end Holds

/-- Make edits, one after the other; what is refused changes nothing. -/
def edited (g : Graph) : List Edit → Graph
  | [] => g
  | change :: changes =>
    match g.perform change with
    | .ok r => r.graph.edited changes
    | .error _ => g.edited changes

/-- **However a graph is edited**, the node has the property if those that come in under its name
have it. -/
theorem Holds.edited (hg : g.Holds id P) (hP : Node.Enduring P) (changes : List Edit)
    (hb : ∀ c ∈ changes, ∀ n ∈ c.newcomers, n.id = id → P n) : (g.edited changes).Holds id P := by
  induction changes generalizing g with
  | nil => exact hg
  | cons c changes ih =>
    obtain ⟨first, later⟩ := List.forall_mem_cons.1 hb
    rw [Graph.edited]
    split
    · next hr => exact ih (hg.perform hP first hr) later
    · exact ih hg later

end Graph

/-! ## Checks before a compute -/

/-- Checks over a list pass if each of them does. -/
theorem forM_ok_iff {ε α : Type} {check : α → Except ε PUnit} {l : List α} :
    l.forM check = .ok ⟨⟩ ↔ ∀ a ∈ l, check a = .ok ⟨⟩ := by
  refine ⟨Graph.of_forM_ok, fun h => ?_⟩
  induction l with
  | nil => rfl
  | cons a l ih =>
    obtain ⟨ha, hl⟩ := List.forall_mem_cons.1 h
    rw [List.forM, ha]
    exact ih hl

theorem forM_congr {ε α : Type} {f g : α → Except ε PUnit} {l : List α} (h : ∀ a ∈ l, f a = g a) :
    l.forM f = l.forM g := by
  induction l with
  | nil => rfl
  | cons a l ih =>
    obtain ⟨ha, hl⟩ := List.forall_mem_cons.1 h
    rw [List.forM, List.forM, ha, ih hl]

/-- A value passes the only constraint, or violates it. -/
theorem ParameterDefinition.check_single {d : ParameterDefinition} {k : Constraint}
    (hd : d.constraints = [k]) (v : ParamValue) : d.check v = k.check v := by
  rw [check, hd, List.forM_eq_forM, List.forM_cons, List.forM_nil]
  cases k.check v <;> rfl

/-- The parameters of a node pass if each that has a value passes its own constraints. -/
theorem NodeMetadata.checkParameters_ok_iff {m : NodeMetadata} {id : NodeId} {ps : Parameters} :
    m.checkParameters id ps = .ok () ↔
      ∀ d ∈ m.parameters, ∀ v, ps.get? d.name = some v → d.check v = .ok () := by
  rw [checkParameters, forM_ok_iff]
  refine forall₂_congr fun d _ => ?_
  cases ps.get? d.name with
  | none => simp
  | some v => cases h : d.check v <;> simp [Except.mapError, h]

/-! ## Getters -/

namespace Context

/-- The getter of a kind. -/
def read (c : Context) (name : String) : ParamKind → Except ComputeError ParamValue
  | .number => .number <$> c.number name
  | .integer => .integer <$> c.integer name
  | .text => .text <$> c.text name
  | .boolean => .boolean <$> c.boolean name
  | .color => .color <$> c.color name

variable {c : Context} {name : String} {v w : ParamValue}

/-- A getter finds the value that its view gives, or tells the reason. -/
theorem map_typedParameter {α : Type} (f : α → ParamValue) {reason : String}
    {view : ParamValue → Option α} (hw : c.parameters.get? name = some w) :
    f <$> c.typedParameter reason view name =
      match view w with
      | some a => .ok (f a)
      | none => .error (c.invalidParameter name reason) := by
  rw [typedParameter, parameter, hw]
  dsimp only [bind, Except.bind]
  cases view w <;> rfl

/-- What the getter of a kind makes of a value that may stand for one of this kind: an integer is
widened to a number, but no number is an integer. -/
def taken (c : Context) (name : String) : ParamKind → ParamValue → Except ComputeError ParamValue
  | .number, .integer n => .ok (.number (.ofInt n.toInt))
  | .integer, .number _ => .error (c.invalidParameter name "expected an integer")
  | _, v => .ok v

/-- Only a number in the place of an integer is not taken. -/
theorem taken_ok {k : ParamKind} (h : k = .integer → ∀ x, v ≠ .number x) :
    ∃ w, c.taken name k v = .ok w := by
  unfold taken
  split
  · exact ⟨_, rfl⟩
  · next x => exact (h rfl x rfl).elim
  · exact ⟨_, rfl⟩

/-- **What the getter of the kind of a value comes to where another one stands for it.** -/
theorem read_eq (hk : v.sameKind w = true) (hw : c.parameters.get? name = some w) :
    c.read name v.kind = c.taken name v.kind w := by
  cases v <;> cases w <;> first | exact map_typedParameter _ hw | cases hk

end Context

end PixelFlow
