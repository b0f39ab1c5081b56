import PixelFlow.Proofs.Engine.Consistent
import PixelFlow.Proofs.Engine.Sweep

/-!
# Evaluation of a graph

What the nodes of a graph come to is a recursion along its links: each compute is applied to the
parameters of its node and to what the nodes that feed it come to. Graphs with the same nodes and
links come to the same, apart from the revisions of images.

* `Node.Twin`, `Graph.Twin`: nodes and graphs that differ only in what waves change.
* **`Graph.outcome?_twin`**: twins that see the same come to the same.
* `Graph.showing`: the graph with other outputs.
* **`Graph.Sound.evaluate?`**: the recursion.
* **`Graph.Sound.evaluate?_twin`**: where every output is up to date, it is what the recursion says.
-/

namespace PixelFlow

open Relation Wave

/-! ## Twins -/

/-- The compute looks its parameters up by their names only. -/
def Variant.ByName (v : Variant) : Prop :=
  ∀ (c : Context) (ps : Parameters), (∀ name, ps.get? name = c.parameters.get? name) →
    v.run { c with parameters := ps } = v.run c

/-- **The nodes differ only in what waves change**: they have the same name, variant, ports and
parameters, and if the parameters are in another order, then the compute does not see it. -/
structure Node.Twin (n m : Node) : Prop where
  id : n.id = m.id
  variant : n.variant = m.variant
  ports : n.ports = m.ports
  parameters : n.parameters = m.parameters ∨
    n.variant.ByName ∧ ∀ name, m.parameters.get? name = n.parameters.get? name

theorem Node.Twin.of_bare {n m : Node} (h : n.bare = m.bare) : n.Twin m where
  id := show n.bare.id = _ by rw [h]; rfl
  variant := show n.bare.variant = _ by rw [h]; rfl
  ports := show n.bare.ports = _ by rw [h]; rfl
  parameters := .inl (show n.bare.parameters = _ by rw [h]; rfl)

theorem NodeMetadata.checkParameters_congr (m : NodeMetadata) (id : NodeId) {ps qs : Parameters}
    (h : ∀ name, ps.get? name = qs.get? name) :
    m.checkParameters id ps = m.checkParameters id qs := by
  simp only [checkParameters, h]

theorem Node.Twin.checkParameters {n m : Node} (h : n.Twin m) :
    m.metadata.checkParameters m.id m.parameters =
      n.metadata.checkParameters n.id n.parameters := by
  rw [Node.metadata, Node.metadata, h.variant, h.id]
  rcases h.parameters with e | ⟨_, e⟩
  · rw [e]
  · exact NodeMetadata.checkParameters_congr _ _ e

namespace Graph

/-- **The graphs have the same nodes**, apart from what waves change, **and the same links.** -/
structure Twin (g h : Graph) : Prop where
  nodes : ∀ id, Option.Rel Node.Twin (g.node? id) (h.node? id)
  links : ∀ l, l ∈ g.links ↔ l ∈ h.links

variable {g h : Graph} {id : NodeId} {n m : Node} {files : FileStore} {P : Palette}

/-- The order of links does not matter. -/
theorem Twin.of_perm (hn : h.nodes.map Node.bare = g.nodes.map Node.bare)
    (hl : h.links.Perm g.links) : h.Twin g where
  nodes id := by
    have node : (h.node? id).map Node.bare = (g.node? id).map Node.bare := by
      rw [← node?_bare, ← node?_bare]
      exact congrArg (Table.get? · id) hn
    cases hn : h.node? id with
    | none =>
      rw [hn, Option.map_none] at node
      rw [Option.map_eq_none_iff.1 node.symm]
      exact .none
    | some n =>
      rw [hn, Option.map_some] at node
      obtain ⟨m, hm, hb⟩ := Option.map_eq_some_iff.1 node.symm
      rw [hm]
      exact .some (.of_bare hb.symm)
  links _ := hl.mem_iff

theorem Twin.of_bare (e : h.bare = g.bare) : h.Twin g :=
  .of_perm (congrArg Graph.nodes e) (by rw [links_of_bare e])

namespace Twin

variable (hs : g.Twin h)

include hs

theorem node? (hn : g.node? id = some n) : ∃ m, h.node? id = some m ∧ n.Twin m := by
  have := hs.nodes id
  rw [hn] at this
  generalize h.node? id = x at this ⊢
  cases this with
  | some h => exact ⟨_, rfl, h⟩

theorem node?' (hm : h.node? id = some m) : ∃ n, g.node? id = some n ∧ n.Twin m := by
  have := hs.nodes id
  rw [hm] at this
  generalize g.node? id = x at this ⊢
  cases this with
  | some h => exact ⟨_, rfl, h⟩

theorem owner? (hg : g.Sound) (hh : h.Sound) (p : PortId) : h.owner? p = g.owner? p := by
  refine Option.ext fun id => ?_
  rw [hg.owners, hh.owners]
  constructor
  · rintro ⟨m, hm, hp⟩
    obtain ⟨n, hn, ht⟩ := hs.node?' hm
    exact ⟨n, hn, by rwa [Node.portIds, ht.ports]⟩
  · rintro ⟨n, hn, hp⟩
    obtain ⟨m, hm, ht⟩ := hs.node? hn
    exact ⟨m, hm, by rwa [Node.portIds, ← ht.ports]⟩

theorem incoming? (hg : g.Sound) (hh : h.Sound) (s : PortId) : h.incoming? s = g.incoming? s := by
  refine Option.ext fun l => ?_
  rw [hg.incoming, hh.incoming, hs.links]

end Twin

/-! ## What twins see and come to -/

theorem collectInputs_inStep {sinks : List Port}
    (hi : ∀ p ∈ sinks, Value.Agree (g.inputAt? p) (h.inputAt? p)) {s t : Table String Value}
    (hst : ∀ name, Value.Agree (s.get? name) (t.get? name)) :
    InStep True (fun s t => ∀ name, Value.Agree (Table.get? s name) (Table.get? t name))
      (g.collectInputs sinks s) (h.collectInputs sinks t) := by
  induction sinks generalizing s t with
  | nil => exact .ok hst
  | cons p sinks ih =>
    have ih := fun {s t} => @ih (fun q hq => hi q (by simp [hq])) s t
    have hp := hi p (by simp)
    rw [collectInputs, collectInputs]
    generalize g.inputAt? p = v at hp ⊢
    generalize h.inputAt? p = w at hp ⊢
    cases hp with
    | none =>
      dsimp only
      split
      · exact ih hst
      · exact .error fun _ => rfl
    | some hvw =>
      refine ih fun name => ?_
      rw [Table.get?_insert, Table.get?_insert]
      split
      · exact .some hvw
      · exact hst name

/-- **Twins that see the same come to the same**, whatever the stamps of their computes. -/
theorem outcome?_twin (hn : n.OfPalette P) (ht : n.Twin m)
    (hi : ∀ p ∈ n.ports, Value.Agree (g.inputAt? p) (h.inputAt? p)) (files : FileStore)
    (s t : Nat) : Option.Rel (Outcome.Match Image.Alike True) (g.outcome? files n s)
      (h.outcome? files m t) := by
  have inputs : InStep True _ (g.collectInputs n.sinks ∅) (h.collectInputs n.sinks ∅) :=
    collectInputs_inStep (fun p hp => hi p (List.mem_of_mem_filter hp)) fun _ => .none
  have sinks : m.sinks = n.sinks := by rw [Node.sinks, Node.sinks, ht.ports]
  rw [outcome?, outcome?, Graph.inputs, Graph.inputs, sinks, ht.checkParameters]
  generalize g.collectInputs n.sinks ∅ = x at inputs ⊢
  generalize h.collectInputs n.sinks ∅ = y at inputs ⊢
  cases inputs with
  | error e => exact .none
  | @ok a b hab =>
    dsimp only
    cases n.metadata.checkParameters n.id n.parameters with
    | error x => exact .some (.error fun _ => rfl)
    | ok u =>
      -- The parameters may be in another order; the one compute can do with those of the other.
      have run : m.variant.run (m.context b t files) =
          n.variant.run { m.context b t files with parameters := n.parameters } := by
        rw [← ht.variant]
        rcases ht.parameters with e | ⟨hb, e⟩
        · rw [e]
          rfl
        · exact (hb _ _ fun name => (e name).symm).symm
      have like : (n.context a s files).Like Image.Alike
          { m.context b t files with parameters := n.parameters } := by
        refine ⟨hab, rfl, ?_, rfl⟩
        show Table.ofList (n.sources.map _) = Table.ofList (m.sources.map _)
        rw [Node.sources, Node.sources, ht.ports]
      obtain ⟨made, hm⟩ := P.pure _ hn.variant Image.Alike _ _ (fun _ _ h => h) ⟨rfl, rfl⟩
        ⟨rfl, rfl⟩ like
      dsimp only
      rw [run]
      exact .some ((hm.mono fun i j hij => hij.alike fun _ _ h => h).of_alike ht.id)

/-- **Twins see the same if what feeds them has the same outputs.** -/
theorem Twin.inputAt? (hs : g.Twin h) (hg : g.Sound) (hh : h.Sound) (hn : g.node? id = some n)
    {p : Port} (hp : p ∈ n.ports)
    (up : ∀ a m m', g.Feeds a id → g.node? a = some m → h.node? a = some m' →
      ∀ q, Value.Agree (m.outputs.get? q) (m'.outputs.get? q)) :
    Value.Agree (g.inputAt? p) (h.inputAt? p) := by
  have linked : Value.Agree (g.linkedValue? p.id) (h.linkedValue? p.id) := by
    simp only [linkedValue?, hs.incoming? hg hh, hs.owner? hg hh, Option.bind_eq_bind]
    cases hl : g.incoming? p.id with
    | none => exact .none
    | some l =>
      obtain ⟨hlm, hls⟩ := (hg.incoming _ _).1 hl
      simp only [Option.bind_some]
      cases ha : g.owner? l.source with
      | none => exact .none
      | some a =>
        obtain ⟨m, hm⟩ := hg.node?_owner ha
        obtain ⟨m', hm', _⟩ := hs.node? hm
        simp only [Option.bind_some, hm, hm']
        exact up a m m' ⟨l, hlm, ha, hls ▸ hg.owner?_port hn hp⟩ hm hm' _
  unfold Graph.inputAt?
  generalize g.linkedValue? p.id = v at linked ⊢
  generalize h.linkedValue? p.id = w at linked ⊢
  cases linked with
  | none => exact .refl _
  | some hvw => exact .some hvw

/-! ## Evaluation -/

/-- The graph with other outputs. -/
def showing (g : Graph) (values : NodeId → Table PortId Value) : Graph :=
  { g with nodes := g.nodes.map fun n => { n with outputs := values n.id } }

theorem node?_showing (g : Graph) (values : NodeId → Table PortId Value) (id : NodeId) :
    (g.showing values).node? id =
      (g.node? id).map fun n => { n with outputs := values n.id } := Table.get?_map ..

theorem bare_showing (g : Graph) (values : NodeId → Table PortId Value) :
    (g.showing values).bare = g.bare := by
  have : (g.showing values).nodes.map Node.bare = g.nodes.map Node.bare := by
    refine Table.ext ?_
    simp only [Table.map, showing, List.map_map]
    rfl
  rw [bare, this]
  rfl

theorem Twin.showing (hs : g.Twin h) (values : NodeId → Table PortId Value) :
    (g.showing values).Twin h where
  nodes id := by
    have := hs.nodes id
    rw [node?_showing]
    generalize g.node? id = x at this ⊢
    generalize h.node? id = y at this ⊢
    cases this with
    | none => exact .none
    | some ht => exact .some ⟨ht.id, ht.variant, ht.ports, ht.parameters⟩
  links := hs.links

/-- **The outputs of a node by recursion along the links**, if its compute succeeds: it is applied
to the parameters of the node and to what the nodes that feed it come to, or to the defaults of its
sinks. -/
def Sound.evaluate? (hg : g.Sound) (files : FileStore) (id : NodeId) :
    Option (Table PortId Value) :=
  match g.node? id with
  | none => none
  | some n =>
    let upstream a := if _h : g.Feeds a id then (hg.evaluate? files a).getD ∅ else ∅
    match (g.showing upstream).outcome? files n 0 with
    | some (.ok outputs) => some (outputsByPort n outputs)
    | _ => none
termination_by hg.wellFounded.wrap id

/-- The value of a source port by recursion along the links. -/
def Sound.evaluated? (hg : g.Sound) (files : FileStore) (p : PortId) : Option Value := do
  (← hg.evaluate? files (← g.owner? p)).get? p

/-- The outputs of every node are what its compute comes to. -/
def Current (g : Graph) (files : FileStore) : Prop :=
  ∀ id n, g.node? id = some n → ∃ stamp outputs,
    g.outcome? files n stamp = some (.ok outputs) ∧ n.outputs = outputsByPort n outputs

/-- **Where every output is up to date, it is what the recursion comes to**, also the recursion in a
twin of the graph. -/
theorem Sound.evaluate?_twin (hg : g.Sound) (hh : h.Sound) (hs : g.Twin h)
    (hp : ∀ id n, g.node? id = some n → n.OfPalette P) (hc : h.Current files)
    (hm : h.node? id = some m) : ∃ outputs, hg.evaluate? files id = some outputs ∧
      ∀ p, Value.Agree (m.outputs.get? p) (outputs.get? p) := by
  induction id using hg.wellFounded.induction generalizing m with
  | _ id ih =>
    obtain ⟨n, hn, ht⟩ := hs.node?' hm
    rw [Sound.evaluate?, hn]
    dsimp only
    generalize hup : (fun a => if _h : g.Feeds a id then (hg.evaluate? files a).getD ∅ else ∅) =
      upstream
    have feeding : ∀ a, g.Feeds a id → upstream a = (hg.evaluate? files a).getD ∅ := fun a ha =>
      hup ▸ dif_pos ha
    have bare := bare_showing g upstream
    have sees : ∀ p ∈ n.ports, Value.Agree ((g.showing upstream).inputAt? p) (h.inputAt? p) := by
      intro p hpn
      have hk : (g.showing upstream).node? id = some { n with outputs := upstream n.id } := by
        rw [node?_showing, hn]
        rfl
      refine (hs.showing upstream).inputAt? (hg.of_bare bare) hh hk hpn ?_
      intro a k m' ha hka hm' q
      rw [feeds_of_bare bare] at ha
      rw [node?_showing] at hka
      obtain ⟨k, hk, rfl⟩ := Option.map_eq_some_iff.1 hka
      obtain ⟨outputs, he, hq⟩ := ih a ha hm'
      have : upstream k.id = outputs := by
        rw [hg.id_eq hk, feeding a ha, he]
        rfl
      rw [this]
      exact (hq q).symm
    obtain ⟨stamp, outputs, ho, he⟩ := hc id m hm
    have outcome := outcome?_twin (hp id n hn) ht sees files 0 stamp
    rw [ho] at outcome
    generalize (g.showing upstream).outcome? files n 0 = x at outcome ⊢
    cases outcome with
    | some hmatch =>
      cases hmatch with
      | @ok s _ hst =>
        refine ⟨_, rfl, fun p => ?_⟩
        have sources : outputsByPort m outputs = outputsByPort n outputs := by
          rw [outputsByPort, outputsByPort, Node.sources, Node.sources, ht.ports]
        rw [he, sources]
        exact Value.Agree.symm (outputsByPort_rel n hst p)

end Graph

namespace Engine

variable {P : Palette} {files : FileStore} {options options' : EngineOptions} {as bs : List Action}

/-! ## Engines -/

/-- **An orderly run of an engine that is empty at first**: the nodes that come in are derived from
the palette and from nodes that were there before, and none comes in under a name that was used. -/
structure Orderly (P : Palette) (options : EngineOptions) (files : FileStore) (as : List Action) :
    Prop where
  admissible : (new options files).Admissible as
  derives : (new options files).Derives P (fun _ => False) as
  nodup : (((new options files).insertions as).map (·.id)).Nodup

/-- A plain action puts a node into the graph only by its variant. -/
theorem inserted_of_isPlain {e : Engine} {a : Action} (h : a.isPlain = true) :
    e.inserted a = [] ∨ ∃ v, a = .addVariant v ∧ e.inserted a = [.new v e.stamp] := by
  cases a with
  | addVariant v => exact .inr ⟨v, rfl, rfl⟩
  | edit change =>
    cases change with
    | add | addFresh => cases h
    | _ => exact .inl rfl
  | _ => exact .inl rfl

theorem stamp_addVariant {e : Engine} (h : e.AtRest) (v : Variant) :
    e.stamp < (e.act (.addVariant v)).1.stamp := by
  let w := e.mint.2.opened ((e.graph.insert (.new v e.stamp)).performAdd (.new v e.stamp))
  have hw : e.wave? (.addVariant v) = some w := rfl
  obtain ⟨hf, hp⟩ := h.known.fresh h.sound v
  have hg : w.engine.graph.Sound := h.sound.insert (Node.new_wellFormed v _) hf hp
  rw [act_of_wave? hw]
  exact (onward_schedule hg).stamp

/-- **A run that adds nodes by their variants only is orderly.** -/
theorem Orderly.of_plain (hp : as.all (·.isPlain) = true)
    (hv : ∀ v, .addVariant v ∈ as → P.variants v) : Orderly P options files as := by
  have ha : (new options files).Admissible as := admissible_of_all_isPlain hp
  -- Names that are given out later are of later stamps.
  have key : ∀ (as : List Action) {e : Engine}, e.AtRest → e.Admissible as →
      as.all (·.isPlain) = true → (∀ v, .addVariant v ∈ as → P.variants v) →
      ((e.insertions as).map (·.id)).Nodup ∧ ∀ n ∈ e.insertions as, n.Built P ∧
        ∃ s, e.stamp ≤ s ∧ n.id = ⟨.mint s 0⟩ := by
    intro as
    induction as with
    | nil => exact fun _ _ _ _ => ⟨List.nodup_nil, fun _ h => (List.not_mem_nil h).elim⟩
    | cons a as ih =>
      intro e h ha hp hv
      rw [List.all_cons, Bool.and_eq_true] at hp
      obtain ⟨hd, hn⟩ := ih (h.act ha.1) ha.2 hp.2 fun v hm => hv v (List.mem_cons_of_mem _ hm)
      rw [insertions]
      rcases inserted_of_isPlain hp.1 (e := e) with hi | ⟨v, rfl, hi⟩ <;> rw [hi]
      · refine ⟨hd, fun n hm => ?_⟩
        obtain ⟨hb, s, hs, e⟩ := hn n hm
        exact ⟨hb, s, (h.onward_act ha.1).stamp.trans hs, e⟩
      · have later := stamp_addVariant h v
        refine ⟨List.nodup_cons.2 ⟨fun hm => ?_, hd⟩,
          List.forall_mem_cons.2 ⟨⟨?_, ?_⟩, fun n hm => ?_⟩⟩
        · obtain ⟨n, hm, e⟩ := List.mem_map.1 hm
          obtain ⟨_, s, hs, hid⟩ := hn n hm
          have := (Uuid.mint_injective (NodeId.mk.inj (hid.symm.trans e))).1
          omega
        · exact .new (hv v (List.mem_cons_self ..)) _
        · exact ⟨e.stamp, Nat.le_refl _, rfl⟩
        · obtain ⟨hb, s, hs, e⟩ := hn n hm
          exact ⟨hb, s, by omega, e⟩
  obtain ⟨hd, hn⟩ := key as (atRest_new options files) ha hp hv
  exact ⟨ha, derives_of_built fun n hm => (hn n hm).1, hd⟩

theorem Orderly.files_run (h : Orderly P options files as) :
    ((new options files).run as).1.files = files :=
  ((atRest_new options files).onward_run as h.admissible).files

theorem Orderly.upheld (h : Orderly P options files as) : ∃ seen ids,
    ((new options files).run as).1.Genuine P seen [] ∧
      ((new options files).run as).1.Upheld ids [] := by
  obtain ⟨hg, hu⟩ := upheld_new P options files
  obtain ⟨seen, hg, hu⟩ := upheld_derives (atRest_new options files) hg hu
    (fun _ h => h.elim) as h.admissible h.derives h.nodup
  exact ⟨seen, _, hg, hu⟩

theorem Upheld.current {e : Engine} {ids : List NodeId} (h : e.Upheld ids [])
    (hc : ∀ id n, e.graph.node? id = some n → n.state = .clean) : e.graph.Current e.files :=
  fun id n hn => (h.settled id n hn).clean (hc id n hn)

end Engine

/-! ## An example -/

namespace Engine.Relay

open Compute

theorem pure_echo {kept : Image → Prop} : Late.echo.Pure kept := by
  refine Variant.pure_of_concludes fun _ hc hd hl => ?_
  refine (asks_ask (Context.typedParameter_inStep hl _ _ _)).concludes fun x y hxy => ?_
  subst hxy
  exact concludes_plain hc hd hl _ fun _ => Value.noConfusion

theorem pure_first {kept : Image → Prop} : first.Pure kept := by
  refine Variant.pure_of_concludes fun _ hc hd hl => ?_
  refine (asks_ask (Context.inputNumber_inStep hl _)).concludes fun x y hxy => ?_
  subst hxy
  exact concludes_plain hc hd hl _ fun _ => Value.noConfusion

/-- The variants that pass a number on in the background. -/
def Passes (v : Variant) : Prop := v = Late.echo ∨ v = first

theorem Passes.pure (v : Variant) (hv : Passes v) : v.Pure fun _ => False := by
  rcases hv with rfl | rfl
  · exact pure_echo
  · exact pure_first

theorem Passes.unique (v w : Variant) (hv : Passes v) (hw : Passes w)
    (e : v.metadata.id = w.metadata.id) : v = w := by
  rcases hv with rfl | rfl <;> rcases hw with rfl | rfl
  · rfl
  · exact absurd e (by decide)
  · exact absurd e (by decide)
  · rfl

theorem Passes.defaults (v : Variant) (hv : Passes v) (p : PortSpec) (hp : p ∈ v.metadata.ports)
    (i : Image) (hi : p.default = some (.image i)) : False := by
  have none : ∀ p ∈ Late.echo.metadata.ports ++ first.metadata.ports, p.default = none := by decide
  have hp : p ∈ Late.echo.metadata.ports ++ first.metadata.ports := by
    rcases hv with rfl | rfl
    · exact List.mem_append_left _ hp
    · exact List.mem_append_right _ hp
  rw [none p hp] at hi
  cases hi

/-- Numbers that are passed on in the background; no image is kept. -/
def palette : Palette where
  variants := Passes
  images _ := False
  pure := Passes.pure
  unique := Passes.unique
  defaults := Passes.defaults
  distinct := Palette.distinct_noImages
  unminted := Palette.unminted_noImages

/-- A number is passed on once, -/
def direct : List Action :=
  [.addVariant Late.echo, .addVariant first, .edit (.connect ⟨.mint 0 1⟩ ⟨.mint 2 1⟩),
   .edit (.connect ⟨.mint 0 1⟩ ⟨.mint 2 2⟩), .deliver [0], .deliver [1]]

/-- or it is changed in the meantime. -/
def detour : List Action :=
  [.addVariant Late.echo, .addVariant first, .edit (.connect ⟨.mint 0 1⟩ ⟨.mint 2 2⟩), raise,
   .edit (.connect ⟨.mint 0 1⟩ ⟨.mint 2 1⟩), .deliver [1],
   .edit (.setParameters ⟨.mint 0 0⟩ (.ofList [("value", .number 1)])),
   .deliver [2, 3, 0], .deliver [4]]

def uncached : EngineOptions := { EngineOptions.standard with useCache := false }

def directly : Engine := ((new .standard Late.noFiles).run direct).1

def indirectly : Engine := ((new uncached Late.noFiles).run detour).1

theorem twins : directly.graph.Twin indirectly.graph :=
  .of_perm (by cbv) (by decide_cbv)

theorem clean_directly : directly.graph.nodeList.all (·.state == .clean) = true := by cbv

theorem clean_indirectly : indirectly.graph.nodeList.all (·.state == .clean) = true := by cbv

theorem value_indirectly : indirectly.cachedValue? ⟨.mint 2 3⟩ = some (.number 1) := by cbv

end Engine.Relay

namespace Engine

theorem clean_of_all {e : Engine} (h : e.graph.nodeList.all (·.state == .clean) = true)
    (id : NodeId) (n : Node) (hn : e.graph.node? id = some n) : n.state = .clean := by
  simpa using List.all_eq_true.1 h n (Table.mem_values_of_get? hn)

end Engine

end PixelFlow
