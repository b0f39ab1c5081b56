import PixelFlow.Proofs.Cache
import PixelFlow.Proofs.Engine.Confluence
import PixelFlow.Proofs.Engine.Snapshot
import PixelFlow.Proofs.Typed

/-!
# Values have the types of their ports

Types are looked at where a link is made and where a compute sets an output, and nowhere else. That
is enough: outputs, snapshots, jobs and remembered results keep their types from one dispatch and
delivery to the next, as long as an identifier of a variant means one variant and an identifier of
a node means one node.

* `Repertoire`: proper variants, no two of one identifier.
* `Node.Typed`, `Job.Typed`, `Entry.Typed`: what has the types that its variant declares.
* `Engine.Typed`: all of an engine has; `Wave.Dispatched.typed`, `Wave.Accepted.typed`,
  `Engine.typed_act`: one dispatch, one delivery, one action.
* **`Engine.typed_run`**: after every run, and at each dispatch of it.
-/

namespace PixelFlow

open Relation Wave

/-- Proper variants, no two of one identifier. -/
structure Repertoire where
  variants : Variant → Prop
  proper : ∀ v, variants v → v.Proper
  unique : ∀ v w, variants v → variants w → v.metadata.id = w.metadata.id → v = w

variable {R : Repertoire}

/-- **The outputs of the node are none, or one for each source port, of its type.** -/
structure Node.Typed (R : Repertoire) (n : Node) : Prop where
  variant : R.variants n.variant
  ports : n.OfVariant
  outputs : n.outputs = ∅ ∨ n.sourceTypes.Fills n.outputs

/-- The job starts with nothing set, and what it sees has the types of the sinks of its variant. -/
structure Job.Typed (R : Repertoire) (j : Job) : Prop where
  variant : R.variants j.variant
  opening : j.context.outputs = ∅
  declared : j.context.declared = j.variant.declared
  inputs : j.context.Typed j.variant.sinkTypes
  key : ∀ key, j.key = some key → key.variant = j.variant.metadata.id

/-- The remembered result is one of the variant that its key names. -/
def Entry.Typed (R : Repertoire) (x : Entry) : Prop :=
  ∃ v, R.variants v ∧ x.key.variant = v.metadata.id ∧ v.declared.Fills x.outputs

namespace Node.Typed

variable {n m : Node}

/-- Only variant, ports and outputs matter. -/
theorem congr (h : n.Typed R) (hv : m.variant = n.variant) (hp : m.ports = n.ports)
    (ho : m.outputs = n.outputs) : m.Typed R where
  variant := hv ▸ h.variant
  ports := h.ports.congr hv hp
  outputs := by
    rw [ho, sourceTypes, sources, hp]
    exact h.outputs

/-- **An outcome of the variant may be stored.** -/
theorem store (h : n.Typed R) (hw : n.WellFormed) {o : Outcome}
    (ho : ∀ t, o = .ok t → n.variant.declared.Fills t) : (n.store o).Typed R := by
  cases o with
  | error x => exact h.congr rfl rfl rfl
  | ok t =>
    refine ⟨h.variant, h.ports.congr rfl rfl, .inr ?_⟩
    exact h.ports.fills_outputsByPort (R.proper _ h.variant) hw (ho t rfl)

end Node.Typed

/-- **A node that was made, or copied from one with types, has types.** -/
theorem Node.Made.typed {n : Node} {held : Node → Prop} (h : n.Made R.variants held)
    (hh : ∀ m, held m → m.Typed R) : n.Typed R := by
  induction h with
  | @build v hv id portId => exact ⟨hv, .build v id portId, .inl rfl⟩
  | copy h => exact hh _ h
  | @withId n _ id ih =>
    refine ⟨ih.variant, ih.ports.withId id, ih.outputs.imp_right fun ho => ?_⟩
    rw [sourceTypes, sources_withId, List.map_map]
    exact ho
  | withParameter _ name v ih => exact ih.congr rfl rfl rfl

/-- **The value at a sink has its type**: it comes along a link from a source of that type, or it is
the default. -/
theorem Graph.Sound.inputAt?_type {g : Graph} (hg : g.Sound)
    (h : ∀ id n, g.node? id = some n → n.Typed R) {id : NodeId} {n : Node}
    (hn : g.node? id = some n) {p : Port} (hp : p ∈ n.sinks) {v : Value}
    (hv : g.inputAt? p = some v) : v.type = p.type := by
  have typed := h id n hn
  have hpn : p ∈ n.ports := List.mem_of_mem_filter hp
  unfold Graph.inputAt? at hv
  split at hv
  · next w hw =>
    cases hv
    obtain ⟨l, hl, hw⟩ := Option.bind_eq_some_iff.1 hw
    obtain ⟨a, ha, hw⟩ := Option.bind_eq_some_iff.1 hw
    obtain ⟨m, hm, hw⟩ := Option.bind_eq_some_iff.1 hw
    obtain ⟨hlm, hls⟩ := (hg.incoming _ _).1 hl
    obtain ⟨s, q, hs, hq, hsource, _, hty⟩ := hg.typed l hlm
    -- The ends of the link are the port that is fed and a source of the node that feeds it.
    rw [hls, hg.port?_of_mem hn hpn] at hq
    cases hq
    obtain ⟨b, m', hb, hm', hsm, hsi⟩ := Graph.port?_eq_some hs
    cases ha.symm.trans hb
    cases hm.symm.trans hm'
    have hsource : s ∈ m.sources := List.mem_filter.2 ⟨hsm, by simp [Port.isSource, hsource]⟩
    rcases (h a m hm).outputs with e | hf
    · rw [e] at hw
      cases hw
    · have ty := hf l.source
      rw [hw, ← hsi, (hg.wellFormed hm).get?_sourceTypes hsource] at ty
      exact (Option.some.inj ty).trans hty
  · exact typed.ports.default_type (R.proper _ typed.variant) hp hv

/-- **A context has the types of the sinks of its node.** -/
theorem Graph.Sound.typed_context {g : Graph} (hg : g.Sound)
    (h : ∀ id n, g.node? id = some n → n.Typed R) {id : NodeId} {n : Node}
    (hn : g.node? id = some n) {inputs : Table String Value} (hi : g.inputs n = .ok inputs)
    (stamp : Nat) (files : FileStore) :
    (n.context inputs stamp files).Typed n.variant.sinkTypes := by
  have typed := h id n hn
  refine Context.typed_of_inputs (R.proper _ typed.variant).nodup_sinkTypes fun name v hv => ?_
  obtain ⟨p, hp, rfl, hpv⟩ := Graph.mem_inputs hi hv
  rw [hg.inputAt?_type h hn hp hpv]
  exact typed.ports.mem_sinkTypes hp

/-- What a job delivers has the types that its variant declares. -/
theorem Job.Typed.complete {j : Job} (h : j.Typed R) (files : FileStore) {t : Table String Value}
    (ht : (j.complete files).outcome = .ok t) : j.variant.declared.Fills t := by
  have := (R.proper _ h.variant).abides.fills_run (c := { j.context with files := files }) h.opening ht
  rwa [show ({ j.context with files := files } : Context).declared = _ from h.declared] at this

/-! ## Engines -/

/-- **All of an engine has types**: its nodes, its jobs and what its cache remembers. No node comes
in under a name that was used, so that a job and the node that awaits it are of one variant. -/
structure Engine.Typed (R : Repertoire) (ids : List NodeId) (rest : List Job) (e : Engine) :
    Prop where
  nodes : ∀ id n, e.graph.node? id = some n → n.Typed R
  jobs : ∀ j ∈ rest ++ e.jobs, j.Typed R
  cache : ∀ x ∈ e.cache.entries, x.Typed R
  awaited : ∀ j ∈ rest ++ e.jobs, j.node ∈ ids ∧
    ∀ n, e.graph.node? j.node = some n → n.variant = j.variant
  named : ∀ id n, e.graph.node? id = some n → id ∈ ids

/-- All of the engine has types at the dispatch. -/
def Dispatch.Typed (R : Repertoire) (d : Dispatch) : Prop :=
  d.wave.engine.graph.Sound ∧ ∃ ids, d.wave.engine.Typed R ids []

namespace Engine.Typed

variable {ids : List NodeId} {rest : List Job} {e e' : Engine} {id : NodeId} {n : Node}

/-- A turn changes no variant, and the nodes keep types if the one that takes it does. -/
theorem turn (h : e.Typed R ids rest) (hg : e.graph.Sound) (id : NodeId) (f : Node → Node)
    (spreads : Bool) (hf : ∀ m, (f m).bare = m.bare)
    (ht : ∀ m, e.graph.node? id = some m → (f m).Typed R)
    (hgr : e'.graph = e.graph.turn id f spreads) (hj : e'.jobs = e.jobs)
    (hc : e'.cache = e.cache) : e'.Typed R ids rest := by
  have node : ∀ {j m}, e'.graph.node? j = some m →
      m.Typed R ∧ ∃ m', e.graph.node? j = some m' ∧ m.variant = m'.variant := by
    intro j m hm
    rw [hgr, Graph.node?_turn hg] at hm
    split at hm
    · next hj =>
      subst hj
      obtain ⟨m', hm', rfl⟩ := Option.map_eq_some_iff.1 hm
      have hv := congrArg Node.variant (hf m')
      exact ⟨ht m' hm', m', hm', hv⟩
    · split at hm
      · obtain ⟨m', hm', rfl⟩ := Option.map_eq_some_iff.1 hm
        exact ⟨(h.nodes j m' hm').congr rfl rfl rfl, m', hm', rfl⟩
      · exact ⟨h.nodes j m hm, m, hm, rfl⟩
  refine ⟨fun j m hm => (node hm).1, hj ▸ h.jobs, hc ▸ h.cache, fun j hjm => ?_, fun j m hm => ?_⟩
  · obtain ⟨hid, hv⟩ := h.awaited j (hj ▸ hjm)
    refine ⟨hid, fun m hm => ?_⟩
    obtain ⟨_, m', hm', e⟩ := node hm
    exact e.trans (hv m' hm')
  · obtain ⟨_, m', hm', _⟩ := node hm
    exact h.named j m' hm'

/-- What the cache finds for a node has the types that its variant declares. -/
theorem remembered (h : e.Typed R ids rest) (hn : n.Typed R) {ps : Parameters}
    {inputs outputs : Table String Value}
    (hf : (e.cache.get (.of n.metadata.id ps inputs)).1 = some outputs) :
    n.variant.declared.Fills outputs := by
  obtain ⟨x, hx, hk, rfl⟩ := Cache.get_eq_some hf
  obtain ⟨v, hv, hid, ht⟩ := h.cache x hx
  rw [hk] at hid
  obtain rfl := R.unique v n.variant hv hn.variant hid.symm
  exact ht

end Engine.Typed

namespace Wave

variable {ids : List NodeId} {rest : List Job} {w w' : Wave} {id : NodeId} {n : Node}

open Engine

/-- **Every dispatch keeps types.** -/
theorem Dispatched.typed (hd : Dispatched w id n w') (hg : w.engine.graph.Sound)
    (hn : w.engine.graph.node? id = some n) (h : w.engine.Typed R ids rest) :
    w'.engine.Typed R ids rest := by
  have typed := h.nodes id n hn
  have hw : ∀ {m}, w.engine.graph.node? id = some m → m = n := fun hm =>
    (Option.some.inj (hn.symm.trans hm)).symm
  cases hd with
  | waits =>
    refine h.turn hg id (·.markWaiting) false (fun _ => rfl) (fun m hm => ?_) rfl rfl rfl
    exact (h.nodes id m hm).congr rfl rfl rfl
  | @refused _ x =>
    refine h.turn hg id (·.store (.error x)) false (fun m => m.bare_store _) (fun m hm => ?_) rfl
      rfl rfl
    exact (h.nodes id m hm).store (hg.wellFormed hm) fun _ e => nomatch e
  | @inline inputs o _ _ _ ho =>
    refine h.turn hg id (·.beginCompute.store o) o.succeeds (fun m => m.beginCompute.bare_store _)
      (fun m hm => ?_) rfl rfl rfl
    obtain rfl := hw hm
    have began : m.beginCompute.Typed R := typed.congr rfl rfl rfl
    refine began.store ?_ fun t ht => ?_
    · exact ⟨(hg.wellFormed hm).nodup, (hg.wellFormed hm).owned⟩
    · have := (R.proper _ typed.variant).abides.fills_run rfl (ho.symm.trans ht)
      rwa [show Context.declared _ = _ from typed.ports.declared] at this
  | @remembered inputs key outputs _ _ _ hk hf =>
    have h' : (w.hit key).engine.Typed R ids rest :=
      { h with cache := fun x hx => h.cache x (Cache.mem_of_get hx) }
    refine h'.turn hg id (·.store (.ok outputs)) true (fun m => m.bare_store _) (fun m hm => ?_) rfl
      rfl rfl
    obtain rfl := hw hm
    refine typed.store (hg.wellFormed hm) fun t ht => ?_
    cases ht
    exact h.remembered typed (cacheKey?_eq_some hk ▸ hf)
  | @submitted inputs cache hi _ _ hk =>
    have mem : ∀ j, j ∈ rest ++ (w.enlist (w.newJob n inputs) cache).engine.jobs ↔
        j ∈ rest ++ w.engine.jobs ∨ j = w.newJob n inputs := fun j => by
      simp [enlist, or_assoc]
    have job : (w.newJob n inputs).Typed R :=
      ⟨typed.variant, rfl, typed.ports.declared, hg.typed_context h.nodes hn hi _ _, fun key hkey => by
        rw [cacheKey?_eq_some hkey]
        rfl⟩
    have h' : (w.enlist (w.newJob n inputs) cache).engine.Typed R ids rest := by
      refine ⟨h.nodes, fun j hj => ?_, fun x hx => ?_, fun j hj => ?_, h.named⟩
      · rcases (mem j).1 hj with hj | rfl
        · exact h.jobs j hj
        · exact job
      · rcases hk with rfl | ⟨key, rfl⟩
        · exact h.cache x hx
        · exact h.cache x (Cache.mem_of_get hx)
      · rcases (mem j).1 hj with hj | rfl
        · exact h.awaited j hj
        · have hid := hg.id_eq hn
          refine ⟨(show n.id ∈ ids from hid ▸ h.named id n hn), fun m hm => ?_⟩
          have hm : w.engine.graph.node? n.id = some m := hm
          rw [hid] at hm
          rw [hw hm]
          rfl
    refine h'.turn hg id (·.beginCompute) false (fun _ => rfl) (fun m hm => ?_) rfl rfl rfl
    exact (h.nodes id m hm).congr rfl rfl rfl

/-- What a job delivers may be remembered. -/
theorem typed_received {j : Job} (h : w.engine.Typed R ids (j :: rest)) :
    (w.received (j.complete w.engine.files)).engine.Typed R ids rest := by
  have hj := h.jobs j (by simp)
  obtain ⟨cache, e, hcache⟩ := w.received_eq (j.complete w.engine.files)
  rw [e]
  refine { h with
    jobs := fun k hk => h.jobs k (by simp [hk])
    awaited := fun k hk => h.awaited k (by simp [hk])
    cache := fun x hx => ?_ }
  rcases hcache with rfl | ⟨key, outputs, hk, ho, _, rfl⟩
  · exact h.cache x hx
  · rcases Cache.mem_of_put hx with rfl | hx
    · exact ⟨j.variant, hj.variant, hj.key key hk, hj.complete _ ho⟩
    · exact h.cache x hx

/-- **Every delivery keeps types.** -/
theorem Accepted.typed {j : Job} (ha : Accepted w (j.complete w.engine.files) w')
    (hg : w.engine.graph.Sound) (h : w.engine.Typed R ids (j :: rest)) :
    w'.engine.Typed R ids rest := by
  have hr := typed_received h
  obtain ⟨cache, e, _⟩ := w.received_eq (j.complete w.engine.files)
  have hs : (w.received (j.complete w.engine.files)).engine.graph = w.engine.graph := by rw [e]
  cases ha with
  | applied =>
    refine hr.turn (hs ▸ hg) _ _ _ (fun m => m.bare_store _) (fun m hm => ?_) rfl rfl rfl
    rw [hs] at hm
    refine (h.nodes _ m hm).store (hg.wellFormed hm) fun t ht => ?_
    rw [(h.awaited j (by simp)).2 m hm]
    exact (h.jobs j (by simp)).complete _ ht
  | dropped => exact { hr with }

theorem typed_collect {taken : List Job} (hg : w.engine.graph.Sound)
    (h : w.engine.Typed R ids taken) : (collect w taken).engine.Typed R ids [] :=
  collect_rest (P := fun rest v => v.engine.Typed R ids rest) hg h fun hv ha h => ha.typed hv h

end Wave

/-! ## Actions -/

namespace Engine

variable {ids : List NodeId} {e : Engine} {w : Wave} {a : Action}

/-- What an edit brings has types, under names that were not used. -/
theorem Typed.revises (h : e.Typed R ids []) {new : List Node} {g' : Graph} {touched : List NodeId}
    (hr : e.graph.Revises new g' touched) (hb : ∀ n ∈ new, n.Typed R) (hn : ∀ n ∈ new, n.id ∉ ids)
    (stamp : Nat) : ({ e with graph := g', stamp := stamp } : Engine).Typed R
      (ids ++ new.map (·.id)) [] := by
  have node : ∀ {id n}, g'.node? id = some n → n.Typed R ∧
      ((∃ m ∈ new, m.id = id) ∨ ∃ m, e.graph.node? id = some m ∧ n.variant = m.variant) := by
    intro id n hid
    by_cases ht : id ∈ touched
    · obtain ⟨n', hn', _, ⟨_, m, hm, hmi, rfl⟩ | ⟨m, ps, hm, rfl⟩⟩ := hr.dirty ht <;>
        obtain rfl := Option.some.inj (hid.symm.trans hn')
      · exact ⟨(hb m hm).congr rfl rfl rfl, .inl ⟨m, hm, hmi⟩⟩
      · exact ⟨(h.nodes id m hm).congr rfl rfl rfl, .inr ⟨m, hm, rfl⟩⟩
    · have old := hr.kept ht hid
      exact ⟨h.nodes id n old, .inr ⟨n, old, rfl⟩⟩
  refine ⟨fun id n hid => (node hid).1, h.jobs, h.cache, fun j hj => ?_, fun id n hid => ?_⟩
  · obtain ⟨hid, hv⟩ := h.awaited j hj
    refine ⟨List.mem_append_left _ hid, fun n hnode => ?_⟩
    rcases (node hnode).2 with ⟨m, hm, hmi⟩ | ⟨m, hm, hvar⟩
    · exact (hn m hm (hmi ▸ hid)).elim
    · exact hvar.trans (hv m hm)
  · rcases (node hid).2 with ⟨m, hm, hmi⟩ | ⟨m, hm, _⟩
    · exact List.mem_append_right _ (List.mem_map.2 ⟨m, hm, hmi⟩)
    · exact List.mem_append_left _ (h.named id m hm)

/-- The jobs of a batch are taken and still counted in. -/
theorem Typed.batch (h : e.Typed R ids []) {taken left : List Job}
    (hp : e.jobs.Perm (taken ++ left)) : (e.batch left).engine.Typed R ids taken :=
  { h with
    jobs := fun j hj => h.jobs j (hp.mem_iff.2 hj)
    awaited := fun j hj => h.awaited j (hp.mem_iff.2 hj) }

/-- **Every wave that is set off has types.** -/
theorem typed_wave (hrest : e.AtRest) (h : e.Typed R ids []) (ha : a.Admissible e)
    (hb : ∀ n ∈ e.inserted a, n.Typed R) (hn : ∀ n ∈ e.inserted a, n.id ∉ ids)
    (hw : e.wave? a = some w) : w.engine.graph.Sound ∧
      w.engine.Typed R (ids ++ (e.inserted a).map (·.id)) [] := by
  cases wave?_spec hrest ha hw with
  | edited change stamp ha _ hr hi =>
    have hv := hrest.sound.perform ha hr
    rw [hi] at hb hn ⊢
    exact ⟨hv.sound, h.revises hv hb hn stamp⟩
  | @delivered _ taken left ha ht =>
    have hi : e.inserted a = [] := by rw [ha]; rfl
    rw [hi, List.map_nil, List.append_nil]
    exact ⟨hrest.sound.of_bare (bare_collect (w := e.batch left) hrest.sound taken),
      typed_collect (w := e.batch left) hrest.sound (h.batch (takeJobs_perm ht))⟩

/-- **Every action keeps types.** -/
theorem typed_act (hrest : e.AtRest) (h : e.Typed R ids []) (ha : a.Admissible e)
    (hb : ∀ n ∈ e.inserted a, n.Typed R) (hn : ∀ n ∈ e.inserted a, n.id ∉ ids) :
    (e.act a).1.Typed R (ids ++ (e.inserted a).map (·.id)) [] ∧
      ∀ d ∈ (e.wave? a).elim [] (·.dispatches), d.Typed R := by
  cases hw : e.wave? a with
  | none =>
    obtain ⟨hs, _, hi⟩ := act_of_no_wave hw
    rw [hi, List.map_nil, List.append_nil]
    refine ⟨⟨?_, ?_, fun x hx => h.cache x (hs.cache x hx), ?_, ?_⟩,
      fun _ hd => (List.not_mem_nil hd).elim⟩
    · exact hs.graph ▸ h.nodes
    · exact hs.jobs ▸ h.jobs
    · exact hs.jobs ▸ hs.graph ▸ h.awaited
    · exact hs.graph ▸ h.named
  | some w =>
    obtain ⟨hg, ht⟩ := typed_wave hrest h ha hb hn hw
    obtain ⟨after, at'⟩ := dispatches_induction hg ht fun hv hn hd h => hd.typed hv hn h
    rw [act_of_wave? hw]
    exact ⟨after, fun d hd => (at' d hd).imp_right fun h => ⟨_, h⟩⟩

/-! ## Runs -/

/-- **What a run puts into the graph is made of the given variants**, or copied from nodes that were
held at first or were in the graph before. -/
def Makes (variants : Variant → Prop) (held : Node → Prop) (e : Engine) : List Action → Prop
  | [] => True
  | a :: as =>
    let held' n := held n ∨ ∃ id, e.graph.node? id = some n
    (∀ n ∈ e.inserted a, n.Made variants held') ∧ (e.act a).1.Makes variants held' as

theorem typed_makes (hrest : e.AtRest) (h : e.Typed R ids []) {held : Node → Prop}
    (hh : ∀ n, held n → n.Typed R) (as : List Action) (ha : e.Admissible as)
    (hm : e.Makes R.variants held as) (hn : (ids ++ (e.insertions as).map (·.id)).Nodup) :
    (e.run as).1.Typed R (ids ++ (e.insertions as).map (·.id)) [] ∧
      ∀ d ∈ e.dispatches as, d.Typed R := by
  induction as generalizing e ids held with
  | nil =>
    rw [insertions, List.map_nil, List.append_nil]
    exact ⟨h, fun _ hd => (List.not_mem_nil hd).elim⟩
  | cons a as ih =>
    rw [insertions] at hn ⊢
    rw [List.map_append, ← List.append_assoc] at hn ⊢
    have hh' : ∀ n, (held n ∨ ∃ id, e.graph.node? id = some n) → n.Typed R := by
      rintro n (hn | ⟨id, hn⟩)
      · exact hh n hn
      · exact h.nodes id n hn
    obtain ⟨h', first⟩ := typed_act hrest h ha.1 (fun n hn => (hm.1 n hn).typed hh')
      fun n hnm hid => (List.nodup_append.1 (List.nodup_append.1 hn).1).2.2 n.id hid n.id
        (List.mem_map_of_mem hnm) rfl
    obtain ⟨after, later⟩ := ih (hrest.act ha.1) h' hh' ha.2 hm.2 hn
    exact ⟨after, fun d hd => (List.mem_append.1 hd).elim (first d) (later d)⟩

/-- **All values of a run have the types of their ports**: the outputs of each node at the end of it,
if there are any, what is at the sinks in every dispatch, and what jobs that are left see. -/
structure TypedRun (e : Engine) (as : List Action) : Prop where
  outputs : ∀ id n, (e.run as).1.graph.node? id = some n → n.outputs = ∅ ∨ n.Fitting n.outputs
  dispatched : ∀ d ∈ e.dispatches as, ∀ n inputs, d.wave.engine.graph.node? d.node = some n →
    d.wave.engine.graph.inputs n = .ok inputs →
      (n.context inputs d.wave.engine.stamp d.wave.engine.files).Typed
        (n.sinks.map fun p => (p.name, p.type))
  outstanding : ∀ j ∈ (e.run as).1.jobs, j.context.Typed j.variant.sinkTypes

theorem typed_new (R : Repertoire) (options : EngineOptions) (files : FileStore) :
    (new options files).Typed R [] [] where
  nodes _ _ h := nomatch h
  jobs _ h := nomatch h
  cache _ h := nomatch h
  awaited _ h := nomatch h
  named _ _ h := nomatch h

/-- **Every run of proper variants, one for each identifier, has types**, if no node comes in under a
name that was used. -/
theorem typed_run (R : Repertoire) (options : EngineOptions) (files : FileStore) (as : List Action)
    (ha : (new options files).Admissible as)
    (hm : (new options files).Makes R.variants (fun _ => False) as)
    (hn : (((new options files).insertions as).map (·.id)).Nodup) :
    (new options files).TypedRun as := by
  have h₀ := atRest_new options files
  obtain ⟨h, hd⟩ := typed_makes h₀ (typed_new R options files) (fun _ h => h.elim) as ha hm hn
  refine ⟨fun id n hid => ?_, fun d hdm n inputs hnode hi => ?_, fun j hj => (h.jobs j hj).inputs⟩
  · exact (h.nodes id n hid).outputs.imp_right ((h₀.run as ha).sound.wellFormed hid).fitting
  · obtain ⟨hg, ids, ht⟩ := hd d hdm
    rw [(ht.nodes _ n hnode).ports.sinkTypes]
    exact hg.typed_context ht.nodes hnode hi _ _

/-- A run that adds nodes by their variants makes all nodes of these variants. -/
theorem makes_of_plain {variants : Variant → Prop} {as : List Action}
    (hp : as.all (·.isPlain) = true) (hv : ∀ v, .addVariant v ∈ as → variants v)
    {held : Node → Prop} (e : Engine) : e.Makes variants held as := by
  induction as generalizing e held with
  | nil => exact trivial
  | cons a as ih =>
    rw [List.all_cons, Bool.and_eq_true] at hp
    refine ⟨fun n hn => ?_, ih hp.2 (fun v hm => hv v (List.mem_cons_of_mem a hm)) _⟩
    rcases inserted_of_isPlain hp.1 with hi | ⟨v, rfl, hi⟩
    · rw [hi] at hn
      cases hn
    · rw [hi] at hn
      rw [List.mem_singleton.1 hn]
      exact .build (hv v List.mem_cons_self) _ _

namespace Relay

theorem Passes.proper (v : Variant) (hv : Passes v) : v.Proper := by
  rcases hv with rfl | rfl
  · exact ⟨by decide, by decide, abides_echo⟩
  · exact ⟨by decide, by decide, abides_first⟩

/-- Numbers that are passed on in the background. -/
def repertoire : Repertoire := ⟨Passes, Passes.proper, Passes.unique⟩

/-- The number at the beginning of both arms has come in. -/
def passing : List Action := arms ++ [.deliver [0]]

theorem states_passing : ((new .standard Late.noFiles).run passing).1.graph.nodeList.map
    (fun n => (n.state, n.outputs.size)) = [(.clean, 1), (.computing 1, 0), (.dirty, 0)] := by cbv

theorem passes_passing : ∀ v, .addVariant v ∈ passing → Passes v := by
  simp [passing, arms, Passes]

end Relay

open Relay in
/-- One node has its output, and a job sees it at both of its sinks. -/
theorem typed_run_passing :
    ((new .standard Late.noFiles).run passing).1.graph.nodeList.map
        (fun n => (n.state, n.outputs.size)) = [(.clean, 1), (.computing 1, 0), (.dirty, 0)] ∧
      (new .standard Late.noFiles).TypedRun passing :=
  ⟨states_passing, typed_run repertoire .standard Late.noFiles passing
    (admissible_of_all_isPlain rfl) (makes_of_plain rfl passes_passing _)
    (Orderly.of_plain (P := palette) rfl passes_passing).nodup⟩

end Engine

end PixelFlow
