import PixelFlow.Proofs.Engine.Evaluate
import PixelFlow.Proofs.Engine.Lasting
import PixelFlow.Proofs.Fills

/-!
# The order of deliveries does not matter

While only deliveries come, a sink that has a value keeps one, so a node that has computed never
waits again. At the end each node is in the state that its compute comes to on what feeds it, and
one that waits or has failed still has the outputs that it began with. Hence any two ways to deliver
all jobs end alike.

* `Node.Placed`: outputs are at source ports; **`Engine.placed_derives`**.
* `Graph.Sated`: a node has all that its compute needs; `Graph.Sated.turn`.
* `Graph.Carried`: what is known of outputs while only deliveries come.
* `Wave.Steady`: the invariant of deliveries; `Wave.Dispatched.steady`, `Wave.Accepted.steady`.
* **`Engine.confluent_run`**: all ways to deliver end alike.
-/

namespace PixelFlow

open Relation Wave

/-! ## Where outputs are -/

namespace Node

variable {n : Node} {P : Palette}

/-- **Outputs are at source ports**, at the first one of each name. -/
def Placed (n : Node) : Prop := ∀ q, n.outputs.contains q = true →
  ∃ p, n.sources.find? (·.name == p.name) = some p ∧ p.id = q

theorem contains_outputsByPort {t : Table String Value} {q : PortId} :
    (outputsByPort n t).contains q = true ↔
      ∃ p, n.sources.find? (·.name == p.name) = some p ∧ p.id = q ∧
        t.contains p.name = true := by
  rw [outputsByPort, Table.contains_iff, Table.mem_keys_ofList]
  simp only [List.mem_map, List.mem_filterMap, Option.map_eq_some_iff]
  constructor
  · rintro ⟨_, ⟨⟨name, v⟩, he, p, hp, rfl⟩, rfl⟩
    obtain rfl : p.name = name := by simpa using List.find?_some hp
    exact ⟨p, hp, rfl, (Table.contains_iff ..).2 (List.mem_map_of_mem he)⟩
  · rintro ⟨p, hp, rfl, ht⟩
    obtain ⟨v, hv⟩ := Option.isSome_iff_exists.1 ht
    exact ⟨(p.id, v), ⟨(p.name, v), (Table.get?_eq_some_iff ..).1 hv, p, hp, rfl⟩, rfl⟩

theorem Placed.store (h : n.Placed) (o : Outcome) : (n.store o).Placed := by
  cases o with
  | ok t =>
    intro q hq
    obtain ⟨p, hp, e, _⟩ := contains_outputsByPort.1 hq
    exact ⟨p, hp, e⟩
  | error x => exact h

theorem lasting_placed : Lasting Placed where
  dirty _ h := h
  waiting _ h := h
  begun _ h := h
  store _ o h := h.store o
  parameters _ _ h := h

theorem Derived.placed {held : Node → Prop} (h : n.Derived P held) (hh : ∀ m, held m → m.Placed) :
    n.Placed := by
  induction h with
  | build hv id => exact fun _ h => nomatch h
  | copy h => exact hh _ h
  | withId _ id ih =>
    intro q hq
    obtain ⟨p, hp, rfl⟩ := ih q hq
    refine ⟨{ p with node := id }, ?_, rfl⟩
    rw [sources_withId, List.find?_map]
    exact congrArg (Option.map _) hp
  | withParameter _ name v ih => exact ih

/-- **An outcome with a value for each source keeps all outputs in place.** -/
theorem Placed.contains_store (h : n.Placed) {t : Table String Value}
    (ht : ∀ p ∈ n.sources, t.contains p.name = true) {q : PortId}
    (hq : n.outputs.contains q = true) : (n.store (.ok t)).outputs.contains q = true := by
  obtain ⟨p, hp, e⟩ := h q hq
  exact contains_outputsByPort.2 ⟨p, hp, e, ht p (List.mem_of_find?_eq_some hp)⟩

end Node

theorem Variant.Fills.contains {n : Node} (h : n.variant.Fills) {inputs t : Table String Value}
    {stamp : Nat} {files : FileStore} (ht : n.variant.run (n.context inputs stamp files) = .ok t)
    (p : Port) (hp : p ∈ n.sources) : t.contains p.name = true := by
  refine h _ t ht p.name (Table.mem_keys_ofList.2 ?_)
  rw [List.map_map]
  exact List.mem_map_of_mem hp

namespace Graph

variable {g g' g₀ : Graph} {id : NodeId} {n m : Node}

/-- All outputs of all nodes are at source ports. -/
def Placed (g : Graph) : Prop := ∀ id n, g.node? id = some n → n.Placed

/-! ## What computes need -/

/-- **The node has all that its compute needs**: every sink that needs a value has one, and the
parameters pass. -/
def Sated (g : Graph) (n : Node) : Prop :=
  (∃ inputs, g.inputs n = .ok inputs) ∧
    n.metadata.checkParameters n.id n.parameters = .ok ()

theorem exists_collectInputs_iff {sinks : List Port} {t : Table String Value} :
    (∃ inputs, g.collectInputs sinks t = .ok inputs) ↔
      ∀ p ∈ sinks, p.isOptional = false → (g.inputAt? p).isSome = true := by
  have full : (∀ p ∈ sinks, p.isOptional = false → (g.inputAt? p).isSome = true) ↔
      sinks.find? g.lacks = none := by
    rw [List.find?_eq_none]
    refine forall₂_congr fun p _ => ?_
    cases ho : p.isOptional <;> cases hv : g.inputAt? p <;> simp [lacks, ho, hv]
  rw [full, collectInputs_eq]
  cases sinks.find? g.lacks with
  | some p =>
    refine iff_of_false ?_ (Option.some_ne_none p)
    rintro ⟨_, h⟩
    cases h
  | none => exact iff_of_true ⟨_, rfl⟩ rfl

/-- A waiting node lacks an input. -/
theorem inputs_ne_ok {p : Port} (hp : p ∈ n.sinks) (ho : p.isOptional = false)
    (hi : g.inputAt? p = none) (inputs : Table String Value) : g.inputs n ≠ .ok inputs := by
  intro h
  have := exists_collectInputs_iff.1 ⟨inputs, h⟩ p hp ho
  rw [hi] at this
  cases this

/-- A sink that has a value keeps one if the turned node keeps outputs in place. -/
theorem isSome_inputAt?_turn (hg : g.Sound) {f : Node → Node} {spreads : Bool}
    (hf : ∀ m, (f m).bare = m.bare) (hk : ∀ m, g.node? id = some m →
      ∀ q, m.outputs.contains q = true → (f m).outputs.contains q = true) {p : Port}
    (h : (g.inputAt? p).isSome = true) : ((g.turn id f spreads).inputAt? p).isSome = true := by
  have hb := bare_turn g id hf spreads
  have linked : (g.linkedValue? p.id).isSome = true →
      ((g.turn id f spreads).linkedValue? p.id).isSome = true := by
    intro h
    obtain ⟨v, h⟩ := Option.isSome_iff_exists.1 h
    obtain ⟨l, hl, h⟩ := Option.bind_eq_some_iff.1 h
    obtain ⟨a, ha, h⟩ := Option.bind_eq_some_iff.1 h
    obtain ⟨m, hm, h⟩ := Option.bind_eq_some_iff.1 h
    have has : m.outputs.contains l.source = true := Option.isSome_iff_exists.2 ⟨v, h⟩
    simp only [linkedValue?, incoming?_of_bare hb, owner?_of_bare hb, hl, ha, Option.bind_eq_bind,
      Option.bind_some, node?_turn hg, hm]
    split
    · next e => exact hk m (e ▸ hm) _ has
    · split
      · exact has
      · exact has
  unfold inputAt? at h ⊢
  cases hv : g.linkedValue? p.id with
  | some v =>
    obtain ⟨w, hw⟩ := Option.isSome_iff_exists.1 (linked (by rw [hv]; rfl))
    rw [hw]
    rfl
  | none =>
    rw [hv] at h
    split
    · rfl
    · exact h

/-- **A node that has all that it needs keeps it.** -/
theorem Sated.turn (h : g.Sated n) (hg : g.Sound) {f : Node → Node} {spreads : Bool}
    (hf : ∀ m, (f m).bare = m.bare) (hk : ∀ m, g.node? id = some m →
      ∀ q, m.outputs.contains q = true → (f m).outputs.contains q = true)
    (hm : m.bare = n.bare) : (g.turn id f spreads).Sated m := by
  have sated : (g.turn id f spreads).Sated n := by
    refine ⟨exists_collectInputs_iff.2 fun p hp ho => ?_, h.2⟩
    exact isSome_inputAt?_turn hg hf hk (exists_collectInputs_iff.1 h.1 p hp ho)
  have same : ∀ n : Node, (g.turn id f spreads).Sated n.bare ↔ (g.turn id f spreads).Sated n :=
    fun _ => Iff.rfl
  rwa [← same, hm, same]

/-! ## Outputs while only deliveries come -/

/-- Every failure in the log is one of a parameter check. -/
def OnlyRefusals (g : Graph) (log : List Record) : Prop :=
  ∀ id x, .event (.failed id x) ∈ log → ∃ n, g.node? id = some n ∧
    n.metadata.checkParameters id n.parameters = .error x

theorem OnlyRefusals.mono {log log' : List Record} (h : g.OnlyRefusals log)
    (hl : ∀ r ∈ log', r ∈ log) : g.OnlyRefusals log' := fun id x hx => h id x (hl _ hx)

/-- **A node has the outputs that it had at first, or it has all that its compute needs** and
neither waits nor has failed. -/
def Carried (g₀ g : Graph) : Prop :=
  ∀ id n n₀, g.node? id = some n → g₀.node? id = some n₀ →
    n.outputs = n₀.outputs ∨ g.Sated n ∧ n.state ≠ .waiting ∧ n.state ≠ .error

theorem Carried.turn (h : g₀.Carried g) (hg : g.Sound) (hn : g.node? id = some n)
    (f : Node → Node) (spreads : Bool) (hf : ∀ m, (f m).bare = m.bare)
    (hk : ∀ q, n.outputs.contains q = true → (f n).outputs.contains q = true)
    (hs : ∀ n₀, g₀.node? id = some n₀ → (f n).outputs = n₀.outputs ∨
      g.Sated n ∧ (f n).state ≠ .waiting ∧ (f n).state ≠ .error) :
    g₀.Carried (g.turn id f spreads) := by
  have keep : ∀ m, g.node? id = some m →
      ∀ q, m.outputs.contains q = true → (f m).outputs.contains q = true := fun m hm => by
    obtain rfl := Option.some.inj (hn.symm.trans hm)
    exact hk
  intro j m n₀ hm hn₀
  rw [node?_turn hg] at hm
  split at hm
  · next e =>
    subst e
    rw [hn] at hm
    cases hm
    exact (hs n₀ hn₀).imp_right fun ⟨hsat, hst⟩ => ⟨hsat.turn hg hf keep (hf n), hst⟩
  · split at hm
    · obtain ⟨m', hm', rfl⟩ := Option.map_eq_some_iff.1 hm
      refine (h j m' n₀ hm' hn₀).imp_right fun ⟨hsat, _⟩ => ?_
      exact ⟨hsat.turn hg hf keep rfl, NodeState.noConfusion, NodeState.noConfusion⟩
    · exact (h j m n₀ hm hn₀).imp_right fun ⟨hsat, hst⟩ => ⟨hsat.turn hg hf keep rfl, hst⟩

/-- A node that lacks something has the outputs that it had at first. -/
theorem Carried.outputs_eq (h : g₀.Carried g) (hn : g.node? id = some n) (hs : ¬ g.Sated n)
    {n₀ : Node} (hn₀ : g₀.node? id = some n₀) : n.outputs = n₀.outputs :=
  (h id n n₀ hn hn₀).resolve_right fun h => hs h.1

/-- **A node with all that it needs may store a result**; it does not fail. -/
theorem Carried.store (h : g₀.Carried g) (hg : g.Sound) (hb : g.bare = g₀.bare)
    (hn : g.node? id = some n) (hp : n.Placed) (hs : g.Sated n) (f : Node → Node)
    (hf : ∀ m, (f m).bare = m.bare) (hfo : ∀ m, (f m).outputs = m.outputs) {o : Outcome}
    (ht : ∀ t, o = .ok t → ∀ p ∈ n.sources, t.contains p.name = true)
    {log : List Record} (hl : g₀.OnlyRefusals log) (hr : ∀ r ∈ Outcome.records n o, r ∈ log) :
    g₀.Carried (g.turn id (fun m => (f m).store o) o.succeeds) := by
  have bare : ∀ m, ((f m).store o).bare = m.bare := fun m => ((f m).bare_store o).trans (hf m)
  have sources : (f n).sources = n.sources := by
    have := congrArg Node.ports (hf n)
    rw [Node.sources, Node.sources]
    exact congrArg _ this
  cases o with
  | error x =>
    obtain ⟨n₀, hn₀, hx⟩ := hl n.id x (hr _ (by simp [Outcome.records]))
    rw [hg.id_eq hn] at hn₀
    obtain ⟨m, hm, e⟩ := node?_of_bare hb.symm hn₀
    obtain rfl := Option.some.inj (hn.symm.trans hm)
    -- The check of the parameters is the one that the node has passed.
    have check : n.metadata.checkParameters n.id n.parameters =
        n₀.metadata.checkParameters n.id n₀.parameters := by
      show n.bare.metadata.checkParameters n.id n.bare.parameters = _
      rw [e]
      rfl
    have passes := hs.2
    rw [check, hx] at passes
    cases passes
  | ok t =>
    have placed : (f n).Placed := by
      intro q hq
      rw [hfo] at hq
      rw [sources]
      exact hp q hq
    refine h.turn hg hn _ _ bare (fun q hq => ?_) fun _ _ => .inr ⟨hs, ?_, ?_⟩
    · exact placed.contains_store (sources ▸ ht t rfl) (hfo n ▸ hq)
    · exact NodeState.noConfusion
    · exact NodeState.noConfusion

end Graph

namespace Wave

open Engine

variable {P : Palette} {g₀ : Graph} {past : List Record} {rest : List Job} {w w' : Wave}
  {id : NodeId} {n : Node}

/-! ## The invariant of deliveries -/

/-- **What holds while only deliveries come.** The log begins with what was logged earlier. -/
structure Steady (P : Palette) (g₀ : Graph) (past : List Record) (rest : List Job) (w : Wave) :
    Prop where
  bare : w.engine.graph.bare = g₀.bare
  upheld : ∃ seen ids, w.engine.Genuine P seen rest ∧ w.engine.Upheld ids rest
  placed : w.engine.graph.Placed
  carried : g₀.OnlyRefusals (past ++ w.log) → g₀.Carried w.engine.graph

/-- Every dispatch adds to the log, -/
theorem Dispatched.log_prefix (h : Dispatched w id n w') : ∃ new, w'.log = w.log ++ new := by
  cases h <;> exact ⟨_, List.append_assoc ..⟩

/-- and so does every delivery. -/
theorem Accepted.log_prefix {c : Completion} (h : Accepted w c w') :
    ∃ new, w'.log = w.log ++ new := by
  obtain ⟨cache, e, _⟩ := w.received_eq c
  cases h <;> rw [e]
  · exact ⟨_, List.append_assoc ..⟩
  · exact ⟨_, rfl⟩

/-- What the log tells later on it tells of the wave as it is. -/
theorem Steady.carried_of_log (h : w.Steady P g₀ past rest) {log : List Record}
    (hlog : ∃ new, log = w.log ++ new) (hl : g₀.OnlyRefusals (past ++ log)) :
    g₀.Carried w.engine.graph := by
  obtain ⟨new, rfl⟩ := hlog
  refine h.carried (hl.mono fun r hr => ?_)
  rw [← List.append_assoc]
  exact List.mem_append_left _ hr

theorem Dispatched.steady (hfill : ∀ v, P.variants v → v.Fills) (hd : Dispatched w id n w')
    (hg : w.engine.graph.Sound) (hn : w.engine.graph.node? id = some n)
    (h : w.Steady P g₀ past rest) : w'.Steady P g₀ past rest := by
  obtain ⟨seen, ids, hgen, hup⟩ := h.upheld
  obtain ⟨seen', _, hgen'⟩ := hd.genuine hg hn hgen
  refine ⟨hd.bare.trans h.bare, ⟨seen', ids, hgen', hd.upheld hg hn hgen hup⟩,
    hd.each Node.lasting_placed hg h.placed, fun hl => ?_⟩
  have hc := h.carried_of_log hd.log_prefix hl
  have hplaced := h.placed id n hn
  have hv := hfill _ (hgen.nodes id n hn).1.variant
  obtain rfl := hg.id_eq hn
  cases hd with
  | waits hi =>
    refine hc.turn hg hn (·.markWaiting) false (fun _ => rfl) (fun _ h => h) fun n₀ hn₀ => .inl ?_
    refine hc.outputs_eq hn (fun hs => ?_) hn₀
    obtain ⟨_, h⟩ := hs.1
    rw [hi] at h
    cases h
  | @refused _ x hi hx =>
    refine hc.turn hg hn (·.store (.error x)) false (fun _ => rfl) (fun _ h => h)
      fun n₀ hn₀ => .inl ?_
    refine hc.outputs_eq hn (fun hs => ?_) hn₀
    have := hs.2
    rw [hx] at this
    cases this
  | @inline inputs o hi hx _ ho =>
    refine hc.store hg h.bare hn hplaced ⟨⟨inputs, hi⟩, hx⟩ (·.beginCompute) (fun _ => rfl)
      (fun _ => rfl) (fun t ht => hv.contains (ho ▸ ht)) hl fun r hr => ?_
    simp [turn, hr]
  | @remembered inputs key outputs hi hx _ hk hf =>
    obtain ⟨stamp, hr, _⟩ := hgen.remembered hn hi (cacheKey?_eq_some hk ▸ hf)
    refine hc.store (o := .ok outputs) hg h.bare hn hplaced ⟨⟨inputs, hi⟩, hx⟩ (fun m => m)
      (fun _ => rfl) (fun _ => rfl) (fun t ht => ?_) hl fun r hr => ?_
    · cases ht
      exact hv.contains hr
    · simp [turn, hr]
  | @submitted inputs cache hi hx =>
    refine hc.turn hg hn (·.beginCompute) false (fun _ => rfl) (fun _ h => h) fun n₀ hn₀ => ?_
    refine (hc _ n n₀ hn hn₀).imp_right fun h => ⟨h.1, ?_, ?_⟩
    · exact NodeState.noConfusion
    · exact NodeState.noConfusion

theorem Accepted.steady {j : Job} (hfill : ∀ v, P.variants v → v.Fills)
    (ha : Accepted w (j.complete w.engine.files) w') (hg : w.engine.graph.Sound)
    (h : w.Steady P g₀ past (j :: rest)) : w'.Steady P g₀ past rest := by
  obtain ⟨seen, ids, hgen, hup⟩ := h.upheld
  have hj := hgen.jobs j (by simp)
  refine ⟨ha.bare.trans h.bare, ⟨seen, ids, ha.genuine hg hgen, ha.upheld hg hgen hup⟩,
    ha.each Node.lasting_placed hg h.placed, fun hl => ?_⟩
  have hc := h.carried_of_log ha.log_prefix hl
  obtain ⟨cache, e, _⟩ := w.received_eq (j.complete w.engine.files)
  cases ha with
  | @applied n hcur hn =>
    obtain ⟨m, hm, _, hs⟩ := isCurrent_iff.1 hcur
    obtain rfl := Option.some.inj (hn.symm.trans hm)
    have hid : j.node = n.id := (hg.id_eq hn).symm
    obtain ⟨hvar, inputs, stamp, hi, hx, hctx⟩ :=
      ((hup.settled _ n hn).computing _ hs).2.2 j (by simp) hid rfl
    have hv := hfill _ (hgen.nodes _ n hn).1.variant
    have run : (j.complete w.engine.files).outcome =
        n.variant.run (n.context inputs stamp w.engine.files) := by
      rw [complete_outcome hj.1.files, hvar, hctx]
    rw [e]
    refine hc.store hg h.bare hn (h.placed _ n hn) ⟨⟨inputs, hi⟩, hx⟩ (fun m => m) (fun _ => rfl)
      (fun _ => rfl) (fun t ht => hv.contains (run ▸ ht)) hl fun r hr => ?_
    simp [turn, hr]
  | dropped =>
    rw [e]
    exact hc

theorem steady_schedule (hfill : ∀ v, P.variants v → v.Fills) (hg : w.engine.graph.Sound)
    (h : w.Steady P g₀ past rest) : w.schedule.Steady P g₀ past rest :=
  schedule_induction (P := fun v => v.Steady P g₀ past rest) hg h
    fun _ hv _ hn hd h => hd.steady hfill hv hn h

theorem steady_collect (hfill : ∀ v, P.variants v → v.Fills) {taken : List Job}
    (hg : w.engine.graph.Sound) (h : w.Steady P g₀ past taken) :
    (collect w taken).Steady P g₀ past [] :=
  collect_rest (P := fun rest v => v.Steady P g₀ past rest) hg h
    fun hv ha h => ha.steady hfill hv h

end Wave

namespace Engine

variable {P : Palette} {g₀ : Graph} {past : List Record} {e : Engine} {held : Node → Prop}

/-! ## Runs -/

/-- **After every run outputs are at source ports.** -/
theorem placed_derives (hrest : e.AtRest) (h : e.graph.Placed) (hh : ∀ n, held n → n.Placed)
    (as : List Action) (ha : e.Admissible as) (hd : e.Derives P held as) :
    (e.run as).1.graph.Placed := by
  induction as generalizing e held with
  | nil => exact h
  | cons a as ih =>
    have hh' : ∀ n, (held n ∨ ∃ id, e.graph.node? id = some n) → n.Placed := by
      rintro n (hn | ⟨id, hn⟩)
      · exact hh n hn
      · exact h id n hn
    have placed := each_act Node.lasting_placed hrest h ha.1 fun n hn => (hd.1 n hn).placed hh'
    exact ih (hrest.act ha.1) placed hh' ha.2 hd.2

theorem steady_deliver (hfill : ∀ v, P.variants v → v.Fills) (hrest : e.AtRest)
    (h : Wave.Steady P g₀ past [] ⟨e, []⟩) (numbers : List Nat) :
    Wave.Steady P g₀ (past ++ (e.deliver numbers).2.log) [] ⟨(e.deliver numbers).1, []⟩ := by
  obtain ⟨taken, left, ht⟩ : ∃ taken left, takeJobs numbers e.jobs = (taken, left) := ⟨_, _, rfl⟩
  rw [deliver, ht]
  dsimp only
  split
  · show Wave.Steady P g₀ (past ++ []) [] ⟨e, []⟩
    rwa [List.append_nil]
  · have hp := takeJobs_perm ht
    obtain ⟨seen, ids, hgen, hup⟩ := h.upheld
    have hb : (e.batch left).Steady P g₀ past taken :=
      ⟨h.bare, ⟨seen, ids, hgen.batch hp, hup.batch hp⟩, h.placed, h.carried⟩
    have hc := steady_collect hfill (w := e.batch left) hrest.sound hb
    have hg := hrest.sound.of_bare (bare_collect (w := e.batch left) hrest.sound taken)
    have hs := steady_schedule hfill hg hc
    refine ⟨hs.bare, hs.upheld, hs.placed, fun hl => hs.carried ?_⟩
    rwa [List.append_nil] at hl

theorem steady_deliveries (hfill : ∀ v, P.variants v → v.Fills) (hrest : e.AtRest)
    (h : Wave.Steady P g₀ past [] ⟨e, []⟩) (batches : List (List Nat)) :
    Wave.Steady P g₀ (past ++ (e.run (batches.map .deliver)).2.log) []
      ⟨(e.run (batches.map .deliver)).1, []⟩ := by
  induction batches generalizing e past with
  | nil =>
    show Wave.Steady P g₀ (past ++ []) [] ⟨e, []⟩
    rwa [List.append_nil]
  | cons numbers batches ih =>
    have := ih (hrest.act (a := .deliver numbers) trivial) (steady_deliver hfill hrest h numbers)
    show Wave.Steady P g₀ (past ++ ((e.deliver numbers).2.log ++ _)) [] _
    rwa [← List.append_assoc]

end Engine

/-! ## Ends -/

/-- The state in which a node is left by what its compute comes to. -/
def Outcome.verdict : Option Outcome → NodeState
  | none => .waiting
  | some (.ok _) => .clean
  | some (.error _) => .error

/-- **The nodes are in the same state and have the same outputs**, apart from the revisions of
images. -/
structure Node.Agree (n m : Node) : Prop where
  state : n.state = m.state
  outputs : ∀ p, Value.Agree (n.outputs.get? p) (m.outputs.get? p)

namespace Engine

variable {P : Palette} {g₀ : Graph} {e f f' : Engine} {id : NodeId} {n m : Node}

/-- **The state of a node without work left is what its compute comes to.** -/
theorem Settled.verdict {rest : List Job} (h : e.Settled rest n) (hp : n.state.isPending = false) :
    ∃ stamp, n.state = Outcome.verdict (e.graph.outcome? e.files n stamp) ∧
      ∀ outputs, e.graph.outcome? e.files n stamp = some (.ok outputs) →
        n.outputs = outputsByPort n outputs := by
  cases hs : n.state with
  | clean =>
    obtain ⟨stamp, outputs, ho, he⟩ := h.clean hs
    refine ⟨stamp, by rw [ho]; rfl, fun t ht => ?_⟩
    rw [ho] at ht
    cases ht
    exact he
  | error =>
    obtain ⟨stamp, x, ho, _⟩ := h.error hs
    refine ⟨stamp, by rw [ho]; rfl, fun t ht => ?_⟩
    rw [ho] at ht
    cases ht
  | waiting =>
    obtain ⟨p, hp, ho, hi⟩ := h.waiting hs
    have none : e.graph.outcome? e.files n 0 = none := by
      rw [Graph.outcome?]
      split
      · rfl
      · next inputs hin => exact (Graph.inputs_ne_ok hp ho hi inputs hin).elim
    refine ⟨0, by rw [none]; rfl, fun t ht => ?_⟩
    rw [none] at ht
    cases ht
  | dirty | computing =>
    rw [hs] at hp
    cases hp

/-- **What is known when all deliveries that began on a graph have ended.** -/
structure Ended (P : Palette) (g₀ : Graph) (e : Engine) : Prop where
  sound : e.graph.Sound
  bare : e.graph.bare = g₀.bare
  palette : ∀ id n, e.graph.node? id = some n → n.OfPalette P
  settled : ∀ id n, e.graph.node? id = some n → e.Settled [] n
  idle : ∀ id n, e.graph.node? id = some n → n.state.isPending = false
  carried : g₀.Carried e.graph

/-- A node that waits or has failed has the outputs that it had at first. -/
theorem Ended.outputs_eq (h : Ended P g₀ e) (hn : e.graph.node? id = some n)
    (hs : n.state = .waiting ∨ n.state = .error) {n₀ : Node} (hn₀ : g₀.node? id = some n₀) :
    n.outputs = n₀.outputs := by
  refine (h.carried id n n₀ hn hn₀).resolve_right fun ⟨_, hw, he⟩ => ?_
  exact hs.elim hw he

/-- **Two ends of one beginning agree**, node by node along the links. -/
theorem Ended.agree (h : Ended P g₀ f) (h' : Ended P g₀ f') (hfiles : f'.files = f.files)
    (hn : f.graph.node? id = some n) (hm : f'.graph.node? id = some m) : n.Agree m := by
  have twin : f.graph.Twin f'.graph := .of_bare (h.bare.trans h'.bare.symm)
  induction id using h.sound.wellFounded.induction generalizing n m with
  | _ id ih =>
    obtain ⟨k, hk, ht⟩ := twin.node? hn
    obtain rfl := Option.some.inj (hm.symm.trans hk)
    obtain ⟨n₀, hn₀, _⟩ := Graph.node?_of_bare h.bare hn
    have sees : ∀ p ∈ n.ports, Value.Agree (f.graph.inputAt? p) (f'.graph.inputAt? p) := fun p hp =>
      twin.inputAt? h.sound h'.sound hn hp fun a b c ha hb hc q => (ih a ha hb hc).outputs q
    obtain ⟨s, hs, ho⟩ := (h.settled id n hn).verdict (h.idle id n hn)
    obtain ⟨t, ht', ho'⟩ := (h'.settled id m hm).verdict (h'.idle id m hm)
    have outcome := Graph.outcome?_twin (h.palette id n hn) ht sees f.files s t
    rw [hfiles] at ht' ho'
    generalize f.graph.outcome? f.files n s = x at hs ho outcome
    generalize f'.graph.outcome? f.files m t = y at ht' ho' outcome
    -- Without a result both nodes have the outputs that they had at first.
    have first : (n.state = .waiting ∨ n.state = .error) → n.state = m.state →
        ∀ p, Value.Agree (n.outputs.get? p) (m.outputs.get? p) := fun hn' e p => by
      rw [h.outputs_eq hn hn' hn₀, h'.outputs_eq hm (e ▸ hn') hn₀]
      exact .refl _
    cases outcome with
    | none =>
      have state : n.state = m.state := hs.trans ht'.symm
      exact ⟨state, first (.inl hs) state⟩
    | some hmatch =>
      cases hmatch with
      | error =>
        have state : n.state = m.state := hs.trans ht'.symm
        exact ⟨state, first (.inr hs) state⟩
      | ok hst =>
        refine ⟨hs.trans ht'.symm, fun p => ?_⟩
        have sources : ∀ u, outputsByPort m u = outputsByPort n u := fun u => by
          rw [outputsByPort, outputsByPort, Node.sources, Node.sources, ht.ports]
        rw [ho _ rfl, ho' _ rfl, sources]
        exact outputsByPort_rel n hst p

theorem ended_deliveries (hfill : ∀ v, P.variants v → v.Fills) (hrest : e.AtRest)
    (h : Wave.Steady P e.graph [] [] ⟨e, []⟩) {batches : List (List Nat)}
    (hi : (e.run (batches.map .deliver)).1.isIdle = true)
    (hl : e.graph.OnlyRefusals (e.run (batches.map .deliver)).2.log) :
    Ended P e.graph (e.run (batches.map .deliver)).1 := by
  have hs := steady_deliveries hfill hrest h batches
  obtain ⟨seen, ids, hgen, hup⟩ := hs.upheld
  refine ⟨(hrest.run _ (admissible_deliver e batches)).sound, hs.bare,
    fun id n hn => (hgen.nodes id n hn).1, hup.settled, (isIdle_iff.1 hi).2, hs.carried ?_⟩
  rwa [List.nil_append, List.append_nil]

end Engine

/-- Whether the record tells of a failure. -/
def Record.fails : Record → Bool
  | .event (.failed ..) => true
  | _ => false

theorem Graph.onlyRefusals_of_all (g : Graph) {log : List Record}
    (h : log.all (!·.fails) = true) : g.OnlyRefusals log := fun id x hx => by
  have := List.all_eq_true.1 h _ hx
  cases this

namespace Engine.Relay

open Compute

theorem abides_echo : Late.echo.compute.Abides :=
  (abides_ask _).bind fun _ => abides_setOutput _ _

theorem abides_first : first.compute.Abides :=
  (abides_ask _).bind fun _ => abides_setOutput _ _

theorem fills (v : Variant) (hv : palette.variants v) : v.Fills := by
  rcases hv with rfl | rfl
  · exact (abides_echo.keeps).fills
  · exact (abides_first.keeps).fills

/-- Two numbers are on their way to one node, the first of them for the second time. -/
def joined : List Action :=
  [.addVariant Late.echo, .addVariant Late.echo, .addVariant first,
   .edit (.connect ⟨.mint 0 1⟩ ⟨.mint 4 1⟩), .edit (.connect ⟨.mint 2 1⟩ ⟨.mint 4 2⟩), raise]

def begun : Engine := ((new .standard Late.noFiles).run joined).1

/-- The late result comes in between, -/
def oneByOne : List (List Nat) := [[2], [0], [1], [3]]

/-- or it comes before the one that is awaited, in one batch with it. -/
def together : List (List Nat) := [[1], [0, 2], [3]]

theorem isIdle_oneByOne : (begun.run (oneByOne.map .deliver)).1.isIdle = true := by cbv

theorem isIdle_together : (begun.run (together.map .deliver)).1.isIdle = true := by cbv

theorem succeeds_oneByOne :
    (begun.run (oneByOne.map .deliver)).2.log.all (!·.fails) = true := by cbv

theorem succeeds_together :
    (begun.run (together.map .deliver)).2.log.all (!·.fails) = true := by cbv

theorem value_together :
    (begun.run (together.map .deliver)).1.cachedValue? ⟨.mint 4 3⟩ = some (.number 2) := by cbv

end Engine.Relay

namespace Engine

end Engine

end PixelFlow
