import PixelFlow.Proofs.Builtin
import PixelFlow.Proofs.Engine.Genuine

/-!
# The state of a node agrees with what it sees

A node is clean only if its outputs are what its compute yields on what is at its sinks now, it has
failed only if its error is, and it computes only while a job is under way that sees the same. This
is kept by each dispatch, each delivery and each edit, since all that changes what a node sees makes
it dirty.

* `Engine.Settled`: what the state of a node says about its outputs, its error and its jobs.
* `Engine.Settled.frame`: what a node does not see may change.
* `Engine.Upheld`: the invariant of a run; `Wave.Dispatched.upheld`, `Wave.Accepted.upheld`,
  `Engine.upheld_act`: one dispatch, one delivery, one action.
* `Engine.Consistent`: what holds of a node between actions, as the outside sees it.
* **`Engine.consistent_run`**: between actions every node agrees with what it sees.
-/

namespace PixelFlow

open Relation Wave

/-- The job computes the node on what it sees now. -/
def Engine.Holds (e : Engine) (n : Node) (j : Job) : Prop :=
  j.variant = n.variant ∧ ∃ inputs stamp, e.graph.inputs n = .ok inputs ∧
    n.metadata.checkParameters n.id n.parameters = .ok () ∧
    j.context = n.context inputs stamp e.files

/-- **What the state of a node says**: the outputs of a clean node and the error of one that failed
are what its compute comes to, a waiting node lacks a value, and a job of the awaited generation is
under way and computes the node on what it sees. -/
structure Engine.Settled (rest : List Job) (e : Engine) (n : Node) : Prop where
  clean : n.state = .clean → ∃ stamp outputs,
    e.graph.outcome? e.files n stamp = some (.ok outputs) ∧ n.outputs = outputsByPort n outputs
  error : n.state = .error → ∃ stamp x,
    e.graph.outcome? e.files n stamp = some (.error x) ∧ n.lastError = some x
  waiting : n.state = .waiting → ∃ p ∈ n.sinks, p.isOptional = false ∧ e.graph.inputAt? p = none
  computing : ∀ k, n.state = .computing k → k = n.generation ∧
    (∃ j ∈ rest ++ e.jobs, j.node = n.id ∧ j.generation = k) ∧
    ∀ j ∈ rest ++ e.jobs, j.node = n.id → j.generation = k → e.Holds n j

namespace Graph

variable {g : Graph} {n : Node} {files : FileStore} {inputs : Table String Value}

theorem outcome?_refused (hi : g.inputs n = .ok inputs) {x : ComputeError}
    (hc : n.metadata.checkParameters n.id n.parameters = .error x) (stamp : Nat) :
    g.outcome? files n stamp = some (.error x) := by
  rw [outcome?, hi]
  dsimp only
  rw [hc]

theorem outcome?_computed (hi : g.inputs n = .ok inputs)
    (hc : n.metadata.checkParameters n.id n.parameters = .ok ()) (stamp : Nat) :
    g.outcome? files n stamp = some (n.variant.run (n.context inputs stamp files)) := by
  rw [outcome?, hi]
  dsimp only
  rw [hc]

/-- A turn of a node leaves the outcome of its own compute alone. -/
theorem outcome?_turn (hg : g.Sound) {id : NodeId} (f : Node → Node) (spreads : Bool)
    (hf : ∀ m, (f m).bare = m.bare) (ho : spreads = false → ∀ m, (f m).outputs = m.outputs)
    (hn : g.node? id = some n) (files : FileStore) (stamp : Nat) :
    (g.turn id f spreads).outcome? files (f n) stamp = g.outcome? files n stamp :=
  outcome?_congr (hf n)
    (inputs_turn hg f spreads hf ho hn fun h => hg.not_feeds_self id h.2) files stamp

end Graph

namespace Engine

variable {rest rest' : List Job} {e e' : Engine} {id : NodeId} {n : Node}

theorem Holds.outcome {j : Job} (h : e.Holds n j) :
    ∃ stamp, e.graph.outcome? e.files n stamp = some (j.variant.run j.context) := by
  obtain ⟨hv, inputs, stamp, hi, hc, he⟩ := h
  exact ⟨stamp, by rw [Graph.outcome?_computed hi hc, hv, he]⟩

namespace Settled

theorem of_dirty (h : n.state = .dirty) : e.Settled rest n := by
  constructor <;> rw [h] <;> simp

/-- **Only what is at the sinks of a node matters to it, and the jobs that it awaits.** -/
theorem frame (h : e.Settled rest n) (hf : e'.files = e.files)
    (hi : ∀ p ∈ n.ports, e'.graph.inputAt? p = e.graph.inputAt? p)
    (hj : ∀ j : Job, j.node = n.id → n.state = .computing j.generation →
      (j ∈ rest' ++ e'.jobs ↔ j ∈ rest ++ e.jobs)) : e'.Settled rest' n := by
  have inputs : e'.graph.inputs n = e.graph.inputs n := Graph.inputs_congr hi
  have outcome : ∀ stamp, e'.graph.outcome? e'.files n stamp = e.graph.outcome? e.files n stamp :=
    fun stamp => by rw [hf, Graph.outcome?_congr rfl inputs]
  refine ⟨fun hs => ?_, fun hs => ?_, fun hs => ?_, fun k hs => ?_⟩
  · simp only [outcome]
    exact h.clean hs
  · simp only [outcome]
    exact h.error hs
  · obtain ⟨p, hp, ho, hn⟩ := h.waiting hs
    exact ⟨p, hp, ho, (hi p (List.mem_of_mem_filter hp)).trans hn⟩
  · obtain ⟨hk, ⟨j, hm, hjn, hjk⟩, hall⟩ := h.computing k hs
    refine ⟨hk, ⟨j, (hj j hjn (hjk ▸ hs)).2 hm, hjn, hjk⟩, fun j hm hjn hjk => ?_⟩
    obtain ⟨hv, inp, stamp, hinp, hc, he⟩ := hall j ((hj j hjn (hjk ▸ hs)).1 hm) hjn hjk
    exact ⟨hv, inp, stamp, inputs.trans hinp, hc, hf ▸ he⟩

/-- Storing what its compute comes to settles a node. -/
theorem store (m : Node) {o : Outcome} (stamp : Nat)
    (h : e.graph.outcome? e.files (m.store o) stamp = some o) : e.Settled rest (m.store o) := by
  cases o with
  | ok outputs =>
    refine ⟨fun _ => ⟨stamp, outputs, h, rfl⟩, ?_, ?_, ?_⟩ <;> intros <;> contradiction
  | error x =>
    refine ⟨?_, fun _ => ⟨stamp, x, h, rfl⟩, ?_, ?_⟩ <;> intros <;> contradiction

end Settled

/-- **Every node is settled; jobs are of generations that their nodes have begun and of nodes that
have been in the graph.** -/
structure Upheld (ids : List NodeId) (rest : List Job) (e : Engine) : Prop where
  settled : ∀ id n, e.graph.node? id = some n → e.Settled rest n
  begun : ∀ j ∈ rest ++ e.jobs, ∀ n, e.graph.node? j.node = some n → j.generation ≤ n.generation
  nodes : ∀ id n, e.graph.node? id = some n → id ∈ ids
  jobs : ∀ j ∈ rest ++ e.jobs, j.node ∈ ids

variable {ids : List NodeId}

/-- **A turn of one node leaves all others settled.** -/
theorem Upheld.turn (h : e.Upheld ids rest) (hg : e.graph.Sound) (f : Node → Node) (spreads : Bool)
    (hf : ∀ m, (f m).bare = m.bare) (ho : spreads = false → ∀ m, (f m).outputs = m.outputs)
    (hn : e.graph.node? id = some n)
    (hgr : e'.graph = e.graph.turn id f spreads) (hfiles : e'.files = e.files)
    (hj : ∀ j : Job, j.node ≠ id → (j ∈ rest' ++ e'.jobs ↔ j ∈ rest ++ e.jobs))
    (hb : ∀ j ∈ rest' ++ e'.jobs, j.node = id → j.generation ≤ (f n).generation)
    (hs : e'.Settled rest' (f n)) : e'.Upheld ids rest' := by
  have node : ∀ j m, e'.graph.node? j = some m → id = j ∧ m = f n ∨ id ≠ j ∧
      (m.state = .dirty ∨ ¬ (spreads = true ∧ e.graph.Feeds id j) ∧ e.graph.node? j = some m) ∧
      ∃ m', e.graph.node? j = some m' ∧ m'.generation = m.generation := by
    intro j m h
    rw [hgr, Graph.node?_turn hg] at h
    split at h
    · next he =>
      subst he
      rw [hn] at h
      exact .inl ⟨rfl, (Option.some.inj h).symm⟩
    · next hne =>
      split at h
      · obtain ⟨m', hm', rfl⟩ := Option.map_eq_some_iff.1 h
        exact .inr ⟨hne, .inl rfl, m', hm', rfl⟩
      · next hfeeds => exact .inr ⟨hne, .inr ⟨hfeeds, h⟩, m, h, rfl⟩
  have hid := h.nodes id n hn
  refine ⟨fun j m hjm => ?_, fun j hjm m hm' => ?_, fun j m hjm => ?_, fun j hjm => ?_⟩
  · rcases node j m hjm with ⟨rfl, rfl⟩ | ⟨hne, hd | ⟨hfeeds, hm'⟩, _⟩
    · exact hs
    · exact .of_dirty hd
    · refine (h.settled j m hm').frame hfiles (fun p hp => ?_) fun k hk _ => hj k ?_
      · rw [hgr]
        exact Graph.inputAt?_turn hg f spreads hf ho hm' hfeeds hp
      · rw [hk, hg.id_eq hm']
        exact hne.symm
  · rcases node j.node m hm' with ⟨he, rfl⟩ | ⟨hne, _, m', hm', hge⟩
    · exact hb j hjm he.symm
    · exact hge ▸ h.begun j ((hj j hne.symm).1 hjm) m' hm'
  · rcases node j m hjm with ⟨rfl, _⟩ | ⟨_, _, m', hm', _⟩
    · exact hid
    · exact h.nodes j m' hm'
  · by_cases he : j.node = id
    · rwa [he]
    · exact h.jobs j ((hj j he).1 hjm)

/-- **A node that stores what its compute comes to is settled, and all others stay so.** -/
theorem Upheld.store (h : e.Upheld ids rest) (hg : e.graph.Sound) (hn : e.graph.node? id = some n)
    (f : Node → Node) (hf : ∀ m, (f m).bare = m.bare) (hfo : ∀ m, (f m).outputs = m.outputs)
    {o : Outcome} (stamp : Nat) (ho : e.graph.outcome? e.files n stamp = some o)
    (hgr : e'.graph = e.graph.turn id (fun m => (f m).store o) o.succeeds)
    (hfiles : e'.files = e.files)
    (hj : ∀ j : Job, j.node ≠ id → (j ∈ rest' ++ e'.jobs ↔ j ∈ rest ++ e.jobs))
    (hb : ∀ j ∈ rest' ++ e'.jobs, j.node = id → j.generation ≤ (f n).generation) :
    e'.Upheld ids rest' := by
  have bare : ∀ m, ((f m).store o).bare = m.bare := fun m => ((f m).bare_store o).trans (hf m)
  have outputs : o.succeeds = false → ∀ m, ((f m).store o).outputs = m.outputs := fun h m =>
    ((f m).outputs_store h).trans (hfo m)
  have settled : e'.Settled rest' ((f n).store o) := by
    refine .store (f n) stamp ?_
    rw [hgr, hfiles]
    exact (Graph.outcome?_turn hg _ _ bare outputs hn _ stamp).trans ho
  refine h.turn hg _ _ bare outputs hn hgr hfiles hj (fun j hjm he => ?_) settled
  rw [Node.generation_store]
  exact hb j hjm he

end Engine

namespace Wave

variable {P : Palette} {seen : Image → Prop} {rest : List Job} {w w' : Wave} {id : NodeId} {n : Node}
  {ids : List NodeId}

open Engine

/-- **Every dispatch leaves every node settled.** -/
theorem Dispatched.upheld (hd : Dispatched w id n w') (hg : w.engine.graph.Sound)
    (hn : w.engine.graph.node? id = some n) (h : w.engine.Genuine P seen rest)
    (hu : w.engine.Upheld ids rest) : w'.engine.Upheld ids rest := by
  obtain rfl := hg.id_eq hn
  have begun : ∀ j ∈ rest ++ w.engine.jobs, j.node = n.id → j.generation ≤ n.generation :=
    fun j hj he => hu.begun j hj n (he ▸ hn)
  cases hd with
  | waits hi =>
    refine hu.turn hg (·.markWaiting) false (fun _ => rfl) (fun _ _ => rfl) hn rfl rfl
      (fun _ _ => Iff.rfl) begun ?_
    obtain ⟨p, hp, _, ho, hnone⟩ := Graph.inputs_error hi
    refine ⟨?_, ?_, fun _ => ⟨p, hp, ho, ?_⟩, ?_⟩ <;> try (intros; contradiction)
    exact (Graph.inputAt?_turn hg (·.markWaiting) false (fun _ => rfl) (fun _ _ => rfl) hn
      (fun h => hg.not_feeds_self _ h.2) (List.mem_of_mem_filter hp)).trans hnone
  | @refused inputs x hi hc =>
    exact hu.store hg hn id (fun _ => rfl) (fun _ => rfl) 0 (Graph.outcome?_refused hi hc 0) rfl
      rfl (fun _ _ => Iff.rfl) begun
  | @inline inputs o hi hc _ ho =>
    have outcome : w.engine.graph.outcome? w.engine.files n w.engine.stamp = some o := by
      rw [Graph.outcome?_computed hi hc, ho]
    exact hu.store hg hn (·.beginCompute) (fun _ => rfl) (fun _ => rfl) _ outcome rfl rfl
      (fun _ _ => Iff.rfl) fun j hj he => (begun j hj he).trans (Nat.le_succ _)
  | @remembered inputs key outputs hi hc _ hk hf =>
    obtain ⟨stamp, hr, _⟩ := h.remembered hn hi (cacheKey?_eq_some hk ▸ hf)
    have outcome : w.engine.graph.outcome? w.engine.files n stamp = some (.ok outputs) := by
      rw [Graph.outcome?_computed hi hc, hr]
    exact hu.store hg hn id (fun _ => rfl) (fun _ => rfl) stamp outcome rfl rfl
      (fun _ _ => Iff.rfl) begun
  | @submitted inputs cache hi hc _ _ =>
    have mem : ∀ j, j ∈ rest ++ (w.enlist (w.newJob n inputs) cache).engine.jobs ↔
        j ∈ rest ++ w.engine.jobs ∨ j = w.newJob n inputs := fun j => by
      simp [enlist, or_assoc]
    refine hu.turn hg (·.beginCompute) false (fun _ => rfl) (fun _ _ => rfl) hn rfl rfl
      (fun j hj => (mem j).trans (or_iff_left fun e => hj (e ▸ rfl))) (fun j hj he => ?_) ?_
    · rcases (mem j).1 hj with hj | rfl
      · exact (begun j hj he).trans (Nat.le_succ _)
      · exact Nat.le_refl _
    · refine ⟨?_, ?_, ?_, fun k hk => ?_⟩ <;> try (intros; contradiction)
      obtain rfl : n.generation + 1 = k := NodeState.computing.inj hk
      refine ⟨rfl, ⟨w.newJob n inputs, (mem _).2 (.inr rfl), rfl, rfl⟩, fun j hj he hjk => ?_⟩
      -- Older jobs of the node are of generations that it had begun before.
      rcases (mem j).1 hj with hj | rfl
      · have := begun j hj he
        omega
      · refine ⟨rfl, inputs, w.engine.stamp, ?_, hc, rfl⟩
        exact (Graph.inputs_turn hg (·.beginCompute) false (fun _ => rfl) (fun _ _ => rfl) hn
          fun h => hg.not_feeds_self _ h.2).trans hi

/-- **Every delivery leaves every node settled.** -/
theorem Accepted.upheld {j : Job} (ha : Accepted w (j.complete w.engine.files) w')
    (hg : w.engine.graph.Sound) (h : w.engine.Genuine P seen (j :: rest))
    (hu : w.engine.Upheld ids (j :: rest)) : w'.engine.Upheld ids rest := by
  obtain ⟨cache, e, _⟩ := w.received_eq (j.complete w.engine.files)
  have mem : ∀ k, k ∈ j :: rest ++ w.engine.jobs ↔ k = j ∨ k ∈ rest ++ w.engine.jobs := fun k =>
    List.mem_cons
  have old : ∀ {k}, k ∈ rest ++ w.engine.jobs → k ∈ j :: rest ++ w.engine.jobs := fun hk =>
    List.mem_cons_of_mem j hk
  cases ha with
  | @applied n hc hn =>
    have hid : j.node = n.id := (hg.id_eq hn).symm
    obtain ⟨m, hm, _, hs⟩ := isCurrent_iff.1 hc
    obtain rfl : n = m := Option.some.inj (hn.symm.trans hm)
    have hold := ((hu.settled _ n hn).computing _ hs).2.2 j ((mem j).2 (.inl rfl)) hid rfl
    obtain ⟨stamp, ho⟩ := hold.outcome
    rw [← complete_outcome (h.jobs j ((mem j).2 (.inl rfl))).1.files] at ho
    rw [e]
    refine hu.store hg hn id (fun _ => rfl) (fun _ => rfl) stamp ho rfl rfl (fun k hk => ?_)
      fun k hk he => hu.begun k (old hk) n (he ▸ hn)
    refine ((mem k).trans (or_iff_right ?_)).symm
    rintro rfl
    exact hk rfl
  | dropped hc =>
    rw [e]
    refine ⟨fun id n hn => ?_, fun k hk => hu.begun k (old hk), hu.nodes,
      fun k hk => hu.jobs k (old hk)⟩
    refine (hu.settled id n hn).frame rfl (fun _ _ => rfl) fun k hk hs => ?_
    refine ((mem k).trans (or_iff_right ?_)).symm
    rintro rfl
    -- The job whose result is dropped is none that a node awaits.
    have hgen := ((hu.settled id n hn).computing _ hs).1
    rw [hg.id_eq hn] at hk
    subst hk
    have : w.isCurrent (k.complete w.engine.files) = true :=
      isCurrent_iff.2 ⟨n, hn, hgen.symm, hs⟩
    rw [hc] at this
    cases this

/-! ## Waves -/

theorem upheld_schedule (hg : w.engine.graph.Sound) (h : w.engine.Genuine P seen rest)
    (hu : w.engine.Upheld ids rest) : ∃ seen' : Image → Prop, (∀ i, seen i → seen' i) ∧
      w.schedule.engine.Genuine P seen' rest ∧ w.schedule.engine.Upheld ids rest :=
  schedule_induction (P := fun v => ∃ seen' : Image → Prop, (∀ i, seen i → seen' i) ∧
      v.engine.Genuine P seen' rest ∧ v.engine.Upheld ids rest) hg
    ⟨seen, fun _ h => h, h, hu⟩ fun _ hv _ hn hd ⟨_, hs, h, hu⟩ =>
      let ⟨seen', hs', h'⟩ := hd.genuine hv hn h
      ⟨seen', fun i hi => hs' i (hs i hi), h', hd.upheld hv hn h hu⟩

theorem upheld_collect {taken : List Job} (hg : w.engine.graph.Sound)
    (h : w.engine.Genuine P seen taken) (hu : w.engine.Upheld ids taken) :
    (collect w taken).engine.Genuine P seen [] ∧ (collect w taken).engine.Upheld ids [] := by
  let Q (rest : List Job) (v : Wave) : Prop :=
    v.engine.Genuine P seen rest ∧ v.engine.Upheld ids rest
  have first : Q taken w := ⟨h, hu⟩
  exact collect_rest hg first fun hv ha ⟨h, hu⟩ => ⟨ha.genuine hv h, ha.upheld hv h hu⟩

end Wave

/-! ## Actions -/

namespace Engine

variable {P : Palette} {seen : Image → Prop} {e e' : Engine} {ids : List NodeId}

/-- What an edit brings is of the palette and shows nothing new. -/
theorem Genuine.revises (h : e.Genuine P seen []) {new : List Node} {g' : Graph}
    {touched : List NodeId} (hr : e.graph.Revises new g' touched)
    (hb : ∀ n ∈ new, n.OfPalette P ∧ n.outputs.Shows seen) {stamp : Nat} (hs : e.stamp ≤ stamp) :
    ({ e with graph := g', stamp := stamp } : Engine).Genuine P seen [] where
  sees := h.sees.mono hs
  nodes id n hn := by
    by_cases ht : id ∈ touched
    · obtain ⟨n', hn', _, ⟨_, m, hm, _, rfl⟩ | ⟨m, ps, hm, rfl⟩⟩ := hr.dirty ht <;>
        obtain rfl := Option.some.inj (hn.symm.trans hn')
      · exact ⟨(hb m hm).1.of_bare rfl rfl, (hb m hm).2⟩
      · exact ⟨(h.nodes id m hm).1.of_bare rfl rfl, (h.nodes id m hm).2⟩
    · exact h.nodes id n (hr.kept ht hn)
  jobs := h.jobs
  cache := h.cache

/-- **An edit leaves every node settled**: those that it touches are dirty, and the others see
what they saw. -/
theorem Upheld.revises (h : e.Upheld ids []) {new : List Node} {g' : Graph}
    {touched : List NodeId} (hr : e.graph.Revises new g' touched) (hn : ∀ n ∈ new, n.id ∉ ids)
    (stamp : Nat) : ({ e with graph := g', stamp := stamp } : Engine).Upheld
      (ids ++ new.map (·.id)) [] := by
  refine ⟨fun id n hid => ?_, fun j hj n hid => ?_, fun id n hid => ?_, fun j hj => ?_⟩
  · by_cases ht : id ∈ touched
    · obtain ⟨n', hn', hd, _⟩ := hr.dirty ht
      obtain rfl := Option.some.inj (hid.symm.trans hn')
      exact .of_dirty hd
    · refine (h.settled id n (hr.kept ht hid)).frame rfl (fun p hp => ?_) fun _ _ _ => Iff.rfl
      exact Graph.inputAt?_congr (hr.inputs ht hid p hp)
  · by_cases ht : j.node ∈ touched
    · obtain ⟨n', hn', _, ⟨_, m, hm, hmi, rfl⟩ | ⟨m, ps, hm, rfl⟩⟩ := hr.dirty ht <;>
        obtain rfl := Option.some.inj (hid.symm.trans hn')
      · exact (hn m hm (hmi ▸ h.jobs j hj)).elim
      · exact h.begun j hj m hm
    · exact h.begun j hj n (hr.kept ht hid)
  · rw [List.mem_append]
    by_cases ht : id ∈ touched
    · obtain ⟨n', hn', _, ⟨_, m, hm, hmi, rfl⟩ | ⟨m, ps, hm, rfl⟩⟩ := hr.dirty ht
      · exact .inr (List.mem_map.2 ⟨m, hm, hmi⟩)
      · exact .inl (h.nodes id m hm)
    · exact .inl (h.nodes id n (hr.kept ht hid))
  · exact List.mem_append_left _ (h.jobs j hj)

theorem Upheld.congr (h : e.Upheld ids []) (hg : e'.graph = e.graph) (hj : e'.jobs = e.jobs)
    (hf : e'.files = e.files) : e'.Upheld ids [] where
  settled id n hn := (h.settled id n (hg ▸ hn)).frame hf (fun _ _ => by rw [hg])
    fun _ _ _ => by rw [hj]
  begun j hjm n hn := h.begun j (hj ▸ hjm) n (hg ▸ hn)
  nodes id n hn := h.nodes id n (hg ▸ hn)
  jobs j hjm := h.jobs j (hj ▸ hjm)

/-- The jobs of a batch are taken and still counted in. -/
theorem Genuine.batch (h : e.Genuine P seen []) {taken left : List Job}
    (hp : e.jobs.Perm (taken ++ left)) : (e.batch left).engine.Genuine P seen taken :=
  { h with jobs := fun j hj => h.jobs j (hp.mem_iff.2 hj) }

theorem Upheld.batch (h : e.Upheld ids []) {taken left : List Job}
    (hp : e.jobs.Perm (taken ++ left)) : (e.batch left).engine.Upheld ids taken where
  settled id n hn := (h.settled id n hn).frame rfl (fun _ _ => rfl) fun _ _ _ => hp.mem_iff.symm
  begun j hj := h.begun j (hp.mem_iff.2 hj)
  nodes := h.nodes
  jobs j hj := h.jobs j (hp.mem_iff.2 hj)

/-- **Every action leaves every node settled.** -/
theorem upheld_act (hrest : e.AtRest) (h : e.Genuine P seen []) (hu : e.Upheld ids []) {a : Action}
    (ha : a.Admissible e) (hb : ∀ n ∈ e.inserted a, n.OfPalette P ∧ n.outputs.Shows seen)
    (hn : ∀ n ∈ e.inserted a, n.id ∉ ids) : ∃ seen' : Image → Prop, (∀ i, seen i → seen' i) ∧
      (e.act a).1.Genuine P seen' [] ∧
        (e.act a).1.Upheld (ids ++ (e.inserted a).map (·.id)) [] := by
  have hs := act_spec hrest.sound hrest.known ha
  generalize e.act a = x at hs ⊢
  cases hs with
  | idle hs hi =>
    rw [hi, List.map_nil, List.append_nil]
    have same := h.mono (fun _ h => h) (h.sees.mono hs.stamp) hs.graph hs.jobs hs.files hs.cache
    exact ⟨seen, fun _ h => h, same, hu.congr hs.graph hs.jobs hs.files⟩
  | edited change stamp ha hk hst hr hi =>
    rw [hi] at hb hn ⊢
    have hv := hrest.sound.perform ha hr
    exact upheld_schedule (w := { e with stamp := stamp }.opened _) hv.sound
      (h.revises hv hb hst) (hu.revises hv hn stamp)
  | @delivered numbers taken left ht htake =>
    have hp := takeJobs_perm htake
    have hi : e.inserted a = [] := by rw [ht]; rfl
    rw [hi, List.map_nil, List.append_nil]
    obtain ⟨hc, hcu⟩ := upheld_collect (w := e.batch left) hrest.sound (h.batch hp) (hu.batch hp)
    exact upheld_schedule (hrest.sound.of_bare (bare_collect (w := e.batch left) hrest.sound taken))
      hc hcu

theorem upheld_new (P : Palette) (options : EngineOptions) (files : FileStore) :
    (new options files).Genuine P P.images [] ∧ (new options files).Upheld [] [] := by
  refine ⟨⟨P.sees_kept, ?_, ?_, ?_⟩, ⟨?_, ?_, ?_, ?_⟩⟩
  · exact fun _ _ h => nomatch h
  · exact fun _ h => nomatch h
  · exact fun _ h => nomatch h
  · exact fun _ _ h => nomatch h
  · exact fun _ h => nomatch h
  · exact fun _ _ h => nomatch h
  · exact fun _ h => nomatch h

/-- **What a run puts into the graph is derived from the palette**, or from nodes that were held at
first or were in the graph before. -/
def Derives (P : Palette) (held : Node → Prop) (e : Engine) : List Action → Prop
  | [] => True
  | a :: as =>
    let held' n := held n ∨ ∃ id, e.graph.node? id = some n
    (∀ n ∈ e.inserted a, n.Derived P held') ∧ (e.act a).1.Derives P held' as

theorem derives_of_built {held : Node → Prop} {as : List Action}
    (hb : ∀ n ∈ e.insertions as, n.Built P) : e.Derives P held as := by
  induction as generalizing e held with
  | nil => exact trivial
  | cons a as ih =>
    rw [insertions] at hb
    exact ⟨fun n hn => (hb n (List.mem_append_left _ hn)).derived,
      ih fun n hn => hb n (List.mem_append_right _ hn)⟩

theorem upheld_derives (hrest : e.AtRest) (h : e.Genuine P seen []) (hu : e.Upheld ids [])
    {held : Node → Prop} (hh : ∀ n, held n → n.OfPalette P ∧ n.outputs.Shows seen)
    (as : List Action) (ha : e.Admissible as) (hd : e.Derives P held as)
    (hn : (ids ++ (e.insertions as).map (·.id)).Nodup) : ∃ seen',
      (e.run as).1.Genuine P seen' [] ∧
        (e.run as).1.Upheld (ids ++ (e.insertions as).map (·.id)) [] := by
  induction as generalizing e seen ids held with
  | nil =>
    rw [insertions, List.map_nil, List.append_nil]
    exact ⟨seen, h, hu⟩
  | cons a as ih =>
    rw [insertions] at hn ⊢
    rw [List.map_append, ← List.append_assoc] at hn ⊢
    have hh' : ∀ n, (held n ∨ ∃ id, e.graph.node? id = some n) →
        n.OfPalette P ∧ n.outputs.Shows seen := by
      rintro n (hn | ⟨id, hn⟩)
      · exact hh n hn
      · exact h.nodes id n hn
    obtain ⟨seen', hs, h', hu'⟩ := upheld_act hrest h hu ha.1
      (fun n hm => (hd.1 n hm).shows hh') fun n hm hid => by
        have := (List.nodup_append.1 (List.nodup_append.1 hn).1).2.2
        exact this n.id hid n.id (List.mem_map_of_mem hm) rfl
    exact ih (hrest.act ha.1) h' hu' (fun n hn => (hh' n hn).imp_right (·.mono hs)) ha.2 hd.2 hn

theorem upheld_run (hrest : e.AtRest) (h : e.Genuine P seen []) (hu : e.Upheld ids [])
    (as : List Action) (ha : e.Admissible as) (hb : ∀ n ∈ e.insertions as, n.Built P)
    (hn : (ids ++ (e.insertions as).map (·.id)).Nodup) : ∃ seen',
      (e.run as).1.Genuine P seen' [] ∧
        (e.run as).1.Upheld (ids ++ (e.insertions as).map (·.id)) [] :=
  upheld_derives hrest h hu (fun _ (h : False) => h.elim) as ha (derives_of_built hb) hn

/-! ## Between actions -/

/-- **What a node shows agrees with what it sees.** A clean node has the outputs that its compute
yields on what is at its sinks, port by port, whatever the stamp of the compute; only the images
that it makes have other revisions. A node that failed has the error that its compute, or the
check of its parameters, comes to. -/
structure Consistent (e : Engine) (n : Node) : Prop where
  clean : n.state = .clean → ∃ stamp, ∀ t, ∃ outputs,
    e.graph.outcome? e.files n t = some (.ok outputs) ∧ ∀ p,
      Option.Rel (Value.Match (Image.Renewed stamp t)) (n.outputs.get? p)
        ((outputsByPort n outputs).get? p)
  error : n.state = .error → ∃ x, n.lastError = some x ∧
    ∀ t, e.graph.outcome? e.files n t = some (.error x)
  waiting : n.state = .waiting → ∃ p ∈ n.sinks, p.isOptional = false ∧ e.graph.inputAt? p = none
  computing : ∀ k, n.state = .computing k → k = n.generation ∧
    (∃ j ∈ e.jobs, j.node = n.id ∧ j.generation = k) ∧
    ∀ j ∈ e.jobs, j.node = n.id → j.generation = k → e.Holds n j
  dirty : n.state = .dirty → ∃ a m, TransGen e.graph.Feeds a n.id ∧ e.graph.node? a = some m ∧
    m.state.isPending = true

/-- Another stamp makes no difference but for the revisions of images that are made. -/
theorem outcome?_renewed {g : Graph} {files : FileStore} {n : Node} (hn : n.OfPalette P) {s : Nat}
    {o : Outcome} (h : g.outcome? files n s = some o) (t : Nat) : ∃ o',
      g.outcome? files n t = some o' ∧ Outcome.Match (Image.Renewed s t) True o o' := by
  unfold Graph.outcome? at h ⊢
  split at h
  · cases h
  · next inputs _ =>
    split at h
    · next x _ =>
      cases h
      exact ⟨_, rfl, .error fun _ => rfl⟩
    · cases h
      have := (P.pure _ hn.variant).renewed (c := n.context inputs s files)
        (d := n.context inputs t files) ⟨rfl, rfl⟩ ⟨rfl, rfl⟩ (.of_eq (fun _ => rfl) rfl rfl rfl)
      exact ⟨_, rfl, this.of_alike rfl⟩

theorem Settled.consistent {n : Node} (h : e.Settled [] n) (hn : n.OfPalette P)
    (hid : e.graph.node? n.id = some n) (hq : e.graph.Quiet) : e.Consistent n where
  clean hs := by
    obtain ⟨stamp, outputs, ho, he⟩ := h.clean hs
    refine ⟨stamp, fun t => ?_⟩
    obtain ⟨o', ho', hm⟩ := outcome?_renewed hn ho t
    cases hm with
    | ok hm => exact ⟨_, ho', fun p => he ▸ outputsByPort_rel n hm p⟩
  error hs := by
    obtain ⟨stamp, x, ho, he⟩ := h.error hs
    refine ⟨x, he, fun t => ?_⟩
    obtain ⟨o', ho', hm⟩ := outcome?_renewed hn ho t
    cases hm with
    | error hm => rw [ho', hm trivial]
  waiting := h.waiting
  computing := h.computing
  dirty hs := by
    by_contra hno
    refine hq n.id ⟨⟨n, hid, hs⟩, fun a m ha hm => ?_⟩
    by_contra hp
    exact hno ⟨a, m, ha, hm, by simpa using hp⟩

/-- **Between actions every node agrees with what it sees**: whatever is done to an engine, in
whatever order and batches jobs deliver, with the cache or without it. -/
theorem consistent_run (P : Palette) (options : EngineOptions) (files : FileStore)
    (as : List Action) (ha : (new options files).Admissible as)
    (hb : ∀ n ∈ (new options files).insertions as, n.Built P)
    (hu : (((new options files).insertions as).map (·.id)).Nodup) :
    ∀ id n, ((new options files).run as).1.graph.node? id = some n →
      ((new options files).run as).1.Consistent n := by
  intro id n hn
  have h₀ := atRest_new options files
  have hrest := h₀.run as ha
  obtain ⟨hg, hup⟩ := upheld_new P options files
  obtain ⟨seen, hgen, hup⟩ := upheld_run h₀ hg hup as ha hb hu
  obtain rfl := hrest.sound.id_eq hn
  exact (hup.settled _ n hn).consistent (hgen.nodes _ n hn).1 hn hrest.quiet

namespace Preview

/-- No file is there. -/
def noFiles : FileStore := ⟨fun _ => .error FileStore.notFound, fun _ => none⟩

def source : Node := (Node.new Builtin.imageSource 4).withParameter "path" (.text "a.png")

/-- One of two previews is connected to a picture that is being read. -/
def connected : List Action :=
  [.addVariant Builtin.number, .addVariant Builtin.imageOutput, .addVariant Builtin.imageOutput,
   .mint, .edit (.add source),
   .edit (.connectNamed ⟨.mint 4 0⟩ "image" ⟨.mint 3 0⟩ "image")]

end Preview

open Preview

/-- Nodes of four states agree with what they see. -/
theorem consistent_run_connected :
    ((new .standard noFiles).run connected).1.graph.nodeList.map (·.state) =
      [.clean, .waiting, .dirty, .computing 1] ∧
    ∀ id n, ((new .standard noFiles).run connected).1.graph.node? id = some n →
      ((new .standard noFiles).run connected).1.Consistent n := by
  have ids : ((new .standard noFiles).insertions connected).map (·.id) =
      [⟨.mint 0 0⟩, ⟨.mint 2 0⟩, ⟨.mint 3 0⟩, ⟨.mint 4 0⟩] := by cbv
  refine ⟨by cbv, consistent_run .builtin .standard noFiles connected ?_ ?_ (by rw [ids]; decide)⟩
  · refine ⟨trivial, trivial, trivial, trivial, ⟨?_, fun n hn => ?_⟩, ⟨trivial, ?_⟩, trivial⟩
    · exact (Node.new_wellFormed _ 4).withParameter _ _
    · rw [List.mem_singleton.1 hn]
      refine ((Node.new_known _ 4).withParameter _ _).mono ?_
      decide_cbv
    · exact fun _ h => (List.not_mem_nil h).elim
  · have registered : Builtin.number ∈ Registry.builtin.variants.values ∧
        Builtin.imageOutput ∈ Registry.builtin.variants.values ∧
        Builtin.imageSource ∈ Registry.builtin.variants.values := by
      simp [Registry.mem_builtin]
    obtain ⟨hn, ho, hs⟩ := registered
    simp only [connected, insertions, List.forall_mem_append]
    refine ⟨?_, ?_, ?_, ?_, ?_, ?_, ?_⟩
    · exact List.forall_mem_singleton.2 (.new hn _)
    · exact List.forall_mem_singleton.2 (.new ho _)
    · exact List.forall_mem_singleton.2 (.new ho _)
    · exact fun _ h => (List.not_mem_nil h).elim
    · unfold inserted
      split
      · exact List.forall_mem_singleton.2 (.withParameter (.new hs 4) _ _)
      · exact fun _ h => (List.not_mem_nil h).elim
    · exact fun _ h => (List.not_mem_nil h).elim
    · exact fun _ h => (List.not_mem_nil h).elim

end Engine

end PixelFlow
