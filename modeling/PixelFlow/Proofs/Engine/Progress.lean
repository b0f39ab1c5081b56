import PixelFlow.Proofs.Engine.Late

/-!
# No work is stuck

Between actions a dirty node waits for an ancestor that computes, and each compute is a job that has
not delivered. A wave never comes back to a node that it has passed, so every delivery takes one
off the jobs in flight and the nodes that are still ahead, taken together.

* `Graph.Passed`: the node is not dirty, and nothing will make it so; **`Graph.Passed.turn`**.
* `Graph.ahead`: all other nodes; a dispatch takes its node off this list.
* `Engine.Backed`: what computes has a job under way; **`Engine.Backed.run`**.
* `Engine.due`: jobs in flight and nodes ahead; **`Engine.handled_add_due`**.
* **`Engine.neverStuck_run`**: after any run, deliveries lead to rest, and soon.
-/

namespace PixelFlow

open Relation Wave

namespace Graph

variable {g g' : Graph} {id j : NodeId} {n : Node}

/-! ## What a wave has passed -/

/-- **The node is not dirty and no ancestor of it has work left**, so that no wave comes back. -/
def Passed (g : Graph) (id : NodeId) : Prop :=
  (∀ n, g.node? id = some n → n.state ≠ .dirty) ∧
    ∀ a n, TransGen g.Feeds a id → g.node? a = some n → n.state.isPending = false

/-- The nodes that a wave may still come to. -/
def ahead (g : Graph) : List NodeId :=
  g.nodeIds.filter fun id => (g.node? id).any (·.state == .dirty) || g.hasPendingAncestor id

theorem mem_ahead : id ∈ g.ahead ↔ id ∈ g.nodeIds ∧ ¬ g.Passed id := by
  rw [ahead, List.mem_filter, Bool.or_eq_true, hasPendingAncestor_iff, Option.any_eq_true]
  refine and_congr_right fun _ => ?_
  rw [Passed, not_and_or]
  push Not
  simp only [beq_iff_eq, Bool.not_eq_false]

theorem nodup_ahead (g : Graph) : g.ahead.Nodup := (Table.nodup_keys g.nodes).filter _

theorem length_ahead_le (g : Graph) : g.ahead.length ≤ g.nodes.size := by
  rw [← Table.length_keys]
  exact List.length_filter_le ..

/-- A turn leaves alone all nodes that it neither is about nor spreads to. -/
theorem node?_turn_of_not (hg : g.Sound) (f : Node → Node) (spreads : Bool) (hj : id ≠ j)
    (hf : ¬ g.Feeds id j) : (g.turn id f spreads).node? j = g.node? j := by
  rw [node?_turn hg, if_neg hj, if_neg fun h => hf h.2]

/-- **What has been passed stays so when a node that had work left takes its turn.** -/
theorem Passed.turn (h : g.Passed j) (hg : g.Sound) (hn : g.node? id = some n)
    (hp : n.state.isPending = true) {f : Node → Node} (hf : ∀ m, (f m).bare = m.bare)
    (hd : ∀ m, (f m).state ≠ .dirty) (spreads : Bool) : (g.turn id f spreads).Passed j := by
  -- A node with work left is no ancestor of one that has been passed.
  have notAbove : ¬ TransGen g.Feeds id j := fun ha => by
    rw [h.2 id n ha hn] at hp
    cases hp
  have feeds : (g.turn id f spreads).Feeds = g.Feeds := feeds_of_bare (bare_turn g id hf spreads)
  refine ⟨fun m hm => ?_, fun a m ha hm => ?_⟩
  · by_cases hj : id = j
    · subst hj
      rw [node?_turn hg, if_pos rfl] at hm
      obtain ⟨m', _, rfl⟩ := Option.map_eq_some_iff.1 hm
      exact hd m'
    · rw [node?_turn_of_not hg f spreads hj fun e => notAbove (.single e)] at hm
      exact h.1 m hm
  · rw [feeds] at ha
    have hne : id ≠ a := by
      rintro rfl
      exact notAbove ha
    rw [node?_turn_of_not hg f spreads hne fun e => notAbove (.head e ha)] at hm
    exact h.2 a m ha hm

/-- **A node that was ready has been passed after its turn.** -/
theorem Ready.passed (h : g.Ready id) (hg : g.Sound) {f : Node → Node}
    (hf : ∀ m, (f m).bare = m.bare) (hd : ∀ m, (f m).state ≠ .dirty) (spreads : Bool) :
    (g.turn id f spreads).Passed id := by
  refine ⟨fun m hm => ?_, fun a m ha hm => ?_⟩
  · rw [node?_turn hg, if_pos rfl] at hm
    obtain ⟨m', _, rfl⟩ := Option.map_eq_some_iff.1 hm
    exact hd m'
  · rw [feeds_of_bare (bare_turn g id hf spreads)] at ha
    have hne : id ≠ a := by
      rintro rfl
      exact hg.acyclic id ha
    rw [node?_turn_of_not hg f spreads hne fun e => hg.acyclic id (.head e ha)] at hm
    exact h.2 a m ha hm

theorem Ready.not_passed (h : g.Ready id) : ¬ g.Passed id :=
  let ⟨n, hn, hd⟩ := h.1
  fun hp => hp.1 n hn hd

/-! ## What is ahead -/

theorem ahead_subset (hb : g'.bare = g.bare) (h : ∀ j, g.Passed j → g'.Passed j) :
    g'.ahead ⊆ g.ahead := by
  intro j hj
  obtain ⟨hm, hj⟩ := mem_ahead.1 hj
  exact mem_ahead.2 ⟨nodeIds_of_bare hb ▸ hm, fun hp => hj (h j hp)⟩

theorem length_ahead_mono (hb : g'.bare = g.bare) (h : ∀ j, g.Passed j → g'.Passed j) :
    g'.ahead.length ≤ g.ahead.length :=
  (List.subperm_of_subset (nodup_ahead g') (ahead_subset hb h)).length_le

/-- One node fewer is ahead if one has been passed that was not. -/
theorem length_ahead_lt (hb : g'.bare = g.bare) (h : ∀ j, g.Passed j → g'.Passed j)
    (hm : id ∈ g.nodeIds) (ho : ¬ g.Passed id) (hp : g'.Passed id) :
    g'.ahead.length < g.ahead.length := by
  have nodup : (id :: g'.ahead).Nodup :=
    List.nodup_cons.2 ⟨fun hi => (mem_ahead.1 hi).2 hp, nodup_ahead g'⟩
  have subset : id :: g'.ahead ⊆ g.ahead :=
    List.cons_subset.2 ⟨mem_ahead.2 ⟨hm, ho⟩, ahead_subset hb h⟩
  exact (List.subperm_of_subset nodup subset).length_le

end Graph

namespace Wave

variable {w w' : Wave} {id : NodeId} {n : Node} {c : Completion}

/-! ## Turns of a wave -/

/-- A dispatch leaves what was passed behind, and passes its node. -/
theorem Dispatched.passed (h : Dispatched w id n w') (hg : w.engine.graph.Sound)
    (hr : w.engine.graph.Ready id) :
    (∀ j, w.engine.graph.Passed j → w'.engine.graph.Passed j) ∧ w'.engine.graph.Passed id := by
  obtain ⟨f, spreads, e, hf, hd⟩ := h.turns
  obtain ⟨m, hm, hs⟩ := hr.1
  rw [e]
  exact ⟨fun j hj => hj.turn hg hm (by rw [hs]; rfl) hf hd spreads, hr.passed hg hf hd spreads⟩

/-- A delivery leaves what was passed behind. -/
theorem Accepted.passed (h : Accepted w c w') (hg : w.engine.graph.Sound) {j : NodeId}
    (hj : w.engine.graph.Passed j) : w'.engine.graph.Passed j := by
  obtain ⟨cache, e, _⟩ := w.received_eq c
  cases h with
  | applied hc hn =>
    obtain ⟨m, hm, _, hs⟩ := isCurrent_iff.1 hc
    rw [e]
    exact hj.turn hg hm (by rw [hs]; rfl) (fun m => m.bare_store _) (fun m => m.not_dirty_store _) _
  | dropped =>
    rw [e]
    exact hj

end Wave

namespace Engine

variable {rest rest' : List Job} {e e' : Engine} {id : NodeId} {n : Node}

/-! ## Computes have jobs -/

/-- **What computes is at the generation that it computes, and a job of this generation is under
way.** The jobs of a batch that has begun are counted in. -/
def Backed (rest : List Job) (e : Engine) : Prop :=
  ∀ id n k, e.graph.node? id = some n → n.state = .computing k →
    n.generation = k ∧ ∃ j ∈ rest ++ e.jobs, j.node = id ∧ j.generation = k

theorem Backed.turn (h : e.Backed rest) (hg : e.graph.Sound) (hn : e.graph.node? id = some n)
    (f : Node → Node) (spreads : Bool) (hgr : e'.graph = e.graph.turn id f spreads)
    (hj : ∀ j ∈ rest ++ e.jobs, j.node ≠ id → j ∈ rest' ++ e'.jobs)
    (hs : ∀ k, (f n).state = .computing k → (f n).generation = k ∧
      ∃ j ∈ rest' ++ e'.jobs, j.node = id ∧ j.generation = k) : e'.Backed rest' := by
  intro a m k hm hk
  rw [hgr, Graph.node?_turn hg] at hm
  split at hm
  · next ha =>
    subst ha
    rw [hn] at hm
    cases hm
    exact hs k hk
  · next ha =>
    split at hm
    · obtain ⟨_, _, rfl⟩ := Option.map_eq_some_iff.1 hm
      cases hk
    · obtain ⟨hgen, j, hjm, rfl, hjk⟩ := h a m k hm hk
      exact ⟨hgen, j, hj j hjm (Ne.symm ha), rfl, hjk⟩

end Engine

namespace Wave

open Engine

variable {rest : List Job} {w w' : Wave} {id : NodeId} {n : Node}

theorem Dispatched.backed (h : Dispatched w id n w') (hg : w.engine.graph.Sound)
    (hn : w.engine.graph.node? id = some n) (hb : w.engine.Backed rest) :
    w'.engine.Backed rest := by
  have stored : ∀ (m : Node) (o : Outcome) (k : Nat), (m.store o).state = .computing k → False :=
    fun m o k hk => Node.not_computing_store m o k hk
  cases h with
  | waits =>
    exact hb.turn hg hn (·.markWaiting) false rfl (fun _ h _ => h) fun k hk => by cases hk
  | @refused _ x =>
    exact hb.turn hg hn (·.store (.error x)) false rfl (fun _ h _ => h)
      fun k hk => (stored _ _ k hk).elim
  | @inline _ o =>
    exact hb.turn hg hn (·.beginCompute.store o) o.succeeds rfl (fun _ h _ => h)
      fun k hk => (stored _ _ k hk).elim
  | @remembered _ _ outputs =>
    exact hb.turn hg hn (·.store (.ok outputs)) true rfl (fun _ h _ => h)
      fun k hk => (stored _ _ k hk).elim
  | @submitted inputs cache =>
    have mem : ∀ j, j ∈ rest ++ (w.enlist (w.newJob n inputs) cache).engine.jobs ↔
        j ∈ rest ++ w.engine.jobs ∨ j = w.newJob n inputs := fun j => by
      simp [enlist, or_assoc]
    refine hb.turn hg hn (·.beginCompute) false rfl (fun j hj _ => (mem j).2 (.inl hj))
      fun k hk => ?_
    obtain rfl : n.generation + 1 = k := NodeState.computing.inj hk
    exact ⟨rfl, w.newJob n inputs, (mem _).2 (.inr rfl), hg.id_eq hn, rfl⟩

theorem Accepted.backed {j : Job} (h : Accepted w (j.complete w.engine.files) w')
    (hg : w.engine.graph.Sound) (hb : w.engine.Backed (j :: rest)) : w'.engine.Backed rest := by
  obtain ⟨cache, e, _⟩ := w.received_eq (j.complete w.engine.files)
  have mem : ∀ {k}, k ∈ j :: rest ++ w.engine.jobs → k = j ∨ k ∈ rest ++ w.engine.jobs :=
    fun h => List.mem_cons.1 h
  cases h with
  | applied hc hn =>
    rw [e]
    refine hb.turn hg hn _ _ rfl (fun k hk hne => (mem hk).resolve_left ?_)
      fun k hk => (Node.not_computing_store _ _ k hk).elim
    rintro rfl
    exact hne rfl
  | dropped hc =>
    rw [e]
    intro id n k hn hk
    obtain ⟨hgen, i, hi, hid, hik⟩ := hb id n k hn hk
    refine ⟨hgen, i, (mem hi).resolve_left ?_, hid, hik⟩
    -- The job that is dropped is none that a node awaits.
    rintro rfl
    subst hid hik
    have : w.isCurrent (i.complete w.engine.files) = true := isCurrent_iff.2 ⟨n, hn, hgen, hk⟩
    rw [hc] at this
    cases this

theorem backed_schedule (hg : w.engine.graph.Sound) (hb : w.engine.Backed rest) :
    w.schedule.engine.Backed rest :=
  schedule_induction (P := fun v => v.engine.Backed rest) hg hb
    fun _ hv _ hn hd h => hd.backed hv hn h

theorem backed_collect {taken : List Job} (hg : w.engine.graph.Sound)
    (hb : w.engine.Backed taken) : (collect w taken).engine.Backed [] :=
  collect_rest (P := fun rest v => v.engine.Backed rest) hg hb fun hv ha h => ha.backed hv h

end Wave

namespace Engine

variable {e : Engine}

theorem Backed.batch (h : e.Backed []) {taken left : List Job} (hp : e.jobs.Perm (taken ++ left)) :
    (e.batch left).engine.Backed taken := fun id n k hn hk => by
  obtain ⟨hgen, j, hj, h⟩ := h id n k hn hk
  exact ⟨hgen, j, hp.mem_iff.1 hj, h⟩

/-- Nodes that an edit touches are dirty, and the others keep their jobs. -/
theorem Backed.revises (h : e.Backed []) {new : List Node} {g' : Graph} {touched : List NodeId}
    (hr : e.graph.Revises new g' touched) (stamp : Nat) :
    ({ e with graph := g', stamp := stamp } : Engine).Backed [] := by
  intro id n k hn hk
  by_cases ht : id ∈ touched
  · obtain ⟨m, hm, hd, _⟩ := hr.dirty ht
    obtain rfl := Option.some.inj (hn.symm.trans hm)
    rw [hd] at hk
    cases hk
  · exact h id n k (hr.kept ht hn) hk

theorem Backed.act (h : e.AtRest) (hb : e.Backed []) {a : Action} (ha : a.Admissible e) :
    (e.act a).1.Backed [] := by
  have hs := act_spec h.sound h.known ha
  generalize e.act a = x at hs ⊢
  cases hs with
  | idle hs =>
    intro id n k hn hk
    rw [hs.graph] at hn
    rw [hs.jobs]
    exact hb id n k hn hk
  | @edited change stamp r ha hn hst hr =>
    have hv := h.sound.perform ha hr
    have backed : (({ e with stamp := stamp } : Engine).opened r).engine.Backed [] :=
      hb.revises hv stamp
    exact backed_schedule hv.sound backed
  | @delivered _ taken left _ ht =>
    have hc := bare_collect (w := e.batch left) h.sound taken
    have backed := hb.batch (takeJobs_perm ht)
    exact backed_schedule (h.sound.of_bare hc) (backed_collect (w := e.batch left) h.sound backed)

/-- **After every run, what computes has a job under way.** -/
theorem Backed.run (h : e.AtRest) (hb : e.Backed []) (as : List Action) (ha : e.Admissible as) :
    (e.run as).1.Backed [] := by
  induction as generalizing e with
  | nil => exact hb
  | cons a as ih => exact ih (h.act ha.1) (hb.act h ha.1) ha.2

/-! ## Rest -/

/-- **At rest, an ancestor of a dirty node computes.** -/
theorem AtRest.exists_computing (h : e.AtRest) {id : NodeId} {n : Node}
    (hn : e.graph.node? id = some n) (hd : n.state = .dirty) : ∃ a m k,
      TransGen e.graph.Feeds a id ∧ e.graph.node? a = some m ∧ m.state = .computing k := by
  induction id using h.sound.wellFounded.transGen.induction generalizing n with
  | _ id ih =>
    -- The node is not ready, so an ancestor has work left: it computes, or the same holds of it.
    have pending : ∃ a m, TransGen e.graph.Feeds a id ∧ e.graph.node? a = some m ∧
        m.state.isPending = true := by
      by_contra hno
      refine h.quiet id ⟨⟨n, hn, hd⟩, fun a m ha hm => ?_⟩
      by_contra hp
      exact hno ⟨a, m, ha, hm, by simpa using hp⟩
    obtain ⟨a, m, ha, hm, hp⟩ := pending
    cases hs : m.state with
    | computing k => exact ⟨a, m, k, ha, hm, hs⟩
    | dirty =>
      obtain ⟨b, m', k, hb, hm', hk⟩ := ih a ha hm hs
      exact ⟨b, m', k, hb.trans ha, hm', hk⟩
    | clean | waiting | error =>
      rw [hs] at hp
      cases hp

theorem isIdle_iff : e.isIdle = true ↔
    e.inFlight = 0 ∧ ∀ id n, e.graph.node? id = some n → n.state.isPending = false := by
  rw [isIdle, Bool.and_eq_true, beq_iff_eq, List.all_eq_true]
  refine and_congr_right fun _ => ⟨fun h id n hn => ?_, fun h n hn => ?_⟩
  · simpa [NodeState.isSettled] using h n (Table.mem_values_of_get? hn)
  · obtain ⟨⟨id, n⟩, hm, rfl⟩ := List.mem_map.1 hn
    simpa [NodeState.isSettled] using h id n ((Table.get?_eq_some_iff ..).2 hm)

/-- **At rest, nothing is left to do iff no job is in flight.** -/
theorem AtRest.isIdle_iff_inFlight (h : e.AtRest) (hc : e.Counted) (hb : e.Backed []) :
    e.isIdle = true ↔ e.inFlight = 0 := by
  rw [isIdle_iff]
  refine and_iff_left_of_imp fun hz id n hn => ?_
  have computing : ∀ id n k, e.graph.node? id = some n → n.state ≠ .computing k := by
    intro id n k hn hk
    obtain ⟨_, j, hj, _⟩ := hb id n k hn hk
    rw [List.eq_nil_of_length_eq_zero (hc.symm.trans hz)] at hj
    cases hj
  cases hs : n.state with
  | computing k => exact (computing id n k hn hs).elim
  | dirty =>
    obtain ⟨a, m, k, _, hm, hk⟩ := h.exists_computing hn hs
    exact (computing a m k hm hk).elim
  | clean | waiting | error => rfl

/-! ## Deliveries that are to come -/

/-- The jobs in flight and the nodes ahead: no more deliveries are to come. -/
def due (e : Engine) : Nat := e.inFlight + e.graph.ahead.length

/-- The number of completions that are handled when jobs are delivered in batches. -/
def handled (e : Engine) : List (List Nat) → Nat
  | [] => 0
  | numbers :: batches =>
    (takeJobs numbers e.jobs).1.length + (e.deliver numbers).1.handled batches

end Engine

namespace Wave

open Engine

variable {w w' : Wave} {id : NodeId} {n : Node} {c : Completion}

/-- A dispatch begins one job at most and takes one node off those ahead. -/
theorem Dispatched.due_le (h : Dispatched w id n w') (hg : w.engine.graph.Sound)
    (hn : w.engine.graph.node? id = some n) (hr : w.engine.graph.Ready id) :
    w'.engine.due ≤ w.engine.due := by
  obtain ⟨keep, hp⟩ := h.passed hg hr
  have hlt := Graph.length_ahead_lt h.bare keep (Graph.mem_nodeIds.2 ⟨n, hn⟩) hr.not_passed hp
  have hi : w'.engine.inFlight ≤ w.engine.inFlight + 1 := by
    cases h with
    | submitted => exact Nat.le_refl _
    | _ => exact Nat.le_succ _
  unfold due
  omega

theorem due_schedule (hg : w.engine.graph.Sound) : w.schedule.engine.due ≤ w.engine.due :=
  schedule_induction (P := fun v => v.engine.due ≤ w.engine.due) hg (Nat.le_refl _)
    fun _ hv hr hn hd h => (hd.due_le hv hn hr).trans h

/-- Every delivery of a batch counts. -/
theorem due_collect {taken : List Job} (hg : w.engine.graph.Sound)
    (hl : taken.length ≤ w.engine.inFlight) :
    (collect w taken).engine.due + taken.length ≤ w.engine.due := by
  induction taken generalizing w with
  | nil => exact Nat.le_refl _
  | cons j taken ih =>
    have ha := accept_spec hg (j.complete w.engine.files)
    have hi := ha.inFlight.1
    have hlen := Graph.length_ahead_mono ha.bare fun _ => ha.passed hg
    rw [List.length_cons] at hl ⊢
    have hd := ih (hg.of_bare ha.bare) (by omega)
    have : (w.accept (j.complete w.engine.files)).engine.due + 1 ≤ w.engine.due := by
      unfold due
      omega
    show (collect (w.accept (j.complete w.engine.files)) taken).engine.due + _ ≤ _
    omega

end Wave

/-- The action brings no node that was prepared elsewhere. -/
def Action.isPlain : Action → Bool
  | .edit (.add _) | .edit (.addFresh _) => false
  | _ => true

namespace Engine

variable {e : Engine}

theorem due_deliver (h : e.AtRest) (hc : e.Counted) (numbers : List Nat) :
    (e.deliver numbers).1.due + (takeJobs numbers e.jobs).1.length ≤ e.due := by
  obtain ⟨taken, left, ht⟩ : ∃ taken left, takeJobs numbers e.jobs = (taken, left) := ⟨_, _, rfl⟩
  have hl := (takeJobs_perm ht).length_eq
  rw [List.length_append] at hl
  rw [deliver, ht]
  dsimp only
  split
  · next hn =>
    rw [List.isEmpty_iff.1 hn]
    exact Nat.le_refl _
  · have hcount : taken.length ≤ (e.batch left).engine.inFlight := by
      show taken.length ≤ e.inFlight
      rw [hc]
      omega
    have hcol := due_collect (w := e.batch left) h.sound hcount
    have hb := bare_collect (w := e.batch left) h.sound taken
    have hsch := due_schedule (h.sound.of_bare hb)
    exact (Nat.add_le_add_right hsch _).trans hcol

theorem admissible_of_isPlain {a : Action} (h : a.isPlain = true) : a.Admissible e := by
  unfold Action.isPlain at h
  unfold Action.Admissible
  split at h
  · cases h
  · cases h
  · next hadd hfresh =>
    split
    · next change =>
      cases change with
      | add n => exact (hadd n rfl).elim
      | addFresh n => exact (hfresh n rfl).elim
      | _ => exact ⟨trivial, fun _ h => nomatch h⟩
    · exact trivial

/-- Such actions may always come. -/
theorem admissible_of_all_isPlain {as : List Action} (h : as.all (·.isPlain) = true) :
    e.Admissible as := by
  induction as generalizing e with
  | nil => exact trivial
  | cons a as ih =>
    rw [List.all_cons, Bool.and_eq_true] at h
    exact ⟨admissible_of_isPlain h.1, ih h.2⟩

theorem admissible_deliver (e : Engine) (batches : List (List Nat)) :
    e.Admissible (batches.map .deliver) :=
  admissible_of_all_isPlain (List.all_eq_true.2 fun a ha => by
    obtain ⟨_, _, rfl⟩ := List.mem_map.1 ha
    rfl)

/-- **What is handled comes off what was due.** -/
theorem handled_add_due (h : e.AtRest) (hc : e.Counted) (batches : List (List Nat)) :
    e.handled batches + (e.run (batches.map .deliver)).1.due ≤ e.due := by
  induction batches generalizing e with
  | nil => exact (Nat.zero_add _).le
  | cons numbers batches ih =>
    have hd := due_deliver h hc numbers
    have := ih (e := (e.deliver numbers).1) (h.act (a := .deliver numbers) trivial)
      (hc.act h (a := .deliver numbers) trivial)
    show (takeJobs numbers e.jobs).1.length + _ + ((e.deliver numbers).1.run _).1.due ≤ _
    omega

/-- A job that is under way can be delivered on its own. -/
theorem handled_singleton {j : Job} (hj : j ∈ e.jobs) : e.handled [[j.number]] = 1 := by
  rw [handled, handled, takeJobs]
  split
  · next hf => exact (List.find?_eq_none.1 hf j hj (by simp)).elim
  · rfl

theorem drain_fst_le (fuel : Nat) (e : Engine) : (drain fuel e).1 ≤ fuel := by
  induction fuel generalizing e with
  | zero => exact Nat.le_refl _
  | succ fuel ih =>
    rw [drain]
    split
    · exact Nat.zero_le _
    · exact Nat.succ_le_succ (ih _)

/-- Deliveries one after the other lead to rest. -/
theorem isIdle_drain {fuel : Nat} (h : e.AtRest) (hc : e.Counted) (hb : e.Backed [])
    (hf : e.due ≤ fuel) : (drain fuel e).2.1.isIdle = true := by
  induction fuel generalizing e with
  | zero =>
    refine (h.isIdle_iff_inFlight hc hb).2 ?_
    unfold due at hf
    omega
  | succ fuel ih =>
    rw [drain]
    split
    · next hj =>
      refine (h.isIdle_iff_inFlight hc hb).2 ?_
      rw [hc, hj]
      rfl
    · next j _ hj =>
      have hd := due_deliver h hc [j.number]
      have hone : (takeJobs [j.number] e.jobs).1.length = 1 :=
        handled_singleton (by rw [hj]; exact List.mem_cons_self ..)
      exact ih (h.act (a := .deliver [j.number]) trivial)
        (hc.act h (a := .deliver [j.number]) trivial)
        (hb.act h (a := .deliver [j.number]) trivial) (by omega)

/-- **No work is stuck**, and deliveries lead to rest. -/
structure NeverStuck (e : Engine) : Prop where
  /-- A dirty node has an ancestor that computes. -/
  dirty : ∀ {id n}, e.graph.node? id = some n → n.state = .dirty → ∃ a m k,
    TransGen e.graph.Feeds a id ∧ e.graph.node? a = some m ∧ m.state = .computing k
  /-- A compute has a job of its generation under way. -/
  computing : ∀ {id n k}, e.graph.node? id = some n → n.state = .computing k →
    ∃ j ∈ e.jobs, j.node = id ∧ j.generation = k
  counted : e.inFlight = e.jobs.length
  /-- The count of jobs in flight is positive whenever a job of a batch is delivered. -/
  positive : ∀ {numbers pre j post left}, takeJobs numbers e.jobs = (pre ++ j :: post, left) →
    0 < (e.midway left pre).engine.inFlight
  idle : e.isIdle = true ↔ e.inFlight = 0
  /-- In whatever order and batches jobs deliver, there are not more deliveries than jobs in flight
  and nodes at first, less the jobs in flight at last. -/
  bounded : ∀ batches : List (List Nat), e.handled batches +
    (e.run (batches.map .deliver)).1.inFlight ≤ e.inFlight + e.graph.nodes.size
  /-- So whichever jobs deliver, that many deliveries lead to rest. -/
  settles : ∀ batches : List (List Nat), e.inFlight + e.graph.nodes.size ≤ e.handled batches →
    (e.run (batches.map .deliver)).1.isIdle = true
  /-- Every job under way can be delivered next. -/
  deliverable : ∀ j ∈ e.jobs, e.handled [[j.number]] = 1
  /-- Delivering the oldest job again and again leads to rest. -/
  finishes : e.finish.1 ≤ e.inFlight + e.graph.nodes.size ∧ e.finish.2.1.isIdle = true

theorem handled_add_inFlight_le (h : e.AtRest) (hc : e.Counted) (batches : List (List Nat)) :
    e.handled batches + (e.run (batches.map .deliver)).1.inFlight ≤
      e.inFlight + e.graph.nodes.size := by
  have := handled_add_due h hc batches
  have := Graph.length_ahead_le e.graph
  unfold due at *
  omega

theorem neverStuck (h : e.AtRest) (hc : e.Counted) (hb : e.Backed []) : e.NeverStuck where
  dirty hn hd := h.exists_computing hn hd
  computing hn hk := (hb _ _ _ hn hk).2
  counted := hc
  positive ht := midway_inFlight h hc ht
  idle := h.isIdle_iff_inFlight hc hb
  bounded := handled_add_inFlight_le h hc
  settles batches hle := by
    have ha := admissible_deliver e batches
    refine ((h.run _ ha).isIdle_iff_inFlight (hc.run h _ ha) (hb.run h _ ha)).2 ?_
    have := handled_add_inFlight_le h hc batches
    omega
  deliverable j hj := handled_singleton hj
  finishes := by
    have := Graph.length_ahead_le e.graph
    rw [finish, ← hc]
    refine ⟨drain_fst_le _ e, isIdle_drain h hc hb ?_⟩
    unfold due
    omega

namespace Relay

/-- A background compute that puts out the first of two numbers. -/
def first : Variant where
  metadata :=
    { id := "first"
      name := "First"
      category := .custom
      description := ""
      ports := [.sink "a" .number "", .sink "b" .number "", .source "out" .number ""]
      parameters := []
      execution := .asynchronous
      cacheable := false }
  compute := do Compute.setOutput "out" (.number (← Compute.ask (·.inputNumber "a")))

/-- Two arms of different length lead from the first node to the last. -/
def arms : List Action :=
  [.addVariant Late.echo, .addVariant first, .addVariant first,
   .edit (.connect ⟨.mint 0 1⟩ ⟨.mint 2 1⟩), .edit (.connect ⟨.mint 0 1⟩ ⟨.mint 2 2⟩),
   .edit (.connect ⟨.mint 0 1⟩ ⟨.mint 3 1⟩), .edit (.connect ⟨.mint 2 3⟩ ⟨.mint 3 2⟩)]

theorem states_arms : ((new .standard Late.noFiles).run arms).1.graph.nodeList.map (·.state) =
    [.computing 1, .dirty, .dirty] := by cbv

end Relay

end Engine

end PixelFlow
