import PixelFlow.Proofs.Engine.Life
import PixelFlow.Proofs.Engine.Run

/-!
# Runs seen from one node

Every run of the engine, and every part of it down to a single delivery, is a life of each node:
what the log says about the node, which nodes came in under its name, and which results were stored
on it, are those of a list of deeds that fit.

* `Wave.applied`, **`Engine.applied`**: the results that a batch and a run store, by their tags.
* `Lived`: what happened to a node, in terms of its deeds; `Lived.trans`.
* `Wave.Dispatched.lived`, `Wave.Accepted.lived`, `Graph.Revises.lived`: single steps.
* **`Engine.lived_run`**: every run is a life of each node.
-/

namespace PixelFlow

/-- The tag of a background compute: its node and its generation. -/
abbrev Tag := NodeId × Nat

namespace Wave

/-- The tags of those completions that are stored when jobs are delivered one after the other. -/
def applied (w : Wave) : List Job → List Tag
  | [] => []
  | j :: jobs =>
    let c := j.complete w.engine.files
    (if w.isCurrent c then [(j.node, j.generation)] else []) ++ (w.accept c).applied jobs

end Wave

namespace Engine

/-- The tags of the completions that are stored in one action. -/
def appliedBy (e : Engine) : Action → List Tag
  | .deliver numbers =>
    let (taken, left) := takeJobs numbers e.jobs
    (e.batch left).applied taken
  | _ => []

/-- The tags of the completions that are stored in a run, in order. -/
def applied (e : Engine) : List Action → List Tag
  | [] => []
  | a :: rest => e.appliedBy a ++ (e.act a).1.applied rest

end Engine

/-- The generations of the tags of one node, in order. -/
def generationsOf (id : NodeId) (tags : List Tag) : List Nat :=
  tags.filterMap fun t => if t.1 = id then some t.2 else none

/-- The nodes of one name, in order. -/
def named (id : NodeId) (ns : List Node) : List Node := ns.filter fun n => n.id = id

/-- **What is recorded about a node, which nodes came in under its name, and which results were
stored on it, are those of a list of deeds that fit.** -/
def Lived (id : NodeId) (o : Option Node) (log : List Record) (new : List Node) (tags : List Tag)
    (o' : Option Node) : Prop :=
  ∃ ds, Deed.Valid id o ds ∧ Deed.life o ds = o' ∧ recordsOf id log = Deed.trace id o ds ∧
    named id new = Deed.entered ds ∧ generationsOf id tags = Deed.received ds

section Lived

variable {id : NodeId} {o o' o₁ o₂ : Option Node}

/-- Nothing happens. -/
theorem Lived.refl {log : List Record} (hl : recordsOf id log = []) : Lived id o log [] [] o :=
  ⟨[], trivial, rfl, hl, rfl, rfl⟩

theorem Lived.trans {log log' : List Record} {new new' : List Node} {tags tags' : List Tag}
    (h : Lived id o log new tags o₁) (h' : Lived id o₁ log' new' tags' o₂) :
    Lived id o (log ++ log') (new ++ new') (tags ++ tags') o₂ := by
  obtain ⟨ds, hv, rfl, hl, hn, ht⟩ := h
  obtain ⟨ds', hv', rfl, hl', hn', ht'⟩ := h'
  refine ⟨ds ++ ds', (Deed.valid_append ..).2 ⟨hv, hv'⟩, Deed.life_append .., ?_, ?_, ?_⟩
  · rw [recordsOf_append, hl, hl', Deed.trace_append]
  · rw [named, List.filter_append, Deed.entered_append, ← hn, ← hn']
    rfl
  · rw [generationsOf, List.filterMap_append, Deed.received_append, ← ht, ← ht']
    rfl

/-- Only what the log says about the node matters. -/
theorem Lived.of_records {log log' : List Record} {new : List Node} {tags : List Tag}
    (h : Lived id o log new tags o') (hl : recordsOf id log' = recordsOf id log) :
    Lived id o log' new tags o' := by
  obtain ⟨ds, hv, he, ht, hrest⟩ := h
  exact ⟨ds, hv, he, hl.trans ht, hrest⟩

/-- One deed. -/
theorem Lived.one {d : Deed} {log : List Record} {new : List Node} {tags : List Tag}
    (hf : d.Fits id o) (hl : recordsOf id log = (d.record? id o).toList)
    (hn : named id new = d.entered?.toList) (ht : generationsOf id tags = d.received?.toList) :
    Lived id o log new tags (d.after o) := by
  refine ⟨[d], ⟨hf, trivial⟩, rfl, ?_, ?_, ?_⟩
  · rw [hl, Deed.trace, Deed.trace, List.append_nil]
  · rw [hn]
    cases h : d.entered? <;> simp [Deed.entered, h]
  · rw [ht]
    cases h : d.received? <;> simp [Deed.received, h]

/-- A node that becomes dirty, any number of times, but once at least. -/
theorem Lived.touches (n : Node) (ps : Parameters) (k : Nat) :
    Lived id (some n) (List.replicate (k + 1) (.event (.invalidated id))) [] []
      (some { n with parameters := ps }.markDirty) := by
  have hd : recordsOf id [.event (.invalidated id)] = [.event (.invalidated id)] := by
    simp [recordsOf, Record.subject?, NodeEvent.node]
  have one : ∀ n : Node, Lived id (some n) [.event (.invalidated id)] [] []
      (some { n with parameters := ps }.markDirty) := fun n =>
    Lived.one (d := .touch ps) ⟨n, rfl⟩ hd rfl rfl
  induction k generalizing n with
  | zero => exact one n
  | succ k ih => exact (one n).trans (ih { n with parameters := ps }.markDirty)

end Lived

/-! ## Single steps -/

theorem recordsOf_invalidated (id : NodeId) (l : List NodeId) :
    recordsOf id (l.map fun s => .event (.invalidated s)) =
      List.replicate (l.count id) (.event (.invalidated id)) := by
  induction l with
  | nil => rfl
  | cons a l ih =>
    rw [List.map_cons, recordsOf_cons, ih, List.count_cons]
    by_cases h : a = id
    · subst h
      simp [Record.subject?, NodeEvent.node, List.replicate_succ]
    · simp [Record.subject?, NodeEvent.node, h]

/-- A turn is one deed of its node; the nodes that it feeds are touched if it spreads. -/
theorem Graph.Sound.lived_turn {g : Graph} (hg : g.Sound) {id : NodeId} {n : Node} {f : Node → Node}
    {spreads : Bool} {about : List Record} {tags : List Tag} (d : Deed) (hn : g.node? id = some n)
    (hf : d.Fits id (some n)) (ha : d.after (some n) = some (f n)) (he : d.entered? = none)
    (hr : ∀ j, recordsOf j about = if j = id then (d.record? id (some n)).toList else [])
    (ht : ∀ j, generationsOf j tags = if j = id then d.received?.toList else []) (j : NodeId) :
    Lived j (g.node? j) (about ++
      if spreads then (g.successors id).map fun s => .event (.invalidated s) else []) [] tags
      ((g.turn id f spreads).node? j) := by
  have hs : recordsOf j (if spreads then (g.successors id).map fun s => .event (.invalidated s)
      else []) = if spreads ∧ g.Feeds id j then [.event (.invalidated j)] else [] := by
    cases spreads with
    | false => rfl
    | true =>
      rw [if_pos rfl, recordsOf_invalidated, (g.nodup_successors id).count]
      simp only [mem_successors, true_and]
      split <;> rfl
  rw [node?_turn hg]
  by_cases hj : j = id
  · subst hj
    rw [if_pos rfl, hn, Option.map_some, ← ha]
    refine Lived.one hf ?_ (by rw [he]; rfl) (by rw [ht, if_pos rfl])
    rw [recordsOf_append, hr, hs, if_pos rfl, if_neg fun h => hg.not_feeds_self j h.2,
      List.append_nil]
  · rw [if_neg (Ne.symm hj)]
    have ht' : generationsOf j tags = [] := by rw [ht, if_neg hj]
    have hr' : recordsOf j about = [] := by rw [hr, if_neg hj]
    by_cases h : spreads = true ∧ g.Feeds id j
    · obtain ⟨m, hm⟩ := (hg.feeds_mem h.2).2
      rw [if_pos h, hm]
      refine Lived.one (d := .touch m.parameters) ⟨m, rfl⟩ ?_ rfl ht'
      rw [recordsOf_append, hr', hs, if_pos h]
      rfl
    · rw [if_neg h]
      refine ⟨[], trivial, rfl, ?_, rfl, ht'⟩
      rw [recordsOf_append, hr', hs, if_neg h]
      rfl

/-- An edit lets a node come in, touches nodes, and lets one leave. -/
theorem Graph.Revises.lived {g g' : Graph} {new : List Node} {touched : List NodeId}
    (h : g.Revises new g' touched) (j : NodeId) :
    Lived j (g.node? j) (touched.map fun id => .event (.invalidated id)) new [] (g'.node? j) := by
  have hr := recordsOf_invalidated j touched
  by_cases hj : j ∈ touched
  · obtain ⟨n, hn, _, hc⟩ := h.dirty hj
    rcases h.news with rfl | ⟨m, rfl, rfl, hm⟩
    · obtain ⟨_, m, hm, _⟩ | ⟨m, ps, hm, rfl⟩ := hc
      · cases hm
      · obtain ⟨k, hk⟩ := Nat.exists_eq_succ_of_ne_zero (List.count_pos_iff.2 hj).ne'
        rw [hn, hm]
        refine (Lived.touches m ps k).of_records ?_
        have := recordsOf_invalidated j (List.replicate (k + 1) j)
        rw [List.map_replicate, List.count_replicate_self] at this
        rw [hr, hk, this]
    · obtain rfl := List.mem_singleton.1 hj
      obtain ⟨_, m', hm', _, rfl⟩ | ⟨m', _, hm', _⟩ := hc
      · obtain rfl := List.mem_singleton.1 hm'
        rw [hn, hm]
        refine Lived.one (d := .enter m') ⟨rfl, rfl⟩ ?_ ?_ rfl
        · rw [hr]
          simp [Deed.record?]
        · simp [named, Deed.entered?]
      · rw [hm] at hm'
        cases hm'
  · have hr' : recordsOf j (touched.map fun id => .event (.invalidated id)) = [] := by
      rw [hr, List.count_eq_zero.2 hj]
      rfl
    have hnew : named j new = [] := by
      rcases h.news with rfl | ⟨m, rfl, rfl, hm⟩
      · rfl
      · have : m.id ≠ j := fun e => hj (by simp [e])
        simp [named, this]
    cases hn : g'.node? j with
    | some n =>
      rw [h.kept hj hn]
      exact ⟨[], trivial, rfl, hr', hnew, rfl⟩
    | none =>
      cases hm : g.node? j with
      | none => exact ⟨[], trivial, rfl, hr', hnew, rfl⟩
      | some m => exact Lived.one (d := .leave) ⟨m, rfl⟩ hr' hnew rfl

namespace Wave

variable {w w' : Wave} {id : NodeId} {n : Node} {c : Completion}

/-- What a part of a wave does, seen from one node. -/
def LivedTo (w : Wave) (j : NodeId) (tags : List Tag) (w' : Wave) : Prop :=
  ∃ log, w'.log = w.log ++ log ∧
    Lived j (w.engine.graph.node? j) log [] tags (w'.engine.graph.node? j)

theorem LivedTo.refl (w : Wave) (j : NodeId) : w.LivedTo j [] w := ⟨[], by simp, .refl rfl⟩

theorem LivedTo.trans {w₁ w₂ w₃ : Wave} {j : NodeId} {tags tags' : List Tag}
    (h : w₁.LivedTo j tags w₂) (h' : w₂.LivedTo j tags' w₃) : w₁.LivedTo j (tags ++ tags') w₃ := by
  obtain ⟨log, e, h⟩ := h
  obtain ⟨log', e', h'⟩ := h'
  exact ⟨log ++ log', by rw [e', e, List.append_assoc], h.trans h'⟩

theorem recordsOf_records (hi : n.id = id) (o : Outcome) (j : NodeId) :
    recordsOf j (Outcome.records n o) = if j = id then [Deed.record id n o] else [] := by
  subst hi
  by_cases h : n.id = j
  · cases o <;>
      simp [Outcome.records, Record.subject?, NodeEvent.node, Deed.record, h, recordsOf]
  · cases o <;>
      simp [Outcome.records, Record.subject?, NodeEvent.node, h, Ne.symm h, recordsOf]

/-- **The dispatch of a dirty node is a deed of it.** -/
theorem Dispatched.lived (hg : w.engine.graph.Sound) (hn : w.engine.graph.node? id = some n)
    (hs : n.state = .dirty) (h : Dispatched w id n w') (j : NodeId) : w.LivedTo j [] w' := by
  have hi := hg.id_eq hn
  have none : ∀ j, generationsOf j [] = if j = id then ([] : List Nat) else [] := fun j => by
    split <;> rfl
  have about : ∀ (r : Record) (j : NodeId), r.subject? = some id →
      recordsOf j [r] = if j = id then [r] else [] := fun r j hr => by
    rw [recordsOf_cons, hr]
    by_cases h : id = j
    · simp [h, recordsOf]
    · simp [h, Ne.symm h, recordsOf]
  cases h with
  | waits => exact ⟨_, List.append_assoc .., hg.lived_turn (.wait _) hn ⟨n, rfl⟩ rfl rfl
      (fun j => about _ j rfl) none j⟩
  | @refused _ e => exact ⟨_, List.append_assoc .., hg.lived_turn (.answer false (.error e)) hn
      ⟨n, rfl⟩ rfl rfl (recordsOf_records hi _) none j⟩
  | @inline _ o => exact ⟨_, List.append_assoc .., hg.lived_turn (.answer true o) hn ⟨n, rfl⟩ rfl rfl
      (recordsOf_records hi _) none j⟩
  | @remembered _ _ o => exact ⟨_, List.append_assoc .., hg.lived_turn (.answer false (.ok o)) hn
      ⟨n, rfl⟩ rfl rfl (recordsOf_records hi (.ok o)) none j⟩
  | submitted => exact ⟨_, List.append_assoc .., hg.lived_turn .start hn ⟨n, rfl, hs⟩ rfl rfl
      (fun j => about _ j rfl) none j⟩

/-- **A delivery is the receipt of a result, or nothing.** -/
theorem Accepted.lived (hg : w.engine.graph.Sound) (h : Accepted w c w') (j : NodeId) :
    w.LivedTo j (if w.isCurrent c then [(c.node, c.generation)] else []) w' := by
  obtain ⟨cache, e, _⟩ := w.received_eq c
  cases h with
  | @applied n hc hn =>
    obtain ⟨m, hm, hgen, hst⟩ := isCurrent_iff.1 hc
    rw [hn] at hm
    cases hm
    have ht : ∀ j, generationsOf j [(c.node, c.generation)] =
        if j = c.node then (Deed.receive c.generation c.outcome).received?.toList else [] := by
      intro j
      by_cases h : c.node = j
      · simp [generationsOf, h, Deed.received?]
      · simp [generationsOf, h, Ne.symm h]
    rw [if_pos hc, e]
    exact ⟨_, List.append_assoc .., hg.lived_turn (.receive c.generation c.outcome) hn
      ⟨n, rfl, hgen, hst⟩ rfl rfl (recordsOf_records (hg.id_eq hn) c.outcome) ht j⟩
  | dropped hc =>
    rw [hc, e]
    exact ⟨[.note (.discarded c.node c.generation)], rfl, .refl rfl⟩

theorem lived_schedule (hg : w.engine.graph.Sound) (j : NodeId) : w.LivedTo j [] w.schedule :=
  schedule_induction (P := fun v => w.LivedTo j [] v) hg (.refl w j)
    fun _ hs hr hn hd h => h.trans (hd.lived hs hn (hr.dirty hn) j)

theorem lived_collect (hg : w.engine.graph.Sound) (jobs : List Job) (j : NodeId) :
    w.LivedTo j (w.applied jobs) (Engine.collect w jobs) := by
  induction jobs generalizing w with
  | nil => exact .refl w j
  | cons job jobs ih =>
    have ha := accept_spec hg (job.complete w.engine.files)
    exact (ha.lived hg j).trans (ih (hg.of_bare ha.bare))

end Wave

namespace Engine

open Wave

/-! ## Whole runs -/

theorem log_settle (w : Wave) : w.settle.2.log = w.schedule.log := rfl

/-- **An action is a life of each node.** -/
theorem lived_act {e : Engine} (h : e.AtRest) {a : Action} (ha : a.Admissible e) (j : NodeId) :
    Lived j (e.graph.node? j) (e.act a).2.log (e.inserted a) (e.appliedBy a)
      ((e.act a).1.graph.node? j) := by
  have hs := act_spec h.sound h.known ha
  generalize e.act a = x at hs ⊢
  cases hs with
  | idle hs hi hd =>
    have ht : e.appliedBy a = [] := by
      cases a with
      | deliver numbers =>
        have := hd numbers rfl
        rw [appliedBy]
        obtain ⟨taken, left, ht⟩ : ∃ taken left, takeJobs numbers e.jobs = (taken, left) :=
          ⟨_, _, rfl⟩
        rw [ht] at this ⊢
        cases this
        rfl
      | _ => rfl
    rw [hi, ht, hs.graph]
    exact .refl rfl
  | @edited change stamp r ha' _ _ hr hi hd =>
    have hv := h.sound.perform ha' hr
    have ht : e.appliedBy a = [] := by
      cases a with
      | deliver numbers => exact (hd numbers rfl).elim
      | _ => rfl
    obtain ⟨log, hlog, hl⟩ := lived_schedule (w := { e with stamp := stamp }.opened r) hv.sound j
    have hn : recordsOf j (r.notes.map .note) = [] := by
      refine List.filter_eq_nil_iff.2 fun x hx => ?_
      obtain ⟨note, hm, rfl⟩ := List.mem_map.1 hx
      cases note with
      | dispatched id k => exact (Graph.perform_notes hr hm).elim
      | _ => simp [Record.subject?]
    have ho : recordsOf j (r.notes.map .note ++ r.touched.map fun id => .event (.invalidated id)) =
        recordsOf j (r.touched.map fun id => .event (.invalidated id)) := by
      rw [recordsOf_append, hn, List.nil_append]
    have := ((hv.lived j).of_records ho).trans hl
    rw [List.append_nil] at this
    rw [hi, ht, log_settle, hlog]
    exact this
  | @delivered numbers taken left ha' ht =>
    subst ha'
    obtain ⟨log, hlog, hl⟩ := lived_collect (w := e.batch left) h.sound taken j
    obtain ⟨log', hlog', hl'⟩ := lived_schedule
      (w := collect (e.batch left) taken)
      (h.sound.of_bare (bare_collect (w := e.batch left) h.sound taken)) j
    have := hl.trans hl'
    simp only [List.append_nil] at this
    rw [log_settle, hlog', hlog, appliedBy, ht]
    exact this

/-- **A run is a life of each node.** -/
theorem lived_run {e : Engine} (h : e.AtRest) (as : List Action) (ha : e.Admissible as)
    (j : NodeId) : Lived j (e.graph.node? j) (e.run as).2.log (e.insertions as) (e.applied as)
      ((e.run as).1.graph.node? j) := by
  induction as generalizing e with
  | nil => exact .refl rfl
  | cons a as ih => exact (lived_act h ha.1 j).trans (ih (h.act ha.1) ha.2)

end Engine

end PixelFlow
