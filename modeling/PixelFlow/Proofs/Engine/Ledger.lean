import PixelFlow.Proofs.Cache.Run
import PixelFlow.Proofs.Engine.Sweep
import PixelFlow.Proofs.Graph.Keyed

/-!
# The books of an engine

An engine counts what it does in six places, and it counts the jobs under way. The counts agree with
what happens: each job that is dispatched is delivered once or still under way, each delivery is
applied or dropped, and each outcome that is applied is one event. All this holds of any sequence of
actions, whatever nodes come in.

* `Delivery`, `Engine.deliveries`: what is delivered, and when; `Dispatch.refused`.
* `Wave.Balanced`: the books in the middle of a change; **`Wave.Balanced.apply`**,
  **`Wave.Balanced.dispatch`**, **`Wave.Balanced.accept`**: they stay balanced.
* `Engine.Conserved`, **`Engine.conserved_run`**: the books of a run.
-/

namespace PixelFlow

/-- The delivery of a job in a wave. -/
structure Delivery where
  /-- The wave as it is just before. -/
  wave : Wave
  job : Job

namespace Delivery

def completion (d : Delivery) : Completion := d.job.complete d.wave.engine.files

/-- Whether the node awaits the delivery, so that it is applied and not dropped. -/
def current (d : Delivery) : Bool := d.wave.isCurrent d.completion

/-- The wave just after a delivery. -/
def after (d : Delivery) : Wave := d.wave.accept d.completion

end Delivery

/-- Whether a dispatch ends because the parameters of its node are refused. -/
def Dispatch.refused (d : Dispatch) : Bool :=
  (d.wave.engine.graph.node? d.node).any fun n =>
    (d.wave.engine.graph.inputs n).isOk && !(n.metadata.checkParameters d.node n.parameters).isOk

/-- The deliveries of jobs one after the other. -/
def Wave.deliveries (w : Wave) : List Job → List Delivery
  | [] => []
  | j :: jobs => ⟨w, j⟩ :: (w.accept (j.complete w.engine.files)).deliveries jobs

namespace Engine

/-- The deliveries of an action, in order. -/
def deliveriesOf (e : Engine) : Action → List Delivery
  | .deliver numbers =>
    let (taken, left) := takeJobs numbers e.jobs
    (e.batch left).deliveries taken
  | _ => []

/-- The deliveries of a run, in order. -/
def deliveries (e : Engine) : List Action → List Delivery
  | [] => []
  | a :: as => e.deliveriesOf a ++ (e.act a).1.deliveries as

end Engine

/-! ## Events -/

namespace NodeEvent

/-- Whether an event tells of an outcome. -/
def isOutcome : NodeEvent → Bool
  | valueChanged _ _ | failed _ _ => true
  | _ => false

/-- Whether an event tells of a failure. -/
def isFailure : NodeEvent → Bool
  | failed _ _ => true
  | _ => false

@[simp] theorem isOutcome_invalidated (id : NodeId) : (invalidated id).isOutcome = false := rfl

@[simp] theorem isFailure_invalidated (id : NodeId) : (invalidated id).isFailure = false := rfl

end NodeEvent

/-- The number of events with a property in a log. -/
def eventCount (p : NodeEvent → Bool) (log : List Record) : Nat :=
  (log.filterMap (·.event?)).countP p

section EventCount

variable {p : NodeEvent → Bool}

@[simp] theorem eventCount_nil : eventCount p [] = 0 := rfl

@[simp] theorem eventCount_append (l m : List Record) :
    eventCount p (l ++ m) = eventCount p l + eventCount p m := by
  simp [eventCount]

@[simp] theorem eventCount_note (n : Note) (l : List Record) :
    eventCount p (.note n :: l) = eventCount p l := rfl

@[simp] theorem eventCount_event (e : NodeEvent) (l : List Record) :
    eventCount p (.event e :: l) = eventCount p l + if p e then 1 else 0 := by
  simp [eventCount, Record.event?, List.countP_cons]

@[simp] theorem eventCount_notes (l : List Note) : eventCount p (l.map .note) = 0 := by
  induction l with
  | nil => rfl
  | cons n l ih => exact ih

@[simp] theorem eventCount_invalidated (l : List NodeId) :
    eventCount p (l.map fun id => .event (.invalidated id)) =
      l.countP fun id => p (.invalidated id) := by
  induction l with
  | nil => rfl
  | cons id l ih => rw [List.map_cons, eventCount_event, ih, List.countP_cons]

/-- An outcome is one event. -/
@[simp] theorem outcomes_records (n : Node) (o : Outcome) :
    eventCount (·.isOutcome) (o.records n) = 1 := by
  cases o <;> rfl

@[simp] theorem failures_records (n : Node) (o : Outcome) :
    eventCount (·.isFailure) (o.records n) = if o.succeeds then 0 else 1 := by
  cases o <;> rfl

end EventCount

namespace Wave

variable {w : Wave} {id : NodeId} {n : Node}

/-! ## Outcomes -/

/-- What invalidation changes: the states of nodes and the log. -/
theorem foldl_invalidate_shape (l : List NodeId) (w : Wave) :
    ∃ (g : Graph) (ids : List NodeId), l.foldl invalidate w =
      ⟨{ w.engine with graph := g }, w.log ++ ids.map fun s => .event (.invalidated s)⟩ ∧
      g.bare = w.engine.graph.bare := by
  induction l generalizing w with
  | nil => exact ⟨w.engine.graph, [], by simp, rfl⟩
  | cons a l ih =>
    obtain ⟨g, ids, h, hb⟩ := ih (w.invalidate a)
    rw [List.foldl_cons, h]
    unfold invalidate at hb ⊢
    split at hb
    · next ha =>
      refine ⟨g, a :: ids, ?_, hb.trans (Graph.bare_modifyNode _ _ fun _ => rfl)⟩
      simp [ha, emit, modifyNode]
    · next ha =>
      refine ⟨g, ids, ?_, hb⟩
      simp [ha]

/-- **What storing an outcome changes**: the graph, two counts and the log. -/
theorem apply_shape (hn : w.engine.graph.node? id = some n) (o : Outcome) :
    ∃ (g : Graph) (ids : List NodeId), w.apply id o =
      ⟨{ (w.tally o).engine with graph := g },
        w.log ++ o.records { n with id := id } ++ ids.map fun s => .event (.invalidated s)⟩ ∧
      g.bare = w.engine.graph.bare := by
  unfold apply
  rw [hn]
  cases o with
  | ok outputs =>
    dsimp only
    obtain ⟨g, ids, h, hb⟩ := foldl_invalidate_shape _ _
    refine ⟨g, ids, h, hb.trans ?_⟩
    exact Graph.bare_modifyNode _ _ fun _ => rfl
  | error e =>
    refine ⟨w.engine.graph.modifyNode id (·.storeError e), [], ?_, ?_⟩
    · simp [count, note, modifyNode, emit, tally, Outcome.records, Outcome.succeeds]
    · exact Graph.bare_modifyNode _ _ fun _ => rfl

/-! ## The books -/

/-- **The books balance in the middle of a change**: after the log `past`, with what has been
dispatched and delivered, when the jobs `pending` are to be delivered next and `due` outcomes are
about to be stored. -/
structure Balanced (past : List Record) (ds : List Dispatch) (delivered : List Delivery)
    (pending : List Job) (due : Nat) (w : Wave) : Prop where
  keyed : w.engine.graph.Keyed
  jobs : ((delivered.map (·.job) ++ (pending ++ w.engine.jobs)).map (·.number)).Perm
    (List.range w.engine.stats.dispatched)
  inFlight : w.engine.inFlight = (pending ++ w.engine.jobs).length
  discarded : w.engine.stats.discarded = delivered.countP (!·.current)
  completed : w.engine.stats.completed + due = delivered.countP (·.current) +
    w.engine.stats.inline + w.engine.stats.cacheHits + ds.countP (·.refused)
  outcomes : w.engine.stats.completed = eventCount (·.isOutcome) (past ++ w.log)
  failures : w.engine.stats.failed = eventCount (·.isFailure) (past ++ w.log)
  hits : w.engine.stats.cacheHits = w.engine.cache.stats.hits

namespace Balanced

variable {past : List Record} {ds : List Dispatch} {delivered : List Delivery} {pending : List Job}
  {due : Nat}

/-- **An outcome that is due is stored.** -/
theorem apply (h : w.Balanced past ds delivered pending 1) (hn : w.engine.graph.node? id = some n)
    (o : Outcome) : (w.apply id o).Balanced past ds delivered pending 0 := by
  obtain ⟨g, ids, e, hb⟩ := apply_shape hn o
  rw [e]
  refine { h with keyed := h.keyed.of_bare hb, outcomes := ?_, failures := ?_ }
  · show w.engine.stats.completed + 1 = _
    rw [h.outcomes]
    simp [Nat.add_assoc]
  · show (if o.succeeds then w.engine.stats.failed else w.engine.stats.failed + 1) = _
    rw [h.failures]
    cases hs : o.succeeds <;> simp [hs, Nat.add_assoc]

theorem note (h : w.Balanced past ds delivered pending due) (x : Note) :
    (w.note x).Balanced past ds delivered pending due :=
  { h with
    outcomes := by simpa [Wave.note] using h.outcomes
    failures := by simpa [Wave.note] using h.failures }

theorem modifyNode (h : w.Balanced past ds delivered pending due) (id : NodeId) {f : Node → Node}
    (hf : ∀ n, (f n).id = n.id) : (w.modifyNode id f).Balanced past ds delivered pending due :=
  { h with keyed := h.keyed.modifyNode id hf }

/-! ### Dispatches -/

/-- A dispatch that is refused has an error to be stored. -/
theorem dispatched (h : w.Balanced past ds delivered pending 0) (d : Dispatch) :
    w.Balanced past (ds ++ [d]) delivered pending (if d.refused then 1 else 0) := by
  refine { h with completed := ?_ }
  have := h.completed
  rw [List.countP_append, List.countP_singleton]
  omega

/-- A job that begins has the next number and is one more under way. -/
theorem submit (h : w.Balanced past ds delivered pending 0) (n : Node)
    (inputs : Table String Value) (key : Option CacheKey) :
    (w.submit n inputs key).Balanced past ds delivered pending 0 := by
  have hw := (h.modifyNode n.id (f := (·.beginCompute)) fun _ => rfl).note
    (.dispatched n.id (n.generation + 1))
  refine { hw with jobs := ?_, inFlight := ?_ }
  · have hjobs := h.jobs.append_right [w.engine.stats.dispatched]
    rw [← List.range_succ] at hjobs
    refine .trans (.of_eq ?_) hjobs
    simp [Wave.submit, takeStamp, count, Wave.note, Wave.modifyNode]
  · have hcount := h.inFlight
    show w.engine.inFlight + 1 = (pending ++ (w.engine.jobs ++ [_])).length
    rw [← List.append_assoc, List.length_append, hcount]
    rfl

theorem runInline (h : w.Balanced past ds delivered pending 0)
    (hn : w.engine.graph.node? n.id = some n) (inputs : Table String Value) :
    (w.runInline n inputs).Balanced past ds delivered pending 0 := by
  have hw := h.modifyNode n.id (f := (·.beginCompute)) fun _ => rfl
  have started : ((w.takeStamp.modifyNode n.id (·.beginCompute)).count fun s =>
      { s with inline := s.inline + 1 }).Balanced past ds delivered pending 1 := by
    refine { hw with completed := ?_ }
    have hcount := h.completed
    show w.engine.stats.completed + 1 = _ + (w.engine.stats.inline + 1) +
      w.engine.stats.cacheHits + _
    omega
  refine started.apply (n := n.beginCompute) ?_ _
  show (w.engine.graph.modifyNode n.id (·.beginCompute)).node? n.id = _
  rw [Graph.node?_modifyNode, if_pos rfl, hn]
  rfl

theorem runBackground (h : w.Balanced past ds delivered pending 0)
    (hn : w.engine.graph.node? n.id = some n) (inputs : Table String Value) :
    (w.runBackground n inputs).Balanced past ds delivered pending 0 := by
  unfold Wave.runBackground
  cases w.cacheKey? n inputs with
  | none => exact h.submit n inputs none
  | some key =>
    have hhits := w.engine.cache.hits_get key
    dsimp only
    cases hf : (w.engine.cache.get key).1 with
    | none =>
      rw [hf] at hhits
      have missed : Wave.Balanced past ds delivered pending 0
          { w with engine.cache := (w.engine.cache.get key).2 } :=
        { h with hits := h.hits.trans hhits.symm }
      exact missed.submit n inputs (some key)
    | some outputs =>
      rw [hf] at hhits
      have found : (w.hit key).Balanced past ds delivered pending 1 := by
        refine { h with completed := ?_, hits := ?_ }
        · have hcount := h.completed
          show w.engine.stats.completed + 1 = _ + w.engine.stats.inline +
            (w.engine.stats.cacheHits + 1) + _
          omega
        · show w.engine.stats.cacheHits + 1 = _
          rw [h.hits]
          exact hhits.symm
      exact (found.note (.remembered n.id n.metadata.id)).apply hn (.ok outputs)

/-- **A dispatch keeps the books balanced.** -/
theorem dispatch (h : w.Balanced past ds delivered pending 0)
    (hn : w.engine.graph.node? id = some n) :
    (w.dispatch id).Balanced past (ds ++ [⟨w, id⟩]) delivered pending 0 := by
  have hd := h.dispatched ⟨w, id⟩
  have hr : (⟨w, id⟩ : Dispatch).refused = ((w.engine.graph.inputs n).isOk &&
      !(n.metadata.checkParameters id n.parameters).isOk) := by
    rw [Dispatch.refused, hn]
    rfl
  obtain rfl := h.keyed id n hn
  rw [hr] at hd
  unfold Wave.dispatch
  rw [hn]
  dsimp only
  -- An outcome is due right away only if the inputs are there and the parameters are refused.
  cases hi : w.engine.graph.inputs n with
  | error port =>
    rw [hi] at hd
    have noted := hd.note (.awaiting n.id port)
    have waits := noted.modifyNode n.id (f := (·.markWaiting)) fun _ => rfl
    exact { waits with
      outcomes := by simpa [emit, NodeEvent.isOutcome] using waits.outcomes
      failures := by simpa [emit, NodeEvent.isFailure] using waits.failures }
  | ok inputs =>
    rw [hi] at hd
    dsimp only
    cases hc : n.metadata.checkParameters n.id n.parameters with
    | error x =>
      rw [hc] at hd
      exact hd.apply hn (.error x)
    | ok u =>
      rw [hc] at hd
      dsimp only
      split
      · exact hd.runBackground hn inputs
      · exact hd.runInline hn inputs

/-- **The scheduler keeps the books balanced.** -/
theorem schedule (h : w.Balanced past ds delivered pending 0) :
    w.schedule.Balanced past (ds ++ w.dispatches) delivered pending 0 := by
  refine passes_trace (P := fun v ds => v.Balanced past ds delivered pending 0)
    (fun hr h => ?_) (fun _ h => h.note _) _ h
  obtain ⟨n, hn, _⟩ := (isReady_iff.1 hr).1
  exact h.dispatch hn

/-! ### Deliveries -/

/-- **A delivery keeps the books balanced**: it is applied or dropped. -/
theorem accept {j : Job} (h : w.Balanced past ds delivered (j :: pending) 0) :
    (w.accept (j.complete w.engine.files)).Balanced past ds (delivered ++ [⟨w, j⟩]) pending 0 := by
  have hd : (⟨w, j⟩ : Delivery).current = w.isCurrent (j.complete w.engine.files) := rfl
  generalize j.complete w.engine.files = c at hd ⊢
  obtain ⟨cache, e, hcache⟩ := w.received_eq c
  have jobs : (((delivered ++ [(⟨w, j⟩ : Delivery)]).map (·.job) ++
      (pending ++ w.engine.jobs)).map (·.number)).Perm (List.range w.engine.stats.dispatched) := by
    simpa using h.jobs
  have inFlight : w.engine.inFlight - 1 = (pending ++ w.engine.jobs).length := by
    rw [h.inFlight]
    rfl
  have hits : w.engine.stats.cacheHits = cache.stats.hits := by
    rcases hcache with rfl | ⟨key, outputs, _, _, _, rfl⟩
    · exact h.hits
    · rw [Cache.hits_put]
      exact h.hits
  have discarded := h.discarded
  have completed := h.completed
  unfold Wave.accept
  show (if (w.received c).isCurrent c then (w.received c).apply c.node c.outcome else
    ((w.received c).count fun s => { s with discarded := s.discarded + 1 }).note
      (.discarded c.node c.generation)).Balanced _ _ _ _ _
  rw [isCurrent_received, e]
  cases hc : w.isCurrent c with
  | true =>
    obtain ⟨n, hn, _⟩ := isCurrent_iff.1 hc
    rw [hc] at hd
    have arrived : Wave.Balanced past ds (delivered ++ [⟨w, j⟩]) pending 1
        { w with engine.inFlight := w.engine.inFlight - 1, engine.cache := cache } := by
      refine { h with jobs, inFlight, hits, discarded := ?_, completed := ?_ }
      · simpa [List.countP_append, hd] using discarded
      · show w.engine.stats.completed + 1 =
          _ + w.engine.stats.inline + w.engine.stats.cacheHits + _
        rw [List.countP_append, List.countP_singleton, hd, if_pos rfl]
        omega
    exact arrived.apply hn c.outcome
  | false =>
    rw [hc] at hd
    have dropped : Wave.Balanced past ds (delivered ++ [⟨w, j⟩]) pending 0
        (Wave.count { w with engine.inFlight := w.engine.inFlight - 1, engine.cache := cache }
          fun s => { s with discarded := s.discarded + 1 }) := by
      refine { h with jobs, inFlight, hits, discarded := ?_, completed := ?_ }
      · show w.engine.stats.discarded + 1 = _
        rw [List.countP_append, List.countP_singleton, hd, discarded]
        rfl
      · show w.engine.stats.completed + 0 =
          _ + w.engine.stats.inline + w.engine.stats.cacheHits + _
        rw [List.countP_append, List.countP_singleton, hd]
        exact completed
    exact dropped.note _

/-- **A batch of deliveries keeps the books balanced.** -/
theorem collect {taken : List Job} (h : w.Balanced past ds delivered taken 0) :
    (Engine.collect w taken).Balanced past ds (delivered ++ w.deliveries taken) [] 0 := by
  induction taken generalizing w delivered with
  | nil => simpa [Wave.deliveries, Engine.collect] using h
  | cons j taken ih =>
    rw [Wave.deliveries, List.append_cons]
    exact ih h.accept

end Balanced

end Wave

/-! ## Runs -/

/-- The delivery is counted as applied or as dropped, and as nothing else. -/
def Delivery.CountedOnce (d : Delivery) : Prop :=
  d.after.engine.stats = if d.current then (d.wave.tally d.completion.outcome).engine.stats
    else { d.wave.engine.stats with discarded := d.wave.engine.stats.discarded + 1 }

theorem Delivery.countedOnce (d : Delivery) : d.CountedOnce := by
  obtain ⟨cache, e, _⟩ := d.wave.received_eq d.completion
  unfold CountedOnce after Wave.accept
  show (if (d.wave.received d.completion).isCurrent d.completion then
    (d.wave.received d.completion).apply d.completion.node d.completion.outcome else
      ((d.wave.received d.completion).count fun s => { s with discarded := s.discarded + 1 }).note
        (.discarded d.completion.node d.completion.generation)).engine.stats = _
  rw [Wave.isCurrent_received, current, e]
  split
  · next hc =>
    obtain ⟨n, hn, _⟩ := Wave.isCurrent_iff.1 hc
    obtain ⟨g, ids, ha, _⟩ := Wave.apply_shape
      (w := { d.wave with
        engine.inFlight := d.wave.engine.inFlight - 1, engine.cache := cache })
      hn d.completion.outcome
    rw [ha]
    rfl
  · rfl

/-- **The books balance between two actions**, when nothing is to be delivered or stored. -/
def Engine.Balanced (past : List Record) (ds : List Dispatch) (delivered : List Delivery)
    (e : Engine) : Prop :=
  Wave.Balanced past ds delivered [] 0 ⟨e, []⟩

variable {e : Engine} {past : List Record} {ds : List Dispatch} {delivered : List Delivery}

/-- A wave that settles leaves the books balanced. -/
theorem Wave.Balanced.settle {w : Wave} (h : w.Balanced past ds delivered [] 0) :
    w.settle.1.Balanced (past ++ w.settle.2.log) (ds ++ w.dispatches) delivered := by
  have hs := h.schedule
  refine { hs with outcomes := ?_, failures := ?_ }
  · show w.schedule.engine.stats.completed = eventCount _ (past ++ w.schedule.log ++ [])
    rw [List.append_nil]
    exact hs.outcomes
  · show w.schedule.engine.stats.failed = eventCount _ (past ++ w.schedule.log ++ [])
    rw [List.append_nil]
    exact hs.failures

namespace Engine

theorem balanced_new (options : EngineOptions) (files : FileStore) :
    (new options files).Balanced [] [] [] where
  keyed := Graph.keyed_empty
  jobs := .refl _
  inFlight := rfl
  discarded := rfl
  completed := rfl
  outcomes := rfl
  failures := rfl
  hits := rfl

namespace Balanced

/-- An edit touches nodes, but counts nothing. -/
theorem opening (h : e.Balanced past ds delivered) {change : Edit} {w : Wave}
    (hw : e.opening? change = some w) : w.Balanced past ds delivered [] 0 := by
  unfold opening? at hw
  cases hr : e.graph.perform change with
  | error x =>
    rw [hr] at hw
    cases hw
  | ok r =>
    rw [hr] at hw
    dsimp only at hw
    split at hw
    · cases hw
    · cases hw
      have hk : r.graph.Keyed := h.keyed.perform hr
      exact { h with
        keyed := hk
        outcomes := by simpa [opened] using h.outcomes
        failures := by simpa [opened] using h.failures }

/-- Jobs that are taken off the list are to be delivered. -/
theorem batch (h : e.Balanced past ds delivered) {numbers : List Nat} {taken left : List Job}
    (ht : takeJobs numbers e.jobs = (taken, left)) :
    (e.batch left).Balanced past ds delivered taken 0 := by
  have hp := takeJobs_perm ht
  refine { h with jobs := ?_, inFlight := h.inFlight.trans hp.length_eq }
  exact ((hp.symm.append_left (delivered.map (·.job))).map _).trans h.jobs

theorem wave (h : e.Balanced past ds delivered) {a : Action} {w : Wave} (hw : e.wave? a = some w) :
    w.Balanced past ds (delivered ++ e.deliveriesOf a) [] 0 := by
  cases a with
  | addVariant v =>
    have minted : e.mint.2.Balanced past ds delivered := { h with }
    have hw : e.mint.2.opening? (.addFresh (.new v e.stamp)) = some w := hw
    simpa [deliveriesOf] using minted.opening hw
  | edit change => simpa [deliveriesOf] using h.opening hw
  | deliver numbers =>
    obtain ⟨taken, left, ht⟩ : ∃ taken left, takeJobs numbers e.jobs = (taken, left) := ⟨_, _, rfl⟩
    rw [deliveriesOf, ht]
    rw [wave?, ht] at hw
    dsimp only at hw
    split at hw
    · cases hw
    · cases hw
      exact (h.batch ht).collect
  | mint | clearCache | subscribe | unsubscribe => cases hw

/-- An action that sets off no wave counts nothing. -/
theorem act_of_no_wave (h : e.Balanced past ds delivered) {a : Action} (hw : e.wave? a = none) :
    (e.act a).1.Balanced past ds delivered := by
  cases a with
  | addVariant v => cases hw
  | edit change =>
    rw [act, edit_of_wave? hw]
    exact h
  | deliver numbers =>
    rw [act, deliver_of_wave? hw]
    exact h
  | mint | clearCache | subscribe | unsubscribe => exact { h with }

theorem deliveriesOf_of_no_wave {a : Action} (hw : e.wave? a = none) : e.deliveriesOf a = [] := by
  cases a with
  | deliver numbers =>
    rw [wave?] at hw
    rw [deliveriesOf]
    generalize takeJobs numbers e.jobs = x at hw ⊢
    obtain ⟨taken, left⟩ := x
    dsimp only at hw ⊢
    split at hw
    · next hn => rw [List.isEmpty_iff.1 hn, Wave.deliveries]
    · cases hw
  | _ => rfl

/-- **An action keeps the books balanced.** -/
theorem act (h : e.Balanced past ds delivered) (a : Action) :
    (e.act a).1.Balanced (past ++ (e.act a).2.log) (ds ++ (e.wave? a).elim [] (·.dispatches))
      (delivered ++ e.deliveriesOf a) := by
  cases hw : e.wave? a with
  | none =>
    rw [deliveriesOf_of_no_wave hw, (Engine.act_of_no_wave hw).2.1]
    simpa [Report.empty] using h.act_of_no_wave hw
  | some w =>
    rw [act_of_wave? hw]
    exact (h.wave hw).settle

/-- **A run keeps the books balanced.** -/
theorem run (h : e.Balanced past ds delivered) (as : List Action) :
    (e.run as).1.Balanced (past ++ (e.run as).2.log) (ds ++ e.dispatches as)
      (delivered ++ e.deliveries as) := by
  induction as generalizing e past ds delivered with
  | nil => simpa [Engine.run, Report.empty, dispatches, deliveries] using h
  | cons a as ih =>
    have := ih (h.act a)
    rw [List.append_assoc, List.append_assoc, List.append_assoc] at this
    exact this

/-- Between two actions each job that has been dispatched is delivered or on the list. -/
theorem numbers (h : e.Balanced past ds delivered) :
    (delivered.map (·.job.number) ++ e.jobs.map (·.number)).Perm
      (List.range e.stats.dispatched) := by
  have hjobs := h.jobs
  rw [List.nil_append, List.map_append, List.map_map] at hjobs
  exact hjobs

theorem dispatched_eq (h : e.Balanced past ds delivered) :
    e.stats.dispatched = e.inFlight + delivered.length := by
  have hnumbers := h.numbers.length_eq
  have hflight : e.inFlight = e.jobs.length := h.inFlight
  rw [List.length_append, List.length_map, List.length_map, List.length_range] at hnumbers
  omega

/-- Whatever begins is completed, discarded or under way. -/
theorem completed_eq (h : e.Balanced past ds delivered) :
    e.stats.completed + e.stats.discarded + e.inFlight =
      e.stats.dispatched + e.stats.inline + e.stats.cacheHits + ds.countP (·.refused) := by
  have hdispatched := h.dispatched_eq
  have hdelivered : delivered.length =
      delivered.countP (fun d => d.current) + delivered.countP (fun d => !d.current) := by
    simpa using delivered.length_eq_countP_add_countP fun d => d.current
  have hcompleted : e.stats.completed = delivered.countP (·.current) + e.stats.inline +
    e.stats.cacheHits + ds.countP (·.refused) := h.completed
  have hdiscarded : e.stats.discarded = delivered.countP (!·.current) := h.discarded
  omega

end Balanced

/-- **What an engine counts in a run is what happens in it.** -/
structure Conserved (e : Engine) (as : List Action) : Prop where
  /-- Each job that has been dispatched is delivered once or still under way. -/
  jobs : ((e.deliveries as).map (·.job.number) ++ (e.run as).1.jobs.map (·.number)).Perm
    (List.range (e.run as).1.stats.dispatched)
  dispatched : (e.run as).1.stats.dispatched = (e.run as).1.inFlight + (e.deliveries as).length
  /-- Each delivery is counted once, as applied or as dropped. -/
  once : ∀ d ∈ e.deliveries as, d.CountedOnce
  applied : (e.run as).1.stats.completed = (e.deliveries as).countP (·.current) +
    (e.run as).1.stats.inline + (e.run as).1.stats.cacheHits + (e.dispatches as).countP (·.refused)
  dropped : (e.run as).1.stats.discarded = (e.deliveries as).countP (!·.current)
  /-- Whatever begins ends, is dropped or is under way. -/
  balance : (e.run as).1.stats.completed + (e.run as).1.stats.discarded + (e.run as).1.inFlight =
    (e.run as).1.stats.dispatched + (e.run as).1.stats.inline + (e.run as).1.stats.cacheHits +
      (e.dispatches as).countP (·.refused)
  /-- Each outcome that is applied is one event. -/
  outcomes : (e.run as).1.stats.completed = (e.run as).2.events.countP (·.isOutcome)
  failures : (e.run as).1.stats.failed = (e.run as).2.events.countP (·.isFailure)
  /-- The engine counts the hits of its cache. -/
  hits : (e.run as).1.stats.cacheHits = (e.run as).1.cache.stats.hits

/-- **Computes are conserved**: whatever is done to a new engine, its counts are those of what
happens. -/
theorem conserved_run (options : EngineOptions) (files : FileStore) (as : List Action) :
    (new options files).Conserved as := by
  have h := (balanced_new options files).run as
  simp only [List.nil_append] at h
  have outcomes := h.outcomes
  have failures := h.failures
  rw [List.append_nil] at outcomes failures
  exact ⟨h.numbers, h.dispatched_eq, fun d _ => d.countedOnce, h.completed, h.discarded,
    h.completed_eq, outcomes, failures, h.hits⟩

end Engine

end PixelFlow
