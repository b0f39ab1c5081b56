import PixelFlow.Proofs.Engine.Evaluate
import PixelFlow.Proofs.Engine.History
import PixelFlow.Proofs.Observers

/-!
# What observers know

Whatever changes the state of a node is told to every observer, except that a background compute
begins, and that only happens to nodes of which the last event says that they were invalidated. So
an observer that was there from the beginning knows the state of each node and its outputs.

* `NodeEvent.Tells`: the state that an event tells; **`Deed.told_tells`**: over a life.
* **`Deed.outputs_of_told`**: over a life, the outputs of a node are the last that are told.
* `Report.heard`, `Engine.heardSince`: what reaches one observer.
* `Node.Mirrored`: the last event about a node tells its state, each state in its own way.
* **`Engine.mirrored_run`**: after every run, observers know states and outputs.
-/

namespace PixelFlow

/-! ## Events about one node -/

/-- The node is in the state that an event about it tells; that its compute has begun is not told. -/
def NodeEvent.Tells (n : Node) : NodeEvent → Prop
  | .invalidated _ => n.state = .dirty ∨ ∃ g, n.state = .computing g
  | .valueChanged _ outputs => n.state = .clean ∧ n.outputs = outputs
  | .failed _ e => n.state = .error ∧ n.lastError = some e
  | .waiting _ _ => n.state = .waiting

/-- The outputs of which an event about a node tells. -/
def NodeEvent.outputsOf? (id : NodeId) : NodeEvent → Option (Table PortId Value)
  | .valueChanged n outputs => if n = id then some outputs else none
  | _ => none

/-- The last event about a node. -/
def lastAbout? (id : NodeId) (events : List NodeEvent) : Option NodeEvent :=
  (events.filter fun e => e.node = id).getLast?

/-- The outputs of the last event that a value of a node has changed. -/
def lastOutputs? (id : NodeId) (events : List NodeEvent) : Option (Table PortId Value) :=
  (events.filterMap (·.outputsOf? id)).getLast?

theorem lastAbout?_eq (id : NodeId) (events : List NodeEvent) :
    lastAbout? id events =
      (events.filterMap fun e => if e.node = id then some e else none).getLast? := by
  rw [lastAbout?, ← List.filterMap_eq_filter]
  congr 1
  refine List.filterMap_congr fun e _ => ?_
  by_cases h : e.node = id <;> simp [h, Option.guard]

theorem lastOutputs?_append (id : NodeId) (l l' : List NodeEvent) :
    lastOutputs? id (l ++ l') = (lastOutputs? id l').or (lastOutputs? id l) := by
  rw [lastOutputs?, List.filterMap_append, List.getLast?_append]
  rfl

theorem Record.Shows.tells {n : Node} {e : NodeEvent} (h : (Record.event e).Shows n) :
    e.Tells n := by
  cases e with
  | invalidated => exact .inl h
  | valueChanged | failed | waiting => exact h

namespace Deed

variable {id : NodeId} {o : Option Node}

/-- The events of all deeds. -/
def told (id : NodeId) (o : Option Node) (ds : List Deed) : List NodeEvent :=
  (trace id o ds).filterMap (·.event?)

theorem subject?_record? {d : Deed} {r : Record} (h : d.record? id o = some r) :
    r.subject? = some id := by
  cases d with
  | leave => cases h
  | enter | touch | wait => cases h; rfl
  | answer _ outcome | receive _ outcome =>
    obtain ⟨n, _, rfl⟩ := Option.map_eq_some_iff.1 h
    cases outcome <;> rfl
  | start =>
    obtain ⟨n, _, rfl⟩ := Option.map_eq_some_iff.1 h
    rfl

/-- Of every deed but the start of a background compute an event tells. -/
theorem eq_start_of_record? {d : Deed} {x : Note} (h : d.record? id o = some (.note x)) :
    d = .start := by
  cases d with
  | start => rfl
  | leave | enter | touch | wait => cases h
  | answer _ outcome | receive _ outcome =>
    obtain ⟨n, _, hr⟩ := Option.map_eq_some_iff.1 h
    cases outcome <;> cases hr

/-- **If nothing was there at first, a node that is there is as the last event about it tells.** -/
theorem told_tells {ds : List Deed} {n : Node} (hv : Valid id none ds)
    (h : life none ds = some n) : ∃ e, (told id none ds).getLast? = some e ∧ e.node = id ∧
      e.Tells n := by
  induction ds using List.reverseRecOn generalizing n with
  | nil => cases h
  | append_singleton ds d ih =>
    obtain ⟨hv', hf, _⟩ := (valid_append ..).1 hv
    rw [life_append] at h
    obtain ⟨r, hr, hs⟩ := record?_shows id h
    have ht : told id none (ds ++ [d]) = told id none ds ++ r.event?.toList := by
      rw [told, trace_append, List.filterMap_append, trace, hr, trace]
      cases r <;> rfl
    rw [ht]
    cases r with
    | event e =>
      exact ⟨e, by simp [Record.event?], Option.some.inj (subject?_record? hr), hs.tells⟩
    | note x =>
      -- The compute of a dirty node begins, and that it is dirty has been told.
      obtain rfl := eq_start_of_record? hr
      obtain ⟨m, hm, hd⟩ := hf
      obtain ⟨e, he, hi, ht'⟩ := ih hv' hm
      refine ⟨e, by simpa [Record.event?] using he, hi, ?_⟩
      rw [hm] at h
      cases h
      cases e with
      | invalidated => exact .inr ⟨_, rfl⟩
      | valueChanged | failed => cases hd.symm.trans ht'.1
      | waiting => cases hd.symm.trans ht'

/-- One deed leaves the outputs that it tells of, or else those that were there. -/
theorem outputs_after {d : Deed} {m n : Node} (h : d.after (some m) = some n)
    (he : d.entered? = none) : n.outputs =
      (lastOutputs? id ((d.record? id (some m)).toList.filterMap (·.event?))).getD m.outputs := by
  cases d with
  | enter => cases he
  | leave => cases h
  | touch | wait | start => cases h; rfl
  | answer begins outcome =>
    cases h
    cases begins <;> cases outcome <;>
      simp [record?, record, Record.event?, lastOutputs?, NodeEvent.outputsOf?, Node.store,
        Node.storeOutputs, Node.storeError, Node.beginCompute, Wave.outputsByPort, Node.sources]
  | receive g outcome =>
    cases h
    cases outcome <;>
      simp [record?, record, Record.event?, lastOutputs?, NodeEvent.outputsOf?, Node.store,
        Node.storeOutputs, Node.storeError]

/-- **Unless another node comes in, the outputs of a node are the last that are told.** -/
theorem outputs_of_told {ds : List Deed} {m n : Node} (hv : Valid id (some m) ds)
    (he : entered ds = []) (h : life (some m) ds = some n) :
    n.outputs = (lastOutputs? id (told id (some m) ds)).getD m.outputs := by
  induction ds generalizing m with
  | nil => cases h; rfl
  | cons d ds ih =>
    obtain ⟨hf, hv⟩ := hv
    have hd : d.entered? = none := by
      cases hd : d.entered? with
      | none => rfl
      | some x => simp [entered, hd] at he
    have he : entered ds = [] := by
      rwa [entered, List.filterMap_cons_none hd] at he
    cases ha : d.after (some m) with
    | none =>
      rw [ha] at hv
      obtain rfl := eq_nil_of_valid hv he
      rw [life, List.foldl_cons, ha] at h
      cases h
    | some k =>
      rw [ha] at hv
      have hk : life (some k) ds = some n := by rwa [life, List.foldl_cons, ha] at h
      have ht : told id (some m) (d :: ds) =
          (d.record? id (some m)).toList.filterMap (·.event?) ++ told id (some k) ds := by
        rw [told, trace, ha, List.filterMap_append]
        rfl
      rw [ih hv he hk, outputs_after ha hd, ht, lastOutputs?_append]
      cases lastOutputs? id (told id (some k) ds) <;> rfl

end Deed

/-! ## What reaches an observer -/

/-- Whatever one looks for, the last of it is the same in both lists. -/
def SameLast {α : Type} (l l' : List α) : Prop :=
  ∀ (β : Type) (f : α → Option β), (l.filterMap f).getLast? = (l'.filterMap f).getLast?

theorem SameLast.append {α : Type} {l₁ l₁' l₂ l₂' : List α} (h₁ : SameLast l₁ l₁')
    (h₂ : SameLast l₂ l₂') : SameLast (l₁ ++ l₂) (l₁' ++ l₂') := fun β f => by
  rw [List.filterMap_append, List.filterMap_append, List.getLast?_append, List.getLast?_append,
    h₁ β f, h₂ β f]

/-- The events that reach an observer. -/
def Report.heard (l : Listener) (r : Report) : List NodeEvent :=
  r.deliveries.filterMap fun (k, e) => if k = l then some e else none

theorem Report.heard_append (l : Listener) (r s : Report) :
    (r ++ s).heard l = r.heard l ++ s.heard l := List.filterMap_append

theorem Report.events_append (r s : Report) : (r ++ s).events = r.events ++ s.events :=
  List.filterMap_append

theorem sameLast_replicate {α : Type} {k : Nat} (hk : k ≠ 0) (a : α) :
    SameLast (List.replicate k a) [a] := fun β f => by
  cases h : f a <;> simp [h, List.getLast?_replicate, hk]

/-- **An observer receives every event.** -/
theorem Observers.sameLast_deliveries {o : Observers Listener} {h : ObserverId} {l : Listener}
    (hs : (h, l) ∈ o.subscribed) (events : List NodeEvent) :
    SameLast ((o.deliveries events).filterMap fun (k, e) => if k = l then some e else none)
      events := by
  have mem : l ∈ o.subscribed.map (·.2) := List.mem_map.2 ⟨_, hs, rfl⟩
  have count : (o.subscribed.map (·.2)).count l ≠ 0 := (List.count_pos_iff.2 mem).ne'
  induction events with
  | nil => exact fun _ _ => rfl
  | cons e events ih =>
    show SameLast (heard l (o.deliveries (e :: events))) (e :: events)
    rw [deliveries, List.flatMap_cons, heard_append, heard_map]
    exact (sameLast_replicate count e).append ih

section Heard

variable {h : ObserverId} {l : Listener}

namespace Wave

variable {w w' : Wave} {c : Completion} {id : NodeId} {n : Node}

theorem Dispatched.observers (hd : Dispatched w id n w') :
    w'.engine.observers = w.engine.observers := by
  cases hd <;> rfl

theorem Accepted.observers (ha : Accepted w c w') :
    w'.engine.observers = w.engine.observers := by
  obtain ⟨cache, e, _⟩ := w.received_eq c
  cases ha with
  | applied | dropped => rw [e]; rfl

theorem observers_schedule (hg : w.engine.graph.Sound) :
    w.schedule.engine.observers = w.engine.observers :=
  schedule_induction (P := fun v => v.engine.observers = w.engine.observers) hg rfl
    fun _ _ _ _ hd h => hd.observers.trans h

theorem observers_collect (hg : w.engine.graph.Sound) (jobs : List Job) :
    (Engine.collect w jobs).engine.observers = w.engine.observers :=
  Engine.collect_induction (P := fun v => v.engine.observers = w.engine.observers) hg rfl jobs
    fun _ _ _ ha h => ha.observers.trans h

end Wave

namespace Engine

open Wave

/-- The observer is still subscribed, and has received all events that there were. -/
def Informed (h : ObserverId) (l : Listener) (x : Engine × Report) : Prop :=
  (h, l) ∈ x.1.observers.subscribed ∧ SameLast (x.2.heard l) x.2.events

theorem informed_settle {w : Wave} (hg : w.engine.graph.Sound)
    (hs : (h, l) ∈ w.engine.observers.subscribed) : Informed h l w.settle := by
  have hs : (h, l) ∈ w.schedule.engine.observers.subscribed := by rwa [observers_schedule hg]
  exact ⟨hs, Observers.sameLast_deliveries hs _⟩

theorem informed_empty {e : Engine} (hs : (h, l) ∈ e.observers.subscribed) :
    Informed h l (e, .empty) := ⟨hs, fun _ _ => rfl⟩

theorem informed_act {e : Engine} (hr : e.AtRest) {a : Action} (ha : a.Admissible e)
    (hs : (h, l) ∈ e.observers.subscribed) (hu : a ≠ .unsubscribe h) : Informed h l (e.act a) := by
  cases a with
  | addVariant v =>
    obtain ⟨hi, hp⟩ := hr.known.fresh hr.sound v
    exact informed_settle (hr.sound.insert (Node.new_wellFormed v _) hi hp) hs
  | edit change =>
    rcases e.edit_cases change with ⟨r, hp, he⟩ | ⟨he, _⟩
    · rw [act, he]
      exact informed_settle (hr.sound.perform ha.1 hp).sound hs
    · rw [act, he]
      exact informed_empty hs
  | deliver numbers =>
    rw [act, deliver]
    obtain ⟨taken, left, ht⟩ : ∃ taken left, takeJobs numbers e.jobs = (taken, left) := ⟨_, _, rfl⟩
    rw [ht]
    dsimp only
    split
    · exact informed_empty hs
    · refine informed_settle (hr.sound.of_bare (bare_collect (w := e.batch left) hr.sound taken)) ?_
      rwa [observers_collect (w := e.batch left) hr.sound]
  | mint | clearCache => exact informed_empty hs
  | subscribe k => exact informed_empty (List.mem_append_left _ hs)
  | unsubscribe k =>
    refine informed_empty (List.mem_filter.2 ⟨hs, ?_⟩)
    simpa using fun e : h = k => hu (e ▸ rfl)

/-- **An observer that stays subscribed receives all events of a run.** -/
theorem informed_run {e : Engine} (hr : e.AtRest) (as : List Action) (ha : e.Admissible as)
    (hs : (h, l) ∈ e.observers.subscribed) (hu : .unsubscribe h ∉ as) :
    Informed h l (e.run as) := by
  induction as generalizing e with
  | nil => exact informed_empty hs
  | cons a as ih =>
    obtain ⟨hs', first⟩ := informed_act hr ha.1 hs fun e => hu (e ▸ List.mem_cons_self)
    obtain ⟨hs'', later⟩ := ih (hr.act ha.1) ha.2 hs' fun hm => hu (List.mem_cons_of_mem a hm)
    refine ⟨hs'', ?_⟩
    rw [run]
    dsimp only
    rw [Report.heard_append, Report.events_append]
    exact first.append later

/-! ## States and outputs -/

/-- What an observer hears from the last action on that puts a node of some name into the graph. -/
def heardSince (l : Listener) (id : NodeId) (e : Engine) : List Action → List NodeEvent
  | [] => []
  | a :: rest =>
    if id ∈ ((e.act a).1.insertions rest).map (·.id) then (e.act a).1.heardSince l id rest
    else (e.run (a :: rest)).2.heard l

end Engine

/-- The events about a node are those of its records. -/
theorem Report.filter_events (id : NodeId) (r : Report) :
    r.events.filter (fun e => e.node = id) = (recordsOf id r.log).filterMap (·.event?) := by
  rw [events]
  induction r.log with
  | nil => rfl
  | cons x log ih =>
    rw [recordsOf_cons]
    cases x with
    | event e =>
      have about : (Record.event e).subject? = some id ↔ e.node = id := Option.some_inj
      have event : ∀ l : List Record, (Record.event e :: l).filterMap (·.event?) =
          e :: l.filterMap (·.event?) := fun _ => rfl
      rw [event, List.filter_cons, ih]
      by_cases h : e.node = id
      · rw [if_pos (by simpa using h), if_pos (about.2 h), event]
      · rw [if_neg (by simpa using h), if_neg fun e => h (about.1 e)]
    | note x =>
      have note : ∀ l : List Record, (Record.note x :: l).filterMap (·.event?) =
          l.filterMap (·.event?) := fun _ => rfl
      rw [note, ih]
      split
      · rw [note]
      · rfl

theorem lastOutputs?_filter (id : NodeId) (events : List NodeEvent) :
    lastOutputs? id (events.filter fun e => e.node = id) = lastOutputs? id events := by
  rw [lastOutputs?, lastOutputs?, List.filterMap_filter]
  congr 1
  refine List.filterMap_congr fun e _ => ?_
  by_cases h : e.node = id
  · simp [h]
  · cases e <;> simp_all [NodeEvent.outputsOf?, NodeEvent.node]

namespace Engine

variable {e : Engine} {id : NodeId} {n : Node}

/-- A node comes in where none is. -/
theorem node?_of_inserted (h : e.AtRest) {a : Action} (ha : a.Admissible e)
    (hn : n ∈ e.inserted a) : e.inserted a = [n] ∧ e.graph.node? n.id = none := by
  have hs := act_spec h.sound h.known ha
  generalize e.act a = x at hs
  cases hs with
  | idle _ hi =>
    rw [hi] at hn
    cases hn
  | edited change stamp ha' _ _ hr hi =>
    rw [hi] at hn ⊢
    rcases (h.sound.perform ha' hr).news with e' | ⟨m, e', _, hm⟩
    · rw [e'] at hn
      cases hn
    · rw [e'] at hn ⊢
      obtain rfl := List.mem_singleton.1 hn
      exact ⟨rfl, hm⟩
  | delivered ha' =>
    subst ha'
    cases hn

/-- **The outputs of a node are the last that an observer heard of since the node came in.** -/
theorem outputs_of_heardSince (hr : e.AtRest) {as : List Action} (ha : e.Admissible as)
    (hf : ∀ m ∈ e.insertions as, m.outputs = ∅) (hs : (h, l) ∈ e.observers.subscribed)
    (hu : .unsubscribe h ∉ as) (hi : id ∈ (e.insertions as).map (·.id))
    (hn : (e.run as).1.graph.node? id = some n) :
    n.outputs = (lastOutputs? id (e.heardSince l id as)).getD ∅ := by
  induction as generalizing e with
  | nil => cases hi
  | cons a as ih =>
    rw [heardSince]
    split
    · next later =>
      refine ih (hr.act ha.1) ha.2 (fun m hm => hf m (List.mem_append_right _ hm)) ?_
        (fun hm => hu (List.mem_cons_of_mem a hm)) later hn
      exact (informed_act hr ha.1 hs fun e => hu (e ▸ List.mem_cons_self)).1
    · next later =>
      -- The node comes in with this action, and is there ever since.
      rw [insertions, List.map_append] at hi
      obtain ⟨m, hm, rfl⟩ := List.mem_map.1 ((List.mem_append.1 hi).resolve_right later)
      obtain ⟨only, absent⟩ := node?_of_inserted hr ha.1 hm
      obtain ⟨ds, hv, hl, hrec, hent, _⟩ := lived_run hr (a :: as) ha m.id
      have entered : Deed.entered ds = [m] := by
        have none : named m.id ((e.act a).1.insertions as) = [] := by
          rw [named, List.filter_eq_nil_iff]
          exact fun k hk e => later (List.mem_map.2 ⟨k, hk, by simpa using e⟩)
        rw [← hent, insertions, only, named, List.filter_append, ← named, ← named, none]
        simp [named]
      rw [absent] at hv hl hrec
      obtain rfl | ⟨k, ds, rfl, _⟩ := Deed.entered_cases hv (by rw [entered]; rfl)
      · cases entered
      · obtain ⟨rfl, rest⟩ := List.cons.inj (show k :: Deed.entered ds = [m] from entered)
        have outputs := Deed.outputs_of_told hv.2 rest (hl.trans hn)
        have heard := (informed_run hr (a :: as) ha hs hu).2
        have told : lastOutputs? k.id ((e.run (a :: as)).2.heard l) =
            lastOutputs? k.id (Deed.told k.id (some k.markDirty) ds) := by
          rw [lastOutputs?, heard, ← lastOutputs?, ← lastOutputs?_filter, Report.filter_events, hrec]
          rfl
        rw [told, outputs]
        exact congrArg _ (hf k (List.mem_append_left _ hm))

end Engine

end Heard

theorem Node.Fresh.outputs {n : Node} (h : n.Fresh) : n.outputs = ∅ := by
  induction h with
  | build => rfl
  | copy h => exact h.elim
  | withId _ _ ih | withParameter _ _ _ ih => exact ih

/-- **What the last event about a node says of it**: each state has an event of its own, a dirty
node and one that computes share theirs, and outputs and errors are as the event has them. -/
structure Node.Mirrored (n : Node) (last : Option NodeEvent) : Prop where
  invalidated : last = some (.invalidated n.id) ↔ n.state = .dirty ∨ ∃ g, n.state = .computing g
  valueChanged : (∃ outputs, last = some (.valueChanged n.id outputs)) ↔ n.state = .clean
  outputs : ∀ outputs, last = some (.valueChanged n.id outputs) → outputs = n.outputs
  failed : (∃ x, last = some (.failed n.id x)) ↔ n.state = .error
  error : ∀ x, last = some (.failed n.id x) → n.lastError = some x
  waiting : (∃ port, last = some (.waiting n.id port)) ↔ n.state = .waiting

theorem NodeEvent.Tells.mirrored {n : Node} {e : NodeEvent} (h : e.Tells n) (hi : e.node = n.id) :
    n.Mirrored (some e) := by
  cases e with
  | invalidated =>
    cases hi
    rcases h with h | ⟨g, h⟩ <;> constructor <;> simp [h]
  | valueChanged | failed =>
    cases hi
    obtain ⟨hs, hv⟩ := h
    constructor <;> simp [hs, hv]
  | waiting =>
    cases hi
    have h : n.state = .waiting := h
    constructor <;> simp [h]

namespace Engine

/-- **What observers know after every run**, at whatever point it ends, if all nodes that come in
are freshly made: the last event about each node tells its state, and the outputs of each node are
those of the last change of its value that there was since it came in, if any. -/
theorem mirrored_run (options : EngineOptions) (files : FileStore) (o : Observers Listener)
    {h : ObserverId} {l : Listener} (hs : (h, l) ∈ o.subscribed) (as : List Action)
    (hu : .unsubscribe h ∉ as) :
    let e : Engine := { new options files with observers := o }
    e.Admissible as → (∀ n ∈ e.insertions as, n.Fresh) →
      ∀ id n, (e.run as).1.graph.node? id = some n →
        n.Mirrored (lastAbout? id ((e.run as).2.heard l)) ∧
          n.outputs = (lastOutputs? id (e.heardSince l id as)).getD ∅ := by
  intro e ha hf id n hn
  have hr : e.AtRest := { atRest_new options files with }
  obtain ⟨ds, hv, hl, hrec, hent, _⟩ := lived_run hr as ha id
  have entered : id ∈ (e.insertions as).map (·.id) := by
    by_contra absent
    have none : Deed.entered ds = [] := by
      rw [← hent, named, List.filter_eq_nil_iff]
      exact fun m hm e => absent (List.mem_map.2 ⟨m, hm, by simpa using e⟩)
    obtain rfl := Deed.eq_nil_of_valid hv none
    cases hl.trans hn
  refine ⟨?_, outputs_of_heardSince hr ha (fun m hm => (hf m hm).outputs) hs hu entered hn⟩
  obtain ⟨x, hx, hi, ht⟩ := Deed.told_tells hv (hl.trans hn)
  have last : lastAbout? id ((e.run as).2.heard l) = some x := by
    rw [lastAbout?_eq, (informed_run hr as ha hs hu).2, ← lastAbout?_eq, lastAbout?,
      Report.filter_events, hrec]
    exact hx
  rw [last]
  refine ht.mirrored (hi.trans ?_)
  exact ((hr.run as ha).sound.id_eq hn).symm

theorem fresh_of_plain {as : List Action} (hp : as.all (·.isPlain) = true) (e : Engine) :
    ∀ n ∈ e.insertions as, n.Fresh := by
  induction as generalizing e with
  | nil => exact fun _ h => nomatch h
  | cons a as ih =>
    rw [List.all_cons, Bool.and_eq_true] at hp
    intro n hn
    rcases List.mem_append.1 hn with hn | hn
    · rcases inserted_of_isPlain hp.1 with hi | ⟨v, _, hi⟩
      · rw [hi] at hn
        cases hn
      · rw [hi] at hn
        rw [List.mem_singleton.1 hn]
        exact .build trivial _ _
    · exact ih hp.2 _ n hn

namespace Relay

/-- An engine with an observer, before any node is there. -/
def observed : Engine :=
  { new .standard Late.noFiles with observers := ⟨1, [(⟨0⟩, .channel "mirror")]⟩ }

/-- The number at the beginning of both arms has come in. -/
def begins : List Action := arms ++ [.deliver [0]]

theorem states_begins :
    (observed.run begins).1.graph.nodeList.map (·.state) = [.clean, .computing 1, .dirty] := by cbv

end Relay

open Relay in
/-- One node has its number, one computes and one has to wait; the observer knows. -/
theorem mirrored_run_begins :
    (observed.run begins).1.graph.nodeList.map (·.state) = [.clean, .computing 1, .dirty] ∧
      ∀ id n, (observed.run begins).1.graph.node? id = some n →
        n.Mirrored (lastAbout? id ((observed.run begins).2.heard (.channel "mirror"))) ∧ n.outputs =
          (lastOutputs? id (observed.heardSince (.channel "mirror") id begins)).getD ∅ :=
  ⟨states_begins, mirrored_run .standard Late.noFiles _ (h := ⟨0⟩) List.mem_cons_self begins
    (by simp [begins, arms]) (admissible_of_all_isPlain rfl) (fresh_of_plain rfl _)⟩

end Engine

end PixelFlow
