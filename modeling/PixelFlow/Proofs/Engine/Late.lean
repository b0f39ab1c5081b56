import PixelFlow.Proofs.Engine.History
import Mathlib

/-!
# Late results

A background compute is known by the name of its node and a generation. Its result is stored only
while the node awaits it, which is to say that the last thing recorded about the node is that this
very compute began. All other results are dropped.

* `Wave.Dropped`: what a delivery changes that is dropped.
* `Engine.DropsLate`: what is true of late results in a run.
* **`Engine.late_results_dropped`**: if no name comes twice, late results are harmless.
-/

namespace PixelFlow

namespace Wave

/-- **The delivery leaves all nodes and links alone, emits no event and begins no compute.** What
changes is the number of jobs in flight, the count of dropped results and, if the result is a
success that may be remembered, the cache. -/
def Dropped (w : Wave) (c : Completion) (w' : Wave) : Prop :=
  0 < w.engine.inFlight ∧ ∃ cache, w' =
    { engine := { w.engine with
        inFlight := w.engine.inFlight - 1
        stats.discarded := w.engine.stats.discarded + 1
        cache := cache }
      log := w.log ++ [.note (.discarded c.node c.generation)] } ∧
    (cache = w.engine.cache ∨ ∃ key outputs, c.key = some key ∧ c.outcome = .ok outputs ∧
      cache = w.engine.cache.put ⟨key, outputs, 0⟩)

theorem dropped_of_not_current {w : Wave} {c : Completion} (hi : 0 < w.engine.inFlight)
    (hc : w.isCurrent c = false) : w.Dropped c (w.accept c) := by
  obtain ⟨cache, e, h⟩ := w.received_eq c
  refine ⟨hi, cache, ?_, h.imp_right fun ⟨key, outputs, hk, ho, _, h⟩ => ⟨key, outputs, hk, ho, h⟩⟩
  rw [accept_stale hc, e]
  rfl

end Wave

namespace Engine

open Wave

/-- The wave in which jobs before some job of a batch have been delivered. -/
def midway (e : Engine) (left pre : List Job) : Wave := collect (e.batch left) pre

section Midway

variable {e : Engine} {left pre : List Job}

theorem midway_inFlight (h : e.AtRest) (hc : e.Counted) {numbers : List Nat} {post : List Job}
    {j : Job} (ht : takeJobs numbers e.jobs = (pre ++ j :: post, left)) :
    0 < (e.midway left pre).engine.inFlight := by
  have hl := (takeJobs_perm ht).length_eq
  rw [List.length_append, List.length_append, List.length_cons] at hl
  have hi := (inFlight_collect (w := e.batch left) h.sound pre).1
  show 0 < (collect (e.batch left) pre).engine.inFlight
  rw [hi]
  show 0 < e.inFlight - pre.length
  rw [hc]
  omega

/-- Up to the middle of a batch, a run is a life of each node. -/
theorem lived_midway {e₀ : Engine} (h : e₀.AtRest) (as : List Action) (ha : e₀.Admissible as)
    (left pre : List Job) (id : NodeId) : ∃ tags, Lived id (e₀.graph.node? id)
      ((e₀.run as).2.log ++ ((e₀.run as).1.midway left pre).log) (e₀.insertions as) tags
      (((e₀.run as).1.midway left pre).engine.graph.node? id) := by
  obtain ⟨log, hlog, hl⟩ := lived_collect (w := (e₀.run as).1.batch left)
    (h.run as ha).sound pre id
  have := (lived_run h as ha id).trans hl
  rw [List.append_nil] at this
  exact ⟨_, by rw [midway, hlog]; exact this⟩

end Midway

/-- A name that comes once among nodes is the name of one of them. -/
theorem length_named_le {ns : List Node} (h : (ns.map (·.id)).Nodup) (id : NodeId) :
    (named id ns).length ≤ 1 := by
  have hc := List.nodup_iff_count_le_one.1 h id
  rwa [List.count, List.countP_map, List.countP_eq_length_filter] at hc

/-- **A completion is awaited iff its node is there and the last record about the node is that this
very compute began.** -/
theorem isCurrent_iff_lastRecord {id : NodeId} {log : List Record} {new : List Node}
    {tags : List Tag} {w : Wave} (h : Lived id none log new tags (w.engine.graph.node? id))
    {c : Completion} (hc : c.node = id) : w.isCurrent c = true ↔
      (∃ n, w.engine.graph.node? id = some n) ∧
        lastRecord? id log = some (.note (.dispatched id c.generation)) := by
  subst hc
  obtain ⟨ds, hv, hlife, hl, _⟩ := h
  have shows : ∀ {n}, w.engine.graph.node? c.node = some n →
      ∃ r, lastRecord? c.node log = some r ∧ r.Shows n := fun hn => by
    rw [lastRecord?, hl]
    exact Deed.trace_shows (hlife.trans hn)
  rw [isCurrent_iff]
  constructor
  · rintro ⟨n, hn, hg, hs⟩
    obtain ⟨r, hr, hsh⟩ := shows hn
    obtain ⟨_, id, rfl⟩ := Deed.computing_eq hsh hs
    refine ⟨⟨n, hn⟩, ?_⟩
    have hm := List.mem_of_getLast? hr
    have := (List.mem_filter.1 hm).2
    rw [hr]
    simpa [Record.subject?] using this
  · rintro ⟨⟨n, hn⟩, hlast⟩
    obtain ⟨r, hr, hsh⟩ := shows hn
    rw [hlast] at hr
    cases hr
    exact ⟨n, hn, hsh.2, hsh.1⟩

/-- A background compute of one generation is begun once. -/
theorem count_dispatched_le {id : NodeId} {log : List Record} {new : List Node} {tags : List Tag}
    {o : Option Node} (h : Lived id none log new tags o) (hn : (named id new).length ≤ 1) (g : Nat) :
    log.count (.note (.dispatched id g)) ≤ 1 := by
  obtain ⟨ds, hv, _, hl, he, _⟩ := h
  have hs := Deed.started_sorted hv (he ▸ hn)
  have hc : log.count (.note (.dispatched id g)) =
      (Deed.trace id none ds).count (.note (.dispatched id g)) := by
    rw [← hl, recordsOf, List.count_filter (by simp [Record.subject?])]
  have hle : (Deed.trace id none ds).count (.note (.dispatched id g)) ≤
      (Deed.started id none ds).count g := by
    rw [Deed.started, List.count, List.count, List.countP_filterMap]
    refine List.countP_mono_left fun r _ hr => ?_
    rw [beq_iff_eq] at hr
    subst hr
    simp [Deed.dispatched?]
  rw [hc]
  exact hle.trans (List.nodup_iff_count_le_one.1 (hs.imp Nat.ne_of_lt) g)

/-! ## Batches that come too late -/

/-- A batch of completions that nobody awaits changes counts and the cache only. -/
theorem collect_stale {w : Wave} (jobs : List Job)
    (h : ∀ j ∈ jobs, w.isCurrent (j.complete w.engine.files) = false) : ∃ cache,
    collect w jobs =
      { engine := { w.engine with
          inFlight := w.engine.inFlight - jobs.length
          stats.discarded := w.engine.stats.discarded + jobs.length
          cache := cache }
        log := w.log ++ jobs.map fun j => .note (.discarded j.node j.generation) } ∧
    ((∀ j ∈ jobs, j.key = none ∨ ∃ x, (j.complete w.engine.files).outcome = .error x) →
      cache = w.engine.cache) := by
  induction jobs generalizing w with
  | nil => exact ⟨w.engine.cache, by simp [collect], fun _ => rfl⟩
  | cons j jobs ih =>
    obtain ⟨cache, e, hc⟩ := w.received_eq (j.complete w.engine.files)
    have ha : w.accept (j.complete w.engine.files) =
        { engine := { w.engine with
            inFlight := w.engine.inFlight - 1
            stats.discarded := w.engine.stats.discarded + 1
            cache := cache }
          log := w.log ++ [.note (.discarded j.node j.generation)] } := by
      rw [accept_stale (h j (by simp)), e]
      rfl
    obtain ⟨cache', e', hc'⟩ := ih (w := w.accept (j.complete w.engine.files)) fun k hk => by
      rw [ha]
      exact h k (by simp [hk])
    refine ⟨cache', ?_, fun hs => ?_⟩
    · refine (show collect w (j :: jobs) = _ from e').trans ?_
      rw [ha]
      simp [Nat.sub_sub, Nat.add_comm 1, Nat.add_assoc]
    · rw [ha] at hc'
      rw [hc' fun k hk => hs k (by simp [hk])]
      refine hc.resolve_right ?_
      rintro ⟨key, outputs, hk, ho, _⟩
      rcases hs j (by simp) with hn | ⟨x, hx⟩
      · rw [show (j.complete w.engine.files).key = j.key from rfl, hn] at hk
        cases hk
      · rw [ho] at hx
        cases hx

/-- **An action that delivers only what nobody awaits changes counts and the cache only: it emits
no event and begins no compute.** -/
theorem deliver_stale {e : Engine} (h : e.AtRest) {numbers : List Nat} {taken left : List Job}
    (ht : takeJobs numbers e.jobs = (taken, left))
    (hs : ∀ j ∈ taken, (e.batch left).isCurrent (j.complete e.files) = false) : ∃ cache,
    (e.deliver numbers).1 = { e with
      jobs := left
      inFlight := e.inFlight - taken.length
      stats.discarded := e.stats.discarded + taken.length
      cache := cache } ∧
    (e.deliver numbers).2.events = [] ∧ (e.deliver numbers).2.deliveries = [] ∧
    ((∀ j ∈ taken, j.key = none ∨ ∃ x, (j.complete e.files).outcome = .error x) →
      cache = e.cache) := by
  cases taken with
  | nil =>
    have hd : e.deliver numbers = (e, .empty) := by
      rw [deliver, ht]
      rfl
    rw [hd, takeJobs_nil ht]
    exact ⟨e.cache, rfl, rfl, rfl, fun _ => rfl⟩
  | cons j taken =>
    obtain ⟨cache, ec, hc⟩ := collect_stale (w := e.batch left) (j :: taken) hs
    have hd : e.deliver numbers = (collect (e.batch left) (j :: taken)).settle := by
      rw [deliver, ht]
      rfl
    have hq := schedule_of_quiet (w := collect (e.batch left) (j :: taken))
      (by rw [ec]; exact h.sound) (by rw [ec]; exact h.quiet)
    have hev : (collect (e.batch left) (j :: taken)).events = [] := by
      rw [ec]
      simp [events, batch, Record.event?]
    refine ⟨cache, ?_, ?_, ?_, hc⟩
    · rw [hd, settle, hq, ec]
      rfl
    · rw [hd]
      show (collect (e.batch left) (j :: taken)).schedule.events = []
      rw [hq, hev]
    · rw [hd]
      show Observers.deliveries _ (collect (e.batch left) (j :: taken)).schedule.events = []
      rw [hq, hev]
      rfl

/-! ## Late results in a run -/

namespace Late

/-- A background compute that puts out its parameter. -/
def echo : Variant where
  metadata :=
    { id := "echo"
      name := "Echo"
      category := .custom
      description := ""
      ports := [.source "out" .number ""]
      parameters := [⟨"value", .number 1, "", []⟩]
      execution := .asynchronous
      cacheable := false }
  compute := do Compute.setOutput "out" (.number (← Compute.ask (·.number "value")))

/-- No path can be read. -/
def noFiles : FileStore := ⟨fun _ => .error "", fun _ => none⟩

/-- The parameter of a node is set while it computes. -/
def changed : List Action :=
  [.addVariant echo, .edit (.setParameters ⟨.mint 0 0⟩ (.ofList [("value", .number 2)]))]

end Late

/-- **What is true of late results in a run.** -/
structure DropsLate (e₀ : Engine) (as : List Action) : Prop where
  /-- Each node receives results of ever later generations. -/
  sorted : ∀ id, (generationsOf id (e₀.applied as)).Pairwise (· < ·)
  /-- The counter of a node never goes down. -/
  counter : ∀ {bs cs id m n}, as = bs ++ cs → (e₀.run bs).1.graph.node? id = some m →
    (e₀.run as).1.graph.node? id = some n → m.generation ≤ n.generation
  /-- A result that is stored is that of the latest compute of its node, and nothing has been
  recorded about the node since that compute began. -/
  latest : ∀ {numbers pre j post left}, takeJobs numbers (e₀.run as).1.jobs =
      (pre ++ j :: post, left) →
    let w := (e₀.run as).1.midway left pre
    let log := (e₀.run as).2.log ++ w.log
    let start : Record := .note (.dispatched j.node j.generation)
    w.isCurrent (j.complete w.engine.files) = true →
      (∃ n, w.engine.graph.node? j.node = some n ∧ n.generation = j.generation ∧
        n.state = .computing j.generation) ∧
      lastRecord? j.node log = some start ∧ log.count start = 1
  /-- Any other result is dropped. -/
  dropped : ∀ {numbers pre j post left}, takeJobs numbers (e₀.run as).1.jobs =
      (pre ++ j :: post, left) →
    let w := (e₀.run as).1.midway left pre
    let c := j.complete w.engine.files
    w.isCurrent c = false → w.Dropped c (w.accept c)
  /-- An action that delivers no other results begins no compute and emits no event. -/
  idle : ∀ {numbers taken left}, takeJobs numbers (e₀.run as).1.jobs = (taken, left) →
    let e := (e₀.run as).1
    (∀ j ∈ taken, (e.batch left).isCurrent (j.complete e.files) = false) → ∃ cache,
      (e.deliver numbers).1 = { e with
        jobs := left
        inFlight := e.inFlight - taken.length
        stats.discarded := e.stats.discarded + taken.length
        cache := cache } ∧
      (e.deliver numbers).2.events = [] ∧ (e.deliver numbers).2.deliveries = [] ∧
      ((∀ j ∈ taken, j.key = none ∨ ∃ x, (j.complete e.files).outcome = .error x) →
        cache = e.cache)

/-- **If no name comes twice among the nodes that come in, a result is stored only if it is that
of the latest compute of its node and the node has not been touched since, and all other results
are dropped without a trace.** -/
theorem late_results_dropped (options : EngineOptions) (files : FileStore) (as : List Action)
    (ha : (new options files).Admissible as)
    (hu : (((new options files).insertions as).map (·.id)).Nodup) :
    (new options files).DropsLate as := by
  have h₀ := atRest_new options files
  have h := h₀.run as ha
  have hlen := fun id => length_named_le hu id
  have hnone : ∀ id, (new options files).graph.node? id = none := fun _ => rfl
  refine ⟨fun id => ?_, fun {bs cs id m n} e hm hn => ?_, fun {_ pre j _ left} ht => ?_,
    fun {_ pre j _ left} ht => ?_, fun ht => deliver_stale h ht⟩
  · obtain ⟨ds, hv, _, _, he, hg⟩ := lived_run h₀ as ha id
    rw [hg]
    exact Deed.received_sorted hv (he ▸ hlen id)
  · subst e
    obtain ⟨hb, hc⟩ := (admissible_append bs cs).1 ha
    obtain ⟨ds, hv, hlife, _, he, _⟩ := lived_run h₀ bs hb id
    obtain ⟨ds', hv', hlife', _, he', _⟩ := lived_run (h₀.run bs hb) cs hc id
    rw [hnone] at hv hlife
    obtain ⟨k, hk, _⟩ := Deed.entered_lt hv (hlife.trans hm)
    have hz : Deed.entered ds' = [] := by
      have := hlen id
      rw [insertions_append, named, List.filter_append, List.length_append, ← named, ← named, he,
        he'] at this
      have := List.length_pos_of_mem hk
      exact List.eq_nil_of_length_eq_zero (by omega)
    rw [hm] at hv' hlife'
    rw [run_append] at hn
    exact (Deed.steady hv' hz).life n (hlife'.trans hn)
  · dsimp only
    intro hcur
    obtain ⟨tags, hl⟩ := lived_midway h₀ as ha left pre j.node
    obtain ⟨n, hn, hg, hs⟩ := isCurrent_iff.1 hcur
    have hlast := ((isCurrent_iff_lastRecord hl rfl).1 hcur).2
    refine ⟨⟨n, hn, hg, hs⟩, hlast, Nat.le_antisymm (count_dispatched_le hl (hlen _) _) ?_⟩
    exact List.count_pos_iff.2 (List.mem_of_mem_filter (List.mem_of_getLast? hlast))
  · exact dropped_of_not_current (midway_inFlight h (Counted.run h₀ rfl as ha) ht)

/-- Two generations of one node are under way. -/
theorem late_results_dropped_changed :
    ((new .standard Late.noFiles).run Late.changed).1.jobs.map (·.generation) = [1, 2] ∧
      (new .standard Late.noFiles).DropsLate Late.changed := by
  refine ⟨by cbv, late_results_dropped .standard Late.noFiles Late.changed ?_ ?_⟩
  · exact ⟨trivial, ⟨trivial, fun _ h => (List.not_mem_nil h).elim⟩, trivial⟩
  · exact List.nodup_singleton _

end Engine

end PixelFlow
