import PixelFlow.Engine.Action
import PixelFlow.Proofs.Engine.Schedule
import PixelFlow.Proofs.Graph.Fresh

/-!
# Runs of the engine

An action leaves the engine as it is, apart from what no node depends on, or it opens a wave and
settles it. Between two actions the engine is at rest: its graph is sound, and no node is ready.

* `Action.Admissible`, `Engine.Admissible`: nodes that come in are well-formed and named before.
* **`Engine.act_spec`**: the three ways in which an action ends.
* **`Engine.collect_rest`**: what holds after a batch of deliveries.
* `Engine.AtRest`: sound, known and quiet; **`Engine.AtRest.run`**: every run keeps it.
-/

namespace PixelFlow

/-- Nodes that come in are well-formed, and nobody guesses an identifier that is minted later. -/
def Action.Admissible (e : Engine) : Action → Prop
  | .edit change => change.Admissible e.graph ∧ ∀ n ∈ change.newcomers, n.Known e.stamp
  | _ => True

namespace Wave

/-- **The two ways in which a delivery ends**: the outcome is stored on its node, or it is
dropped. -/
inductive Accepted (w : Wave) (c : Completion) : Wave → Prop
  | applied {n : Node} (hc : w.isCurrent c = true) (hn : w.engine.graph.node? c.node = some n) :
    Accepted w c (((w.received c).tally c.outcome).turn c.node (·.store c.outcome)
      c.outcome.succeeds (Outcome.records n c.outcome))
  | dropped (hc : w.isCurrent c = false) :
    Accepted w c (((w.received c).count fun s => { s with discarded := s.discarded + 1 }).note
      (.discarded c.node c.generation))

variable {w w' : Wave} {c : Completion}

theorem accept_spec (hg : w.engine.graph.Sound) (c : Completion) : Accepted w c (w.accept c) := by
  cases hc : w.isCurrent c with
  | true =>
    obtain ⟨n, hn, _⟩ := isCurrent_iff.1 hc
    rw [accept_eq hg hc hn]
    exact .applied hc hn
  | false =>
    rw [accept_stale hc]
    exact .dropped hc

/-- A delivery is a turn of its node or leaves the graph alone. -/
theorem Accepted.turns (h : Accepted w c w') : w'.engine.graph = w.engine.graph ∨
    ∃ spreads, w'.engine.graph = w.engine.graph.turn c.node (·.store c.outcome) spreads := by
  obtain ⟨cache, e, _⟩ := w.received_eq c
  have hs : (w.received c).engine.graph = w.engine.graph := by rw [e]
  cases h with
  | applied => exact .inr ⟨_, congrArg (Graph.turn · _ _ _) hs⟩
  | dropped => exact .inl hs

theorem Accepted.bare (h : Accepted w c w') : w'.engine.graph.bare = w.engine.graph.bare := by
  rcases h.turns with e | ⟨spreads, e⟩
  · rw [e]
  · rw [e, Graph.bare_turn _ _ fun m => m.bare_store _]

end Wave

namespace Engine

open Wave

/-- All actions are admissible when their turn comes. -/
def Admissible (e : Engine) : List Action → Prop
  | [] => True
  | a :: rest => a.Admissible e ∧ (e.act a).1.Admissible rest

/-! ## One action -/

/-- The engine is as it was, apart from settings, look-ups and stamps. -/
structure Same (e e' : Engine) : Prop where
  graph : e'.graph = e.graph
  jobs : e'.jobs = e.jobs
  options : e'.options = e.options
  files : e'.files = e.files
  cache : ∀ x ∈ e'.cache.entries, x ∈ e.cache.entries
  stamp : e.stamp ≤ e'.stamp
  inFlight : e'.inFlight = e.inFlight

/-- **The ways in which an action ends**: it changes nothing that nodes depend on, it is an
accepted edit, or it delivers jobs. -/
inductive Acted (e : Engine) (a : Action) : Engine × Report → Prop
  | idle {e' : Engine} (hs : e.Same e') (hi : e.inserted a = [])
    (hd : ∀ numbers, a = .deliver numbers → (takeJobs numbers e.jobs).1 = []) :
    Acted e a (e', .empty)
  | edited (change : Edit) (stamp : Nat) {r : Edit.Result} (ha : change.Admissible e.graph)
    (hn : ∀ n ∈ change.newcomers, n.Known stamp) (hs : e.stamp ≤ stamp)
    (hr : e.graph.perform change = .ok r) (hi : e.inserted a = change.newcomers)
    (hd : ∀ numbers, a ≠ .deliver numbers) :
    Acted e a ({ e with stamp := stamp }.opened r).settle
  | delivered {numbers : List Nat} {taken left : List Job} (ha : a = .deliver numbers)
    (ht : takeJobs numbers e.jobs = (taken, left)) :
    Acted e a (collect (e.batch left) taken).settle

theorem Same.refl (e : Engine) : e.Same e := ⟨rfl, rfl, rfl, rfl, fun _ h => h, Nat.le_refl _, rfl⟩

theorem edit_cases (e : Engine) (change : Edit) :
    (∃ r, e.graph.perform change = .ok r ∧ e.attempt (e.edit change) = (e.opened r).settle) ∨
      e.attempt (e.edit change) = (e, .empty) ∧
        ∀ n, change ≠ .addFresh n ∧ ∀ g', change = .add n → e.graph.add n ≠ .ok g' := by
  unfold Engine.edit
  cases hr : e.graph.perform change with
  | error x =>
    refine .inr ⟨rfl, fun n => ⟨?_, fun g' => ?_⟩⟩
    · rintro rfl
      cases hr
    · rintro rfl hadd
      rw [Graph.perform, hadd] at hr
      cases hr
  | ok r =>
    by_cases hf : r.answer = .flag false
    · refine .inr ⟨by simp [bind, Except.bind, hf, attempt, pure, Except.pure], fun n => ?_⟩
      refine ⟨?_, fun g' => ?_⟩
      · rintro rfl
        cases hr
        cases hf
      · rintro rfl hadd
        rw [Graph.perform, hadd] at hr
        cases hr
        cases hf
    · refine .inl ⟨r, rfl, ?_⟩
      simp [bind, Except.bind, hf, attempt, pure, Except.pure]

/-- An edit that is made puts in the nodes that it brings. -/
theorem inserted_of_perform {e : Engine} {change : Edit} {r : Edit.Result}
    (hr : e.graph.perform change = .ok r) : e.inserted (.edit change) = change.newcomers := by
  cases change with
  | add n =>
    cases hadd : e.graph.add n with
    | error x =>
      rw [Graph.perform, hadd] at hr
      cases hr
    | ok g' =>
      rw [inserted, hadd]
      rfl
  | _ => rfl

theorem act_spec {e : Engine} (hg : e.graph.Sound) (hk : e.graph.Known e.stamp) {a : Action}
    (ha : a.Admissible e) : Acted e a (e.act a) := by
  cases a with
  | addVariant v =>
    obtain ⟨hi, hp⟩ := hk.fresh hg v
    have hr : e.graph.perform (.addFresh (.new v e.stamp)) =
        .ok ((e.graph.insert (.new v e.stamp)).performAdd (.new v e.stamp)) := rfl
    refine Acted.edited (.addFresh (.new v e.stamp)) (e.stamp + 1)
      ⟨Node.new_wellFormed v _, hi, hp⟩ (fun n hn => ?_) (Nat.le_succ _) hr rfl
      fun _ => Action.noConfusion
    rw [List.mem_singleton.1 hn]
    exact Node.new_known v _
  | edit change =>
    rcases e.edit_cases change with ⟨r, hr, he⟩ | ⟨he, hn⟩
    · rw [act, he]
      exact .edited change e.stamp ha.1 ha.2 (Nat.le_refl _) hr (inserted_of_perform hr)
        fun _ => Action.noConfusion
    · rw [act, he]
      refine .idle (.refl e) ?_ fun _ => Action.noConfusion
      cases change with
      | add n =>
        rw [inserted]
        split
        · next g' hx => exact ((hn n).2 g' rfl hx).elim
        · rfl
      | addFresh n => exact ((hn n).1 rfl).elim
      | _ => rfl
  | deliver numbers =>
    obtain ⟨taken, left, ht⟩ : ∃ taken left, takeJobs numbers e.jobs = (taken, left) := ⟨_, _, rfl⟩
    rw [act, deliver, ht]
    dsimp only
    split
    · next h =>
      refine .idle (.refl e) rfl fun m hm => ?_
      cases hm
      rw [ht]
      exact List.isEmpty_iff.1 h
    · exact .delivered rfl ht
  | mint =>
    refine .idle ⟨rfl, rfl, rfl, rfl, fun _ h => h, Nat.le_succ _, rfl⟩ rfl ?_
    exact fun _ => Action.noConfusion
  | clearCache =>
    refine .idle ⟨rfl, rfl, rfl, rfl, fun _ h => (List.not_mem_nil h).elim, Nat.le_refl _, rfl⟩
      rfl ?_
    exact fun _ => Action.noConfusion
  | subscribe l =>
    refine .idle ⟨rfl, rfl, rfl, rfl, fun _ h => h, Nat.le_refl _, rfl⟩ rfl ?_
    exact fun _ => Action.noConfusion
  | unsubscribe id =>
    refine .idle ⟨rfl, rfl, rfl, rfl, fun _ h => h, Nat.le_refl _, rfl⟩ rfl ?_
    exact fun _ => Action.noConfusion

/-! ## Deliveries -/

/-- **What every delivery keeps, while its job goes off the list of those to come, a batch of
deliveries keeps.** -/
theorem collect_rest {P : List Job → Wave → Prop} {w : Wave} {jobs : List Job}
    (hg : w.engine.graph.Sound) (h : P jobs w)
    (step : ∀ {v v' : Wave} {j : Job} {rest : List Job}, v.engine.graph.Sound →
      Accepted v (j.complete v.engine.files) v' → P (j :: rest) v → P rest v') :
    P [] (collect w jobs) := by
  induction jobs generalizing w with
  | nil => exact h
  | cons j jobs ih =>
    have ha := accept_spec hg (j.complete w.engine.files)
    exact ih (hg.of_bare ha.bare) (step hg ha h)

/-- What every delivery keeps, a batch of deliveries keeps. -/
theorem collect_induction {P : Wave → Prop} {w : Wave} (hg : w.engine.graph.Sound) (h : P w)
    (jobs : List Job)
    (step : ∀ {v v' : Wave} {j : Job}, j ∈ jobs → v.engine.graph.bare = w.engine.graph.bare →
      v.engine.graph.Sound → Accepted v (j.complete v.engine.files) v' → P v → P v') :
    P (collect w jobs) := by
  let Q (rest : List Job) (v : Wave) : Prop :=
    (∀ j ∈ rest, j ∈ jobs) ∧ v.engine.graph.bare = w.engine.graph.bare ∧ P v
  have first : Q jobs w := ⟨fun _ h => h, rfl, h⟩
  refine (collect_rest hg first fun hs ha ⟨hl, hv, h⟩ => ?_).2.2
  obtain ⟨hj, hl⟩ := List.forall_mem_cons.1 hl
  exact ⟨hl, ha.bare.trans hv, step hj hv hs ha h⟩

theorem bare_collect {w : Wave} (hg : w.engine.graph.Sound) (jobs : List Job) :
    (collect w jobs).engine.graph.bare = w.engine.graph.bare :=
  collect_induction (P := fun v => v.engine.graph.bare = w.engine.graph.bare) hg rfl jobs
    fun _ _ _ ha h => ha.bare.trans h

/-! ## Stamps, files and options -/

/-- Stamps only go up, and files and options never change. -/
structure Onward (e e' : Engine) : Prop where
  stamp : e.stamp ≤ e'.stamp
  files : e'.files = e.files
  options : e'.options = e.options

theorem Onward.refl (e : Engine) : e.Onward e := ⟨Nat.le_refl _, rfl, rfl⟩

theorem Onward.trans {e₁ e₂ e₃ : Engine} (h : e₁.Onward e₂) (h' : e₂.Onward e₃) : e₁.Onward e₃ :=
  ⟨h.stamp.trans h'.stamp, h'.files.trans h.files, h'.options.trans h.options⟩

end Engine

namespace Wave

variable {w w' : Wave} {c : Completion} {id : NodeId} {n : Node}

theorem Dispatched.onward (h : Dispatched w id n w') : w.engine.Onward w'.engine := by
  cases h with
  | waits | refused | remembered => exact ⟨Nat.le_refl _, rfl, rfl⟩
  | inline | submitted => exact ⟨Nat.le_succ _, rfl, rfl⟩

theorem Accepted.onward (h : Accepted w c w') : w.engine.Onward w'.engine := by
  obtain ⟨cache, e, _⟩ := w.received_eq c
  have hr : w.engine.Onward (w.received c).engine := by
    rw [e]
    exact ⟨Nat.le_refl _, rfl, rfl⟩
  cases h with
  | applied => exact ⟨hr.stamp, hr.files, hr.options⟩
  | dropped => exact ⟨hr.stamp, hr.files, hr.options⟩

theorem onward_schedule (hg : w.engine.graph.Sound) : w.engine.Onward w.schedule.engine :=
  schedule_induction (P := fun v => w.engine.Onward v.engine) hg (.refl _)
    fun _ _ _ _ hd h => h.trans hd.onward

theorem onward_collect (hg : w.engine.graph.Sound) (jobs : List Job) :
    w.engine.Onward (Engine.collect w jobs).engine :=
  Engine.collect_induction (P := fun v => w.engine.Onward v.engine) hg (.refl _) jobs
    fun _ _ _ ha h => h.trans ha.onward

end Wave

namespace Engine

open Wave

/-! ## Rest -/

/-- **The engine is at rest**: its graph is sound, what it names was named before its stamp, and
no node is ready. -/
structure AtRest (e : Engine) : Prop where
  sound : e.graph.Sound
  known : e.graph.Known e.stamp
  quiet : e.graph.Quiet

theorem atRest_new (options : EngineOptions) (files : FileStore) : (new options files).AtRest where
  sound := Graph.sound_empty
  known := Graph.known_empty _
  quiet := fun _ ⟨⟨_, h, _⟩, _⟩ => nomatch h

theorem known_of_bare {g h : Graph} (e : h.bare = g.bare) {stamp : Nat} (hk : g.Known stamp) :
    h.Known stamp := by
  intro id n hn
  obtain ⟨m, hm, hb⟩ := Graph.node?_of_bare e hn
  have hm := hk id m hm
  have : m.bare.Known stamp := ⟨hm.id, hm.ports⟩
  rw [hb] at this
  exact ⟨this.id, this.ports⟩

/-- A wave that starts from a sound graph settles at rest. -/
theorem atRest_settle {w : Wave} (hg : w.engine.graph.Sound)
    (hk : w.engine.graph.Known w.engine.stamp) : w.settle.1.AtRest where
  sound := hg.of_bare (bare_schedule hg)
  known := (known_of_bare (bare_schedule hg) hk).mono (onward_schedule hg).stamp
  quiet := quiet_schedule hg

theorem AtRest.act {e : Engine} (h : e.AtRest) {a : Action} (ha : a.Admissible e) :
    (e.act a).1.AtRest := by
  have hs := act_spec h.sound h.known ha
  generalize e.act a = x at hs ⊢
  cases hs with
  | idle hs =>
    refine ⟨?_, ?_, ?_⟩
    · rw [hs.graph]
      exact h.sound
    · rw [hs.graph]
      exact h.known.mono hs.stamp
    · rw [hs.graph]
      exact h.quiet
  | edited change stamp ha hn hst hr =>
    have hv := h.sound.perform ha hr
    exact atRest_settle (w := { e with stamp := stamp }.opened _) hv.sound
      (hv.known (h.known.mono hst) hn)
  | @delivered _ taken left _ ht =>
    have hc := bare_collect (w := e.batch left) h.sound taken
    refine atRest_settle (h.sound.of_bare hc) ?_
    exact (known_of_bare hc h.known).mono (onward_collect (w := e.batch left)
      h.sound taken).stamp

/-! ## Outstanding jobs -/

/-- Every outstanding job is taken or left. -/
theorem takeJobs_perm {numbers : List Nat} {jobs taken left : List Job}
    (h : takeJobs numbers jobs = (taken, left)) : jobs.Perm (taken ++ left) := by
  induction numbers generalizing jobs taken left with
  | nil =>
    cases h
    exact .refl _
  | cons k numbers ih =>
    rw [takeJobs] at h
    split at h
    · exact ih h
    · next j hj =>
      obtain ⟨taken', left', ht⟩ : ∃ taken' left',
          takeJobs numbers (jobs.eraseP (·.number == k)) = (taken', left') := ⟨_, _, rfl⟩
      rw [ht] at h
      cases h
      exact (perm_cons_eraseP hj).trans ((ih ht).cons j)

/-- If no job is taken, all are left. -/
theorem takeJobs_nil {numbers : List Nat} {jobs left : List Job}
    (h : takeJobs numbers jobs = ([], left)) : left = jobs := by
  induction numbers with
  | nil => cases h; rfl
  | cons k numbers ih =>
    rw [takeJobs] at h
    split at h
    · exact ih h
    · cases h

/-- The engine counts the jobs that have not delivered. -/
def Counted (e : Engine) : Prop := e.inFlight = e.jobs.length

end Engine

namespace Wave

variable {w w' : Wave} {c : Completion} {id : NodeId} {n : Node}

theorem Dispatched.counted (h : Dispatched w id n w') : ∃ k,
    w'.engine.inFlight = w.engine.inFlight + k ∧
      w'.engine.jobs.length = w.engine.jobs.length + k := by
  cases h with
  | submitted => exact ⟨1, rfl, List.length_append⟩
  | _ => exact ⟨0, rfl, rfl⟩

theorem counted_schedule (hg : w.engine.graph.Sound) (hc : w.engine.Counted) :
    w.schedule.engine.Counted :=
  schedule_induction (P := fun v => v.engine.Counted) hg hc fun _ _ _ _ hd h => by
    obtain ⟨k, hi, hj⟩ := hd.counted
    rw [Engine.Counted, hi, hj, h]

theorem Accepted.inFlight (h : Accepted w c w') :
    w'.engine.inFlight = w.engine.inFlight - 1 ∧ w'.engine.jobs = w.engine.jobs := by
  obtain ⟨cache, e, _⟩ := w.received_eq c
  cases h with
  | applied => rw [e]; exact ⟨rfl, rfl⟩
  | dropped => rw [e]; exact ⟨rfl, rfl⟩

theorem inFlight_collect (hg : w.engine.graph.Sound) (jobs : List Job) :
    (Engine.collect w jobs).engine.inFlight = w.engine.inFlight - jobs.length ∧
      (Engine.collect w jobs).engine.jobs = w.engine.jobs := by
  induction jobs generalizing w with
  | nil => exact ⟨rfl, rfl⟩
  | cons j jobs ih =>
    have ha := accept_spec hg (j.complete w.engine.files)
    obtain ⟨hi, hj⟩ := ih (hg.of_bare ha.bare)
    refine ⟨hi.trans ?_, hj.trans ha.inFlight.2⟩
    rw [ha.inFlight.1, List.length_cons]
    omega

end Wave

namespace Engine

open Wave

theorem Counted.act {e : Engine} (h : e.AtRest) (hc : e.Counted) {a : Action}
    (ha : a.Admissible e) : (e.act a).1.Counted := by
  have hs := act_spec h.sound h.known ha
  generalize e.act a = x at hs ⊢
  cases hs with
  | idle hs => rw [Counted, hs.inFlight, hs.jobs, hc]
  | edited change stamp ha hn hst hr =>
    have hv := h.sound.perform ha hr
    exact counted_schedule (w := { e with stamp := stamp }.opened _) hv.sound hc
  | @delivered _ taken left _ ht =>
    have hb := bare_collect (w := e.batch left) h.sound taken
    have hi := inFlight_collect (w := e.batch left) h.sound taken
    refine counted_schedule (h.sound.of_bare hb) ?_
    have hl := (takeJobs_perm ht).length_eq
    rw [List.length_append] at hl
    rw [Counted, hi.1, hi.2]
    show e.inFlight - taken.length = left.length
    rw [hc]
    omega

theorem Counted.run {e : Engine} (h : e.AtRest) (hc : e.Counted) (as : List Action)
    (ha : e.Admissible as) : (e.run as).1.Counted := by
  induction as generalizing e with
  | nil => exact hc
  | cons a as ih => exact ih (h.act ha.1) (hc.act h ha.1) ha.2

/-! ## Runs in parts -/

theorem run_append (e : Engine) (as bs : List Action) :
    (e.run (as ++ bs)).1 = ((e.run as).1.run bs).1 := by
  induction as generalizing e with
  | nil => rfl
  | cons a as ih => exact ih _

theorem insertions_append (e : Engine) (as bs : List Action) :
    e.insertions (as ++ bs) = e.insertions as ++ (e.run as).1.insertions bs := by
  induction as generalizing e with
  | nil => rfl
  | cons a as ih =>
    rw [List.cons_append, insertions, ih, insertions, List.append_assoc]
    rfl

theorem admissible_append {e : Engine} (as bs : List Action) :
    e.Admissible (as ++ bs) ↔ e.Admissible as ∧ (e.run as).1.Admissible bs := by
  induction as generalizing e with
  | nil => exact (and_iff_right trivial).symm
  | cons a as ih =>
    rw [List.cons_append, Admissible, ih, Admissible, and_assoc]
    rfl

/-- **Between actions the engine is at rest.** -/
theorem AtRest.run {e : Engine} (h : e.AtRest) (as : List Action) (ha : e.Admissible as) :
    (e.run as).1.AtRest := by
  induction as generalizing e with
  | nil => exact h
  | cons a as ih => exact ih (h.act ha.1) ha.2

theorem AtRest.onward_act {e : Engine} (h : e.AtRest) {a : Action} (ha : a.Admissible e) :
    e.Onward (e.act a).1 := by
  have hs := act_spec h.sound h.known ha
  generalize e.act a = x at hs ⊢
  cases hs with
  | idle hs => exact ⟨hs.stamp, hs.files, hs.options⟩
  | edited change stamp ha hn hst hr =>
    have hv := h.sound.perform ha hr
    have ho := onward_schedule (w := { e with stamp := stamp }.opened _) hv.sound
    exact ⟨hst.trans ho.stamp, ho.files, ho.options⟩
  | @delivered _ taken left _ ht =>
    have hc := onward_collect (w := e.batch left) h.sound taken
    have hb := bare_collect (w := e.batch left) h.sound taken
    have ho := hc.trans (onward_schedule (h.sound.of_bare hb))
    exact ⟨ho.stamp, ho.files, ho.options⟩

/-- **In a run stamps only go up, and files and options never change.** -/
theorem AtRest.onward_run {e : Engine} (h : e.AtRest) (as : List Action) (ha : e.Admissible as) :
    e.Onward (e.run as).1 := by
  induction as generalizing e with
  | nil => exact .refl e
  | cons a as ih => exact (h.onward_act ha.1).trans (ih (h.act ha.1) ha.2)

end Engine

end PixelFlow
