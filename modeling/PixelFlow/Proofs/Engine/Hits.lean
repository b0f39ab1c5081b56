import PixelFlow.Proofs.Engine.Typed

/-!
# Answers from the cache

A background compute that is answered from the cache is not run, nor are its outputs checked. The
key names the variant by its identifier only. Where an identifier means one variant, the answer is
what the compute of the node comes to; where it means two, it may be what the other one came to.

* `Dispatch.Hit`: a dispatch that is answered from the cache.
* `Engine.HitsSound`: all answers are what the computes of the nodes come to.
* **`Engine.hits_sound_run`**: so they are if no two variants have one identifier.
* `Engine.not_hitsSound`: a run of two variants of one identifier in which one answer is not.
-/

namespace PixelFlow

open Wave

/-- **The dispatch is answered from the cache**: all is ready for a background compute of the node,
and the outputs are found under its key. -/
structure Dispatch.Hit (d : Dispatch) (n : Node) (inputs outputs : Table String Value) : Prop where
  node : d.wave.engine.graph.node? d.node = some n
  ready : d.wave.engine.graph.inputs n = .ok inputs
  accepted : n.metadata.checkParameters d.node n.parameters = .ok ()
  background : n.isAsynchronous = true
  found : ∃ key, d.wave.cacheKey? n inputs = some key ∧
    (d.wave.engine.cache.get key).1 = some outputs

/-- **The answers from the cache are sound in a run**: the outputs that are stored are what the
compute of the node itself comes to on its parameters and inputs, whatever its stamp, apart from the
revisions of images; and there is one for each source port, of its type. -/
def Engine.HitsSound (e : Engine) (as : List Action) : Prop :=
  ∀ d ∈ e.dispatches as, ∀ n inputs outputs, d.Hit n inputs outputs →
    (d.wave.dispatch d.node).engine.graph.node? d.node = some (n.store (.ok outputs)) ∧
    (∀ stamp, Outcome.Match Image.Alike True (.ok outputs)
      (n.variant.run (n.context inputs stamp d.wave.engine.files))) ∧
    n.Fitting (n.store (.ok outputs)).outputs

variable {P : Palette}

/-- **A hit stores what was found.** -/
theorem Dispatch.Hit.stored {d : Dispatch} {n : Node} {inputs outputs : Table String Value}
    (h : d.Hit n inputs outputs) (hg : d.wave.engine.graph.Sound) :
    (d.wave.dispatch d.node).engine.graph.node? d.node = some (n.store (.ok outputs)) := by
  obtain ⟨key, hk, hf⟩ := h.found
  have hid := hg.id_eq h.node
  have hn : ((d.wave.hit key).note (.remembered n.id n.metadata.id)).engine.graph.node? n.id =
      some n := hid ▸ h.node
  have dispatch : d.wave.dispatch d.node =
      ((d.wave.hit key).note (.remembered n.id n.metadata.id)).apply n.id (.ok outputs) := by
    unfold Wave.dispatch
    rw [h.node]
    dsimp only
    rw [h.ready]
    dsimp only
    rw [h.accepted]
    dsimp only
    rw [if_pos h.background, runBackground, hk]
    dsimp only
    rw [hf]
    rfl
  rw [dispatch, apply_eq (w := (d.wave.hit key).note (.remembered n.id n.metadata.id)) hg hn]
  show (d.wave.engine.graph.turn n.id _ _).node? d.node = _
  rw [Graph.node?_turn hg, if_pos hid, h.node]
  rfl

/-! ## Ports -/

/-- The ports of all nodes are those of their variants. -/
def Graph.Declared (g : Graph) : Prop := ∀ id n, g.node? id = some n → n.OfVariant

namespace Graph.Declared

variable {g g' : Graph}

theorem of_bare (h : g.Declared) (e : g'.bare = g.bare) : g'.Declared := by
  intro id n hn
  obtain ⟨m, hm, hb⟩ := node?_of_bare e hn
  have hv := congrArg Node.variant hb
  have hp := congrArg Node.ports hb
  exact (h id m hm).congr hv.symm hp.symm

theorem revises (h : g.Declared) {new : List Node} {touched : List NodeId}
    (hr : g.Revises new g' touched) (hb : ∀ n ∈ new, n.OfVariant) : g'.Declared := by
  intro id n hn
  by_cases ht : id ∈ touched
  · obtain ⟨n', hn', _, ⟨_, m, hm, _, rfl⟩ | ⟨m, ps, hm, rfl⟩⟩ := hr.dirty ht <;>
      obtain rfl := Option.some.inj (hn.symm.trans hn')
    · exact (hb m hm).congr rfl rfl
    · exact (h id m hm).congr rfl rfl
  · exact h id n (hr.kept ht hn)

end Graph.Declared

theorem Node.Derived.ofVariant {n : Node} {held : Node → Prop} (h : n.Derived P held)
    (hh : ∀ m, held m → m.OfVariant) : n.OfVariant := by
  induction h with
  | @build v _ id portId => exact .build v id portId
  | copy h => exact hh _ h
  | withId _ id ih => exact ih.withId id
  | withParameter _ name v ih => exact ih.congr rfl rfl

/-! ## Runs -/

/-- Nodes have the ports of their variants, and what is remembered is genuine. -/
def Engine.Reliable (P : Palette) (seen : Image → Prop) (e : Engine) : Prop :=
  e.graph.Declared ∧ ∃ seen' : Image → Prop, (∀ i, seen i → seen' i) ∧ e.Genuine P seen' []

namespace Engine

variable {seen : Image → Prop} {e : Engine} {w : Wave} {a : Action}

theorem genuine_collect {taken : List Job} (hg : w.engine.graph.Sound)
    (h : w.engine.Genuine P seen taken) : (collect w taken).engine.Genuine P seen [] :=
  collect_rest (P := fun rest v => v.engine.Genuine P seen rest) hg h
    fun hv ha h => ha.genuine hv h

/-- Every dispatch keeps an engine reliable. -/
theorem Reliable.dispatched {w' : Wave} {id : NodeId} {n : Node} (h : w.engine.Reliable P seen)
    (hg : w.engine.graph.Sound) (hn : w.engine.graph.node? id = some n)
    (hd : Dispatched w id n w') : w'.engine.Reliable P seen := by
  obtain ⟨hp, seen₁, hs₁, h⟩ := h
  obtain ⟨seen₂, hs₂, h⟩ := hd.genuine hg hn h
  exact ⟨hp.of_bare hd.bare, seen₂, fun i hi => hs₂ i (hs₁ i hi), h⟩

/-- **Every wave that is set off is reliable.** -/
theorem reliable_wave (hrest : e.AtRest) (hp : e.graph.Declared) (h : e.Genuine P seen [])
    (ha : a.Admissible e)
    (hb : ∀ n ∈ e.inserted a, n.OfVariant ∧ n.OfPalette P ∧ n.outputs.Shows seen)
    (hw : e.wave? a = some w) : w.engine.graph.Sound ∧ w.engine.Reliable P seen := by
  cases wave?_spec hrest ha hw with
  | edited change stamp ha hs hr hi =>
    have hv := hrest.sound.perform ha hr
    rw [hi] at hb
    exact ⟨hv.sound, hp.revises hv fun n hn => (hb n hn).1, seen, fun _ h => h,
      h.revises hv (fun n hn => (hb n hn).2) hs⟩
  | @delivered _ taken left _ ht =>
    have hc := bare_collect (w := e.batch left) hrest.sound taken
    exact ⟨hrest.sound.of_bare hc, hp.of_bare hc, seen, fun _ h => h,
      genuine_collect (w := e.batch left) hrest.sound (h.batch (takeJobs_perm ht))⟩

/-- **Every action keeps an engine reliable.** -/
theorem reliable_act (hrest : e.AtRest) (hp : e.graph.Declared) (h : e.Genuine P seen [])
    (ha : a.Admissible e)
    (hb : ∀ n ∈ e.inserted a, n.OfVariant ∧ n.OfPalette P ∧ n.outputs.Shows seen) :
    (e.act a).1.Reliable P seen ∧ ∀ d ∈ (e.wave? a).elim [] (·.dispatches),
      d.wave.engine.graph.Sound ∧ d.wave.engine.Reliable P seen := by
  cases hw : e.wave? a with
  | none =>
    obtain ⟨hs, _, _⟩ := act_of_no_wave hw
    exact ⟨⟨hs.graph ▸ hp, seen, fun _ h => h, h.mono (fun _ h => h) (h.sees.mono hs.stamp) hs.graph
      hs.jobs hs.files hs.cache⟩, fun _ hd => (List.not_mem_nil hd).elim⟩
  | some w =>
    obtain ⟨hg, hr⟩ := reliable_wave hrest hp h ha hb hw
    rw [act_of_wave? hw]
    exact dispatches_induction hg hr fun hv hn hd h => h.dispatched hv hn hd

theorem reliable_derives (hrest : e.AtRest) (hp : e.graph.Declared) (h : e.Genuine P seen [])
    {held : Node → Prop} (hh : ∀ n, held n → n.OfVariant ∧ n.OfPalette P ∧ n.outputs.Shows seen)
    (as : List Action) (ha : e.Admissible as) (hd : e.Derives P held as) :
    ∀ d ∈ e.dispatches as, d.wave.engine.graph.Sound ∧ d.wave.engine.graph.Declared ∧
      ∃ seen', d.wave.engine.Genuine P seen' [] := by
  induction as generalizing e seen held with
  | nil => exact fun _ hd => (List.not_mem_nil hd).elim
  | cons a as ih =>
    have hh' : ∀ n, (held n ∨ ∃ id, e.graph.node? id = some n) →
        n.OfVariant ∧ n.OfPalette P ∧ n.outputs.Shows seen := by
      rintro n (hn | ⟨id, hn⟩)
      · exact hh n hn
      · exact ⟨hp id n hn, h.nodes id n hn⟩
    obtain ⟨⟨hp', seen', hs, h'⟩, first⟩ := reliable_act hrest hp h ha.1 fun n hn =>
      ⟨(hd.1 n hn).ofVariant fun m hm => (hh' m hm).1, (hd.1 n hn).shows fun m hm => (hh' m hm).2⟩
    intro d hdm
    rcases List.mem_append.1 hdm with hdm | hdm
    · obtain ⟨hg, hp, seen, _, h⟩ := first d hdm
      exact ⟨hg, hp, seen, h⟩
    · exact ih (hrest.act ha.1) hp' h' (fun n hn => (hh' n hn).imp_right
        (·.imp_right (·.mono hs))) ha.2 hd.2 d hdm

/-- **Where no two variants have one identifier, all answers from the cache are sound**: the computes
are pure and proper, and nodes are made of their variants or copied. -/
theorem hits_sound_run (P : Palette) (hp : ∀ v, P.variants v → v.Proper) (options : EngineOptions)
    (files : FileStore) (as : List Action) (ha : (new options files).Admissible as)
    (hd : (new options files).Derives P (fun _ => False) as) :
    (new options files).HitsSound as := by
  intro d hdm n inputs outputs hit
  obtain ⟨hg, hports, seen, h⟩ := reliable_derives (atRest_new options files)
    (fun _ _ h => nomatch h) (upheld_new P options files).1 (fun _ h => h.elim) as ha hd d hdm
  have hn := (h.nodes _ n hit.node).1
  obtain ⟨key, hk, hf⟩ := hit.found
  obtain ⟨stamp, hr, _⟩ := h.remembered hit.node hit.ready (cacheKey?_eq_some hk ▸ hf)
  refine ⟨hit.stored hg, fun t => ?_, ?_⟩
  · have := (P.pure _ hn.variant).renewed (c := n.context inputs stamp d.wave.engine.files)
      (d := n.context inputs t d.wave.engine.files) ⟨rfl, rfl⟩ ⟨rfl, rfl⟩
      (.of_eq (fun _ => rfl) rfl rfl rfl)
    rw [hr] at this
    exact (this.mono fun _ _ => Image.Renewed.alike).of_alike rfl
  · have proper := hp _ hn.variant
    have ports := hports _ n hit.node
    have filled := proper.abides.fills_run rfl hr
    rw [show Context.declared _ = _ from ports.declared] at filled
    have wf := hg.wellFormed hit.node
    exact wf.fitting (ports.fills_outputsByPort proper wf filled)

/-! ## Two variants of one identifier -/

namespace Hits

open Compute

/-- A background compute that puts out a number that its variant has; its results are remembered. -/
def slow (x : Number) : Variant where
  metadata :=
    { id := "slow"
      name := "Slow"
      category := .custom
      description := ""
      ports := [.source "out" .number ""]
      parameters := []
      execution := .asynchronous
      cacheable := true }
  compute := setOutput "out" (.number x)

theorem pure_slow (x : Number) {kept : Image → Prop} : (slow x).Pure kept :=
  Variant.pure_of_concludes fun _ hc hd hl => concludes_plain hc hd hl _ fun _ => Value.noConfusion

theorem proper_slow (x : Number) : (slow x).Proper :=
  ⟨List.nodup_singleton _, fun _ hs => (List.not_mem_nil hs).elim, abides_setOutput _ _⟩

theorem defaults_slow (x : Number) (s : PortSpec) (hs : s ∈ (slow x).metadata.ports) (i : Image)
    (hi : s.default = some (.image i)) : False := by
  obtain rfl := List.mem_singleton.1 hs
  cases hi

/-- One of these variants. -/
def palette (x : Number) : Palette where
  variants v := v = slow x
  images _ := False
  pure _ hv := hv ▸ pure_slow x
  unique _ _ hv hw _ := hv.trans hw.symm
  defaults _ hv := hv ▸ defaults_slow x
  distinct := Palette.distinct_noImages
  unminted := Palette.unminted_noImages

/-- A node comes in, and when it is done another one of its variant. -/
def repeated : List Action := [.addVariant (slow 1), .deliver [0], .addVariant (slow 1)]

/-- The variant is replaced in between. -/
def replaced : List Action := [.addVariant (slow 1), .deliver [0], .addVariant (slow 2)]

theorem hits_repeated : ((new .standard Late.noFiles).run repeated).1.stats.cacheHits = 1 := by cbv

/-- The engine when the first node is done. -/
def done : Engine := ((new .standard Late.noFiles).run (replaced.take 2)).1

/-- The second node. -/
def second : Node := .new (slow 2) done.stamp

/-- It has come in. -/
def coming : Dispatch := ⟨done.mint.2.opened ((done.graph.insert second).performAdd second), second.id⟩

theorem dispatches_coming : coming.wave.dispatches = [coming] := by cbv

theorem mem_coming : coming ∈ (new .standard Late.noFiles).dispatches replaced := by
  have last : coming ∈ coming.wave.dispatches := by
    rw [dispatches_coming]
    exact List.mem_singleton_self _
  exact List.mem_append_right _ (List.mem_append_right _ (List.mem_append_left _ last))

/-- What the first node has put out. -/
def remembered : Table String Value := .ofList [("out", .number 1)]

theorem hit_coming : coming.Hit second ∅ remembered where
  node := by
    show (done.graph.insert second).node? second.id = some second
    rw [Graph.node?_insert, if_pos rfl]
    rfl
  ready := rfl
  accepted := rfl
  background := rfl
  found := ⟨.of "slow" ∅ ∅, by cbv, by cbv⟩

theorem run_second (stamp : Nat) (files : FileStore) :
    second.variant.run (second.context ∅ stamp files) = .ok (.ofList [("out", .number 2)]) := rfl

end Hits

open Hits in
/-- The second of two nodes is answered with what the first has come to. -/
theorem hits_sound_run_repeated :
    ((new .standard Late.noFiles).run repeated).1.stats.cacheHits = 1 ∧
      (new .standard Late.noFiles).HitsSound repeated :=
  ⟨hits_repeated, hits_sound_run (palette 1) (fun _ hv => hv ▸ proper_slow 1) .standard Late.noFiles
    repeated (admissible_of_all_isPlain rfl)
    (Orderly.of_plain rfl (by simp [repeated, palette])).derives⟩

open Hits in
/-- **If a variant is replaced by another one of its identifier, a node of the new one is answered
with what the old one has come to.** -/
theorem not_hitsSound : (∀ x, (slow x).Proper ∧ (slow x).Pure fun _ => False) ∧
    (new .standard Late.noFiles).Admissible replaced ∧
    (new .standard Late.noFiles).Makes (fun v => ∃ x, v = slow x) (fun _ => False) replaced ∧
    ¬ (new .standard Late.noFiles).HitsSound replaced := by
  refine ⟨fun x => ⟨proper_slow x, pure_slow x⟩, admissible_of_all_isPlain rfl,
    makes_of_plain rfl (by simp [replaced]) _, fun h => ?_⟩
  obtain ⟨_, same, _⟩ := h coming mem_coming second ∅ remembered hit_coming
  have same := same 0
  rw [run_second] at same
  have other : ∀ {r : Image → Image → Prop} {x y : Number},
      Value.Match r (.number x) (.number y) → x = y := fun h => by cases h; rfl
  cases same with
  | ok same =>
    cases same with
    | cons first _ => exact absurd (other first.2) (by decide)

end Engine

end PixelFlow
